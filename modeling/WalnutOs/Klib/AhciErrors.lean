import WalnutOs.Klib.Ahci
import WalnutOs.Klib.Drive
import WalnutOs.Lib.Run

/-! One call of `AHCIState::read_or_write` among interrupts, and what it makes of
the status with which its command is acknowledged. -/

namespace WalnutOs.Klib

open WalnutOs.Lib

namespace AHCIState

/-- The first slot's command is not acknowledged, and only its status pointer leads to `r`. -/
structure Pending (r : StatusWord) (value : BitVec 32) (state : AHCIState) : Prop where
  set : state.outstanding 0 = true
  pointer : state.slotStatus 0 = some r
  others : ∀ slot, slot ≠ 0 → state.slotStatus slot ≠ some r
  command : state.Unacknowledged 0
  word : state.words r = value

/-- No status pointer leads to `r`. -/
def Unpointed (r : StatusWord) (state : AHCIState) : Prop := ∀ slot, state.slotStatus slot ≠ some r

/-- The first slot's command was acknowledged once, with the status that `r` has now. -/
structure Finished (r : StatusWord) (status : BitVec 32) (state : AHCIState) : Prop where
  unset : state.outstanding 0 = false
  pointers : Unpointed r state
  command : state.commands 0 = some [status]
  word : state.words r = status

section Acknowledge

variable {state : AHCIState} {r : StatusWord} {value status : BitVec 32} {slot : Slot}

theorem words_acknowledge (elsewhere : state.slotStatus slot ≠ some r) (result : BitVec 32) :
    (state.acknowledge slot result).words r = state.words r := by
  unfold acknowledge
  split
  · rfl
  · rename_i word pointer
    have other : r ≠ word := fun same => elsewhere (same ▸ pointer)
    exact Function.update_of_ne other ..

theorem outstanding_acknowledge_of_ne (different : slot ≠ 0) (result : BitVec 32) :
    (state.acknowledge slot result).outstanding 0 = state.outstanding 0 := by
  rw [outstanding_acknowledge (by decide), decide_eq_false different.symm, Bool.xor_false]

theorem commands_acknowledge_of_ne (different : slot ≠ 0) (result : BitVec 32) :
    (state.acknowledge slot result).commands 0 = state.commands 0 := by
  rw [commands_acknowledge, Function.update_of_ne different.symm]

/-- Pointers are only ever dropped. -/
theorem slotStatus_acknowledge_ne {other : Slot} (elsewhere : state.slotStatus other ≠ some r)
    (result : BitVec 32) : (state.acknowledge slot result).slotStatus other ≠ some r := by
  rw [slotStatus_acknowledge, Function.update_apply]
  split
  · exact nofun
  · exact elsewhere

theorem Unpointed.acknowledge (unpointed : Unpointed r state) (slot : Slot) (result : BitVec 32) :
    Unpointed r (state.acknowledge slot result) :=
  fun other => slotStatus_acknowledge_ne (unpointed other) result

theorem Pending.acknowledge_of_ne (pending : Pending r value state) (different : slot ≠ 0)
    (result : BitVec 32) : Pending r value (state.acknowledge slot result) where
  set := (outstanding_acknowledge_of_ne different result).trans pending.set
  pointer := by
    rw [slotStatus_acknowledge, Function.update_of_ne different.symm]
    exact pending.pointer
  others := fun other apart => slotStatus_acknowledge_ne (pending.others other apart) result
  command := (commands_acknowledge_of_ne different result).trans pending.command
  word := (words_acknowledge (pending.others slot different) result).trans pending.word

theorem Finished.acknowledge_of_ne (finished : Finished r status state) (different : slot ≠ 0)
    (result : BitVec 32) : Finished r status (state.acknowledge slot result) where
  unset := (outstanding_acknowledge_of_ne different result).trans finished.unset
  pointers := finished.pointers.acknowledge slot result
  command := (commands_acknowledge_of_ne different result).trans finished.command
  word := (words_acknowledge (finished.pointers slot) result).trans finished.word

theorem Pending.acknowledge (pending : Pending r value state) (result : BitVec 32) :
    Finished r result (state.acknowledge 0 result) where
  unset := by
    rw [outstanding_acknowledge (by decide), pending.set]
    rfl
  pointers := by
    intro slot
    by_cases first : slot = 0
    · subst first
      rw [slotStatus_acknowledge, Function.update_self]
      exact nofun
    · exact slotStatus_acknowledge_ne (pending.others slot first) result
  command := by
    have command : state.commands 0 = some [] := pending.command
    rw [commands_acknowledge, Function.update_self, command]
    rfl
  word := by
    unfold AHCIState.acknowledge
    simp only [pending.pointer, Function.update_self]

end Acknowledge

section Loops

variable {state : AHCIState}

/-- The slots after the first. -/
def laterSlots : List Slot := (List.finRange 31).map Fin.succ

theorem laterSlots_ne : ∀ slot ∈ laterSlots, slot ≠ 0 := by
  intro slot member
  obtain ⟨before, -, rfl⟩ := List.mem_map.mp member
  exact Fin.succ_ne_zero before

theorem ackSlots_first (acks : BitVec 32) : state.ackSlots acks (List.finRange 32) =
    (state.ackSlot acks 0).ackSlots acks laterSlots := by
  rw [ackSlots, List.finRange_succ, List.foldl_cons, ackSlots, laterSlots]

theorem failSlots_first (codes : IOErrorCodes) : state.failSlots codes (List.finRange 32) =
    (state.failSlot codes 0).failSlots codes laterSlots := by
  rw [failSlots, List.finRange_succ, List.foldl_cons, failSlots, laterSlots]

theorem foldl_keeps (kept : AHCIState → Prop) {turn : AHCIState → Slot → AHCIState} {slots : List Slot}
    (keep : ∀ state, ∀ slot ∈ slots, kept state → kept (turn state slot)) (valid : kept state) :
    kept (slots.foldl turn state) := by
  induction slots generalizing state with
  | nil => exact valid
  | cons first rest ih =>
    exact ih (fun state slot member => keep state slot (List.mem_cons_of_mem first member))
      (keep state first List.mem_cons_self valid)

theorem ackSlots_keeps (kept : AHCIState → Prop) {slots : List Slot}
    (keep : ∀ state, ∀ slot ∈ slots, ∀ result, kept state →
      kept (AHCIState.acknowledge state slot result)) (acks : BitVec 32) (valid : kept state) :
    kept (state.ackSlots acks slots) := by
  refine foldl_keeps kept (fun state slot member held => ?_) valid
  unfold ackSlot
  split
  · exact keep state slot member 0 held
  · exact held

theorem failSlots_keeps (kept : AHCIState → Prop) {slots : List Slot}
    (keep : ∀ state, ∀ slot ∈ slots, ∀ result, kept state →
      kept (AHCIState.acknowledge state slot result)) (codes : IOErrorCodes) (valid : kept state) :
    kept (state.failSlots codes slots) := by
  refine foldl_keeps kept (fun state slot member held => ?_) valid
  unfold failSlot
  split
  · exact keep state slot member codes.deviceError held
  · exact held

end Loops

section Interrupts

variable {state : AHCIState} {r : StatusWord} {value status : BitVec 32}

theorem Finished.write (finished : Finished r status state) (register : AhciRegister)
    (written : BitVec 32) : Finished r status (state.write register written) :=
  ⟨finished.unset, finished.pointers, finished.command, finished.word⟩

theorem Pending.write (pending : Pending r value state) (register : AhciRegister)
    (written : BitVec 32) : Pending r value (state.write register written) :=
  ⟨pending.set, pending.pointer, pending.others, pending.command, pending.word⟩

theorem Finished.ackLater (finished : Finished r status state) (acks : BitVec 32) :
    Finished r status (state.ackSlots acks laterSlots) := by
  refine ackSlots_keeps _ (fun state slot member result held => ?_) acks finished
  exact Finished.acknowledge_of_ne held (laterSlots_ne slot member) result

theorem Finished.failLater (finished : Finished r status state) (codes : IOErrorCodes) :
    Finished r status (state.failSlots codes laterSlots) := by
  refine failSlots_keeps _ (fun state slot member result held => ?_) codes finished
  exact Finished.acknowledge_of_ne held (laterSlots_ne slot member) result

theorem Pending.ackLater (pending : Pending r value state) (acks : BitVec 32) :
    Pending r value (state.ackSlots acks laterSlots) := by
  refine ackSlots_keeps _ (fun state slot member result held => ?_) acks pending
  exact Pending.acknowledge_of_ne held (laterSlots_ne slot member) result

theorem Finished.ackSlots (finished : Finished r status state) (reads : InterruptReads) :
    Finished r status (state.ackSlots (state.acks reads) (List.finRange 32)) := by
  have unnamed : (state.acks reads).getLsbD (0 : Slot) = false := by
    rw [getLsbD_acks, finished.unset, Bool.false_and]
  have first : state.ackSlot (state.acks reads) 0 = state := by
    rw [ackSlot, unnamed, if_neg Bool.false_ne_true]
  rw [ackSlots_first, first]
  exact finished.ackLater _

theorem Pending.ackSlots (pending : Pending r value state) (reads : InterruptReads) :
    if reads.ncqActive.getLsbD 0 then
      Pending r value (state.ackSlots (state.acks reads) (List.finRange 32))
    else Finished r 0 (state.ackSlots (state.acks reads) (List.finRange 32)) := by
  have named : (state.acks reads).getLsbD (0 : Slot) = !reads.ncqActive.getLsbD 0 := by
    rw [getLsbD_acks, pending.set, Bool.true_and]
    rfl
  cases active : reads.ncqActive.getLsbD 0 with
  | true =>
    rw [active] at named
    have first : state.ackSlot (state.acks reads) 0 = state := by
      rw [ackSlot, named, Bool.not_true, if_neg Bool.false_ne_true]
    rw [if_pos rfl, ackSlots_first, first]
    exact pending.ackLater _
  | false =>
    rw [active] at named
    have first : state.ackSlot (state.acks reads) 0 = state.acknowledge 0 0 := by
      rw [ackSlot, named, Bool.not_false, if_pos rfl]
    rw [if_neg Bool.false_ne_true, ackSlots_first, first]
    exact (pending.acknowledge 0).ackLater _

theorem Finished.handleErrorInterrupt (finished : Finished r status state) (codes : IOErrorCodes)
    (reads : InterruptReads) : Finished r status (state.handleErrorInterrupt codes reads) := by
  have unset : state.slotsOutstandingMask.getLsbD (0 : Slot) = false := finished.unset
  have first : state.failSlot codes 0 = state := by
    rw [failSlot, unset, if_neg Bool.false_ne_true]
  have failed := finished.failLater codes
  rw [AHCIState.handleErrorInterrupt, failSlots_first, first]
  exact ((failed.write _ _).write _ _).write _ _

theorem Pending.handleErrorInterrupt (pending : Pending r value state) (codes : IOErrorCodes)
    (reads : InterruptReads) :
    Finished r codes.deviceError (state.handleErrorInterrupt codes reads) := by
  have set : state.slotsOutstandingMask.getLsbD (0 : Slot) = true := pending.set
  have first : state.failSlot codes 0 = state.acknowledge 0 codes.deviceError := by
    rw [failSlot, set, if_pos rfl]
  have failed := (pending.acknowledge codes.deviceError).failLater codes
  rw [AHCIState.handleErrorInterrupt, failSlots_first, first]
  exact ((failed.write _ _).write _ _).write _ _

theorem Finished.handleInterrupt (finished : Finished r status state) (codes : IOErrorCodes)
    (reads : InterruptReads) : Finished r status (state.handleInterrupt codes reads) := by
  have acked := ((finished.write .portInterruptStatus (BitVec.allOnes 32)).write .driveInterruptStatus
    (BitVec.allOnes 32)).ackSlots reads
  unfold AHCIState.handleInterrupt
  simp only
  split
  · exact acked.handleErrorInterrupt codes reads
  · exact acked

/-- An interrupt completes the command unless its `ncq_active` bit is still set;
then an error fails it. -/
theorem Pending.handleInterrupt (pending : Pending r value state) (codes : IOErrorCodes)
    (reads : InterruptReads) :
    reads.ncqActive.getLsbD 0 = false ∧ Finished r 0 (state.handleInterrupt codes reads) ∨
      reads.ncqActive.getLsbD 0 = true ∧ reads.isError = true ∧
        Finished r codes.deviceError (state.handleInterrupt codes reads) ∨
      reads.isError = false ∧ Pending r value (state.handleInterrupt codes reads) := by
  have acked := ((pending.write .portInterruptStatus (BitVec.allOnes 32)).write .driveInterruptStatus
    (BitVec.allOnes 32)).ackSlots reads
  unfold AHCIState.handleInterrupt
  simp only
  cases active : reads.ncqActive.getLsbD 0 with
  | false =>
    rw [active, if_neg Bool.false_ne_true] at acked
    refine .inl ⟨rfl, ?_⟩
    split
    · exact acked.handleErrorInterrupt codes reads
    · exact acked
  | true =>
    rw [active, if_pos rfl] at acked
    cases reads.isError with
    | true => exact .inr (.inl ⟨rfl, rfl, acked.handleErrorInterrupt codes reads⟩)
    | false => exact .inr (.inr ⟨rfl, acked⟩)

theorem Unpointed.write (unpointed : Unpointed r state) (register : AhciRegister)
    (written : BitVec 32) : Unpointed r (state.write register written) := unpointed

theorem Unpointed.handleInterrupt (unpointed : Unpointed r state) (codes : IOErrorCodes)
    (reads : InterruptReads) : Unpointed r (state.handleInterrupt codes reads) := by
  have keep : ∀ state, ∀ slot ∈ List.finRange 32, ∀ result, Unpointed r state →
      Unpointed r (AHCIState.acknowledge state slot result) :=
    fun _ slot _ result held => held.acknowledge slot result
  have cleared := (unpointed.write .portInterruptStatus (BitVec.allOnes 32)).write
    .driveInterruptStatus (BitVec.allOnes 32)
  unfold AHCIState.handleInterrupt
  simp only
  generalize (state.write .portInterruptStatus (BitVec.allOnes 32)).write .driveInterruptStatus
    (BitVec.allOnes 32) = ready at cleared
  have acked := ackSlots_keeps (Unpointed r) keep (ready.acks reads) cleared
  split
  · have failed := failSlots_keeps (Unpointed r) keep codes acked
    exact ((failed.write _ _).write _ _).write _ _
  · exact acked

/-- A command is issued with `r` as its status word. -/
theorem Unpointed.issueNcq (unpointed : Unpointed r state) (value : BitVec 32) :
    Pending r value ((state.setStatus 0 r value).issueNcq 0) where
  set := by
    have first : (state.slotsOutstandingMask ||| 1#16 <<< 0).getLsbD 0 =
        (state.slotsOutstandingMask.getLsbD 0 || decide (0 = 0)) := Bits.getLsbD_set (by decide)
    exact first.trans (Bool.or_true _)
  pointer := by simp [AHCIState.issueNcq, issue, setStatus]
  others := by
    intro slot different
    have same : ((state.setStatus 0 r value).issueNcq 0).slotStatus slot = state.slotStatus slot :=
      Function.update_of_ne different ..
    rw [same]
    exact unpointed slot
  command := by simp [Unacknowledged, AHCIState.issueNcq, issue]
  word := by simp [AHCIState.issueNcq, issue, setStatus]

theorem Finished.clearStatus (finished : Finished r status state) :
    Finished r status (state.clearStatus 0) where
  unset := finished.unset
  pointers := by
    intro slot
    simp only [AHCIState.clearStatus, Function.update_apply]
    split
    · exact nofun
    · exact finished.pointers slot
  command := finished.command
  word := finished.word

end Interrupts

end AHCIState

inductive CallStatus where
  | notIssued
  | polling
  | returned (result : Except IOError Unit)
  deriving DecidableEq

inductive TransferEvent where
  | issue
  | poll
  | interrupt (reads : InterruptReads)

/-- A call of `read_or_write`, whose local variable `r` is the word of that number. -/
structure ReadOrWrite where
  ahci : AHCIState
  r : StatusWord
  status : CallStatus

namespace ReadOrWrite

open AHCIState

/-- The steps of the call: under its guard it issues the command, and then it
polls `r`; the result is `Ok` whatever `r` is. -/
def step (codes : IOErrorCodes) (call : ReadOrWrite) : TransferEvent → ReadOrWrite
  | .issue =>
    match call.status with
    | .notIssued => { call with
        ahci := (call.ahci.setStatus 0 call.r codes.tryAgain).issueNcq 0
        status := .polling }
    | _ => call
  | .poll =>
    match call.status with
    | .polling =>
      if call.ahci.words call.r = codes.tryAgain then call
      else { call with ahci := call.ahci.clearStatus 0, status := .returned (.ok ()) }
    | _ => call
  | .interrupt reads => { call with ahci := call.ahci.handleInterrupt codes reads }

/-- The slot of every call. -/
def slot : Slot := 0

/-- The call's command has been acknowledged with this status. -/
def AcknowledgedWith (call : ReadOrWrite) (status : BitVec 32) : Prop :=
  ∃ acks, call.ahci.commands 0 = some acks ∧ status ∈ acks

/-- A device error makes an `Err`, and `Ok` means that the command succeeded. -/
def Reports (codes : IOErrorCodes) (call : ReadOrWrite) (result : Except IOError Unit) : Prop :=
  (call.AcknowledgedWith codes.deviceError → ∃ error, result = .error error) ∧
    (result = .ok () → call.AcknowledgedWith 0)

/-- The call returns at its next look at `r`, if its command is acknowledged. -/
def Returns (codes : IOErrorCodes) (call : ReadOrWrite) : Prop :=
  call.status = .polling → (∃ status, call.AcknowledgedWith status) →
    ∃ result, (call.step codes .poll).status = .returned result

/-- No interrupt reads an error while the call's command is unacknowledged and
has its `ncq_active` bit set. -/
def Undisturbed (call : ReadOrWrite) : TransferEvent → Prop
  | .interrupt reads => call.status = .polling → call.ahci.Unacknowledged 0 →
      ¬ (reads.isError = true ∧ reads.ncqActive.getLsbD 0 = true)
  | _ => True

/-- A call that has not started; no slot's status goes to its local variable. -/
structure Unissued (call : ReadOrWrite) : Prop where
  unpointed : Unpointed call.r call.ahci
  status : call.status = .notIssued

structure Waiting (codes : IOErrorCodes) (call : ReadOrWrite) : Prop where
  pending : Pending call.r codes.tryAgain call.ahci
  status : call.status = .polling

structure Answered (status : BitVec 32) (call : ReadOrWrite) : Prop where
  finished : Finished call.r status call.ahci
  status : call.status = .polling ∨ call.status = .returned (.ok ())

section Steps

variable {codes : IOErrorCodes} {call : ReadOrWrite} {status : BitVec 32}

theorem Unissued.issue (unissued : Unissued call) (codes : IOErrorCodes) :
    Waiting codes (call.step codes .issue) := by
  simp only [step, unissued.status]
  exact ⟨unissued.unpointed.issueNcq codes.tryAgain, rfl⟩

theorem Answered.step (answered : Answered status call) (event : TransferEvent) :
    Answered status (call.step codes event) := by
  obtain ⟨finished, answer⟩ := answered
  cases event with
  | issue =>
    rcases answer with polling | returned
    · simp only [ReadOrWrite.step, polling]
      exact ⟨finished, .inl polling⟩
    · simp only [ReadOrWrite.step, returned]
      exact ⟨finished, .inr returned⟩
  | poll =>
    rcases answer with polling | returned
    · simp only [ReadOrWrite.step, polling]
      split
      · exact ⟨finished, .inl polling⟩
      · exact ⟨finished.clearStatus, .inr rfl⟩
    · simp only [ReadOrWrite.step, returned]
      exact ⟨finished, .inr returned⟩
  | interrupt reads => exact ⟨finished.handleInterrupt codes reads, answer⟩

theorem Answered.final (answered : Answered status call) (codes : IOErrorCodes)
    (events : List TransferEvent) :
    Answered status (events.foldl (ReadOrWrite.step codes) call) ∧
      EveryStep (ReadOrWrite.step codes) Undisturbed call events := by
  induction events generalizing call with
  | nil => exact ⟨answered, trivial⟩
  | cons event rest ih =>
    obtain ⟨final, later⟩ := ih (answered.step event)
    refine ⟨final, ?_, later⟩
    cases event with
    | issue => trivial
    | poll => trivial
    | interrupt reads =>
      intro _ pending
      rw [Unacknowledged, answered.finished.command] at pending
      cases pending

/-- How a call ends up: it waits, or its command succeeded, or an interrupt that
disturbed it has failed the command. -/
theorem Waiting.final (waiting : Waiting codes call) (events : List TransferEvent) :
    (Waiting codes (events.foldl (step codes) call) ∨
        Answered 0 (events.foldl (step codes) call)) ∧
        EveryStep (step codes) Undisturbed call events ∨
      Answered codes.deviceError (events.foldl (step codes) call) ∧
        ¬ EveryStep (step codes) Undisturbed call events := by
  induction events generalizing call with
  | nil => exact .inl ⟨.inl waiting, trivial⟩
  | cons event rest ih =>
    obtain ⟨pending, polling⟩ := waiting
    cases event with
    | issue =>
      have same : call.step codes .issue = call := by simp only [step, polling]
      simpa [EveryStep, Undisturbed, same] using ih ⟨pending, polling⟩
    | poll =>
      have same : call.step codes .poll = call := by simp only [step, polling, pending.word, if_true]
      simpa [EveryStep, Undisturbed, same] using ih ⟨pending, polling⟩
    | interrupt reads =>
      rcases pending.handleInterrupt codes reads with
        ⟨inactive, finished⟩ | ⟨active, error, finished⟩ | ⟨fine, waits⟩
      · have answered : Answered 0 (call.step codes (.interrupt reads)) := ⟨finished, .inl polling⟩
        obtain ⟨final, later⟩ := answered.final codes rest
        refine .inl ⟨.inr final, fun _ _ both => ?_, later⟩
        rw [inactive] at both
        exact Bool.false_ne_true both.2
      · have answered : Answered codes.deviceError (call.step codes (.interrupt reads)) :=
          ⟨finished, .inl polling⟩
        refine .inr ⟨(answered.final codes rest).1, fun every => ?_⟩
        exact every.1 polling pending.command ⟨error, active⟩
      · have still : Waiting codes (call.step codes (.interrupt reads)) := ⟨waits, polling⟩
        have now : Undisturbed call (.interrupt reads) := by
          intro _ _ both
          rw [fine] at both
          exact Bool.false_ne_true both.1
        rcases ih still with ⟨final, later⟩ | ⟨final, disturbed⟩
        · exact .inl ⟨final, now, later⟩
        · exact .inr ⟨final, fun every => disturbed every.2⟩

theorem Unissued.final (unissued : Unissued call) (codes : IOErrorCodes) (events : List TransferEvent) :
    (Unissued (events.foldl (step codes) call) ∨ Waiting codes (events.foldl (step codes) call) ∨
        Answered 0 (events.foldl (step codes) call)) ∧
        EveryStep (step codes) Undisturbed call events ∨
      Answered codes.deviceError (events.foldl (step codes) call) ∧
        ¬ EveryStep (step codes) Undisturbed call events := by
  induction events generalizing call with
  | nil => exact .inl ⟨.inl unissued, trivial⟩
  | cons event rest ih =>
    cases event with
    | issue =>
      rcases (unissued.issue codes).final rest with ⟨final, every⟩ | ⟨final, disturbed⟩
      · exact .inl ⟨.inr final, trivial, every⟩
      · exact .inr ⟨final, fun every => disturbed every.2⟩
    | poll =>
      have same : call.step codes .poll = call := by simp only [step, unissued.status]
      simpa [EveryStep, Undisturbed, same] using ih unissued
    | interrupt reads =>
      have now : Undisturbed call (.interrupt reads) := by
        intro polling
        rw [unissued.status] at polling
        cases polling
      have later : Unissued (call.step codes (.interrupt reads)) :=
        ⟨unissued.unpointed.handleInterrupt codes reads, unissued.status⟩
      rcases ih later with ⟨final, every⟩ | ⟨final, disturbed⟩
      · exact .inl ⟨final, now, every⟩
      · exact .inr ⟨final, fun every => disturbed every.2⟩

theorem Answered.acknowledgedWith_iff (answered : Answered status call) (other : BitVec 32) :
    call.AcknowledgedWith other ↔ other = status := by
  simp [AcknowledgedWith, answered.finished.command]

theorem Answered.returns (answered : Answered status call) (known : status ≠ codes.tryAgain) :
    Returns codes call := by
  intro polling _
  refine ⟨.ok (), ?_⟩
  rw [ReadOrWrite.step, polling]
  simp only [answered.finished.word, if_neg known]

theorem Answered.result (answered : Answered status call) {result : Except IOError Unit}
    (returned : call.status = .returned result) : result = .ok () := by
  rcases answered.status with polling | ok
  · rw [returned] at polling
    cases polling
  · rw [returned] at ok
    cases ok
    rfl

end Steps

/-- A call whose command is acknowledged returns, and what it returns is right
exactly when no interrupt has failed the command. -/
theorem reports_iff (codes : IOErrorCodes) (success : codes.tryAgain ≠ 0)
    (failure : codes.tryAgain ≠ codes.deviceError) {call : ReadOrWrite} (unissued : Unissued call)
    (events : List TransferEvent) :
    Returns codes (events.foldl (step codes) call) ∧
      ∀ result, (events.foldl (step codes) call).status = .returned result →
        (Reports codes (events.foldl (step codes) call) result ↔
          codes.deviceError ≠ 0 ∧ EveryStep (step codes) Undisturbed call events) := by
  rcases unissued.final codes events with
    ⟨waits | waits | answered, every⟩ | ⟨answered, disturbed⟩
  · refine ⟨fun polling => ?_, fun result returned => ?_⟩
    · rw [waits.status] at polling
      cases polling
    · rw [waits.status] at returned
      cases returned
  · refine ⟨fun _ acknowledged => ?_, fun result returned => ?_⟩
    · obtain ⟨status, acks, command, member⟩ := acknowledged
      rw [waits.pending.command] at command
      cases command
      cases member
    · rw [waits.status] at returned
      cases returned
  · refine ⟨answered.returns success.symm, fun result returned => ?_⟩
    rw [answered.result returned, Reports, answered.acknowledgedWith_iff,
      answered.acknowledgedWith_iff, and_iff_left every]
    simp
  · refine ⟨answered.returns failure.symm, fun result returned => ?_⟩
    rw [answered.result returned, Reports, answered.acknowledgedWith_iff]
    refine iff_of_false ?_ fun right => disturbed right.2
    rintro ⟨errs, -⟩
    obtain ⟨error, ok⟩ := errs rfl
    cases ok

/-- A call on a drive without commands. -/
def first : ReadOrWrite :=
  ⟨⟨32, 0, fun _ => none, fun _ => 0, [], fun _ => none⟩, 0, .notIssued⟩

theorem first_unissued : Unissued first := ⟨fun _ => nofun, rfl⟩

/-- The device is done after the call has polled once. -/
theorem reports_done : Reports ⟨1, 2⟩
    ([.issue, .poll, .interrupt ⟨1, 0, 0, 0, 0⟩, .poll].foldl (step ⟨1, 2⟩) first) (.ok ()) :=
  ((reports_iff ⟨1, 2⟩ (by decide) (by decide) first_unissued _).2 _ rfl).mpr
    ⟨by decide, trivial, trivial, by simp [Undisturbed, InterruptReads.isError], trivial, trivial⟩

/-- The device fails the command, and the call returns `Ok`. -/
theorem device_error_is_ok : ¬ ∀ (codes : IOErrorCodes) call (events : List TransferEvent) result,
    codes.tryAgain ≠ 0 → codes.tryAgain ≠ codes.deviceError → Unissued call →
    (events.foldl (step codes) call).status = .returned result →
    Reports codes (events.foldl (step codes) call) result := by
  intro claim
  obtain ⟨errs, -⟩ := claim ⟨1, 2⟩ first [.issue, .interrupt ⟨0x40000000, 0, 1, 0, 0⟩, .poll] (.ok ())
    (by decide) (by decide) first_unissued (by decide +kernel)
  obtain ⟨error, ok⟩ := errs ⟨[2], by decide +kernel, List.mem_singleton.mpr rfl⟩
  cases ok

end ReadOrWrite

end WalnutOs.Klib
