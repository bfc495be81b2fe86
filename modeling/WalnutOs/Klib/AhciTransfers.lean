import WalnutOs.Klib.AhciDevice

/-! Calls of `read` and `write` on the controller, in whatever order it completes and interrupts: the
driver is the disk that its callers use. -/

namespace WalnutOs.Klib

open WalnutOs.Lib Lib.Fields

section Decoding

variable {dma laid : DmaState} {transfer : DiskTransfer}

/-- Whole sectors, as many as one entry of the table can describe. -/
def DiskTransfer.Admitted (transfer : DiskTransfer) : Prop :=
  transfer.size.toNat % sectorSize = 0 ∧ transfer.size ≠ 0 ∧ transfer.size.toNat ≤ 4 * 2 ^ 20

theorem DiskTransfer.command_toNat (transfer : DiskTransfer) :
    transfer.command = if transfer.writes then writeFPDMAQueued else readFPDMAQueued := rfl

theorem writeFlag (transfer : DiskTransfer) :
    ((4 ||| DmaState.chClear ||| if transfer.command = writeFPDMAQueued then DmaState.chWrite else 0).setWidth
      16).getLsbD 6 = transfer.writes := by
  rw [DiskTransfer.command]
  cases transfer.writes <;> decide

/-- The controller reads what the call asked for. -/
theorem decode_laid (admitted : transfer.Admitted)
    (requested : dma.request 0 transfer.command transfer.data transfer.size
      (transfer.offset / DmaState.sectorSize) true 0 = .ok laid) :
    TransferRequest.decode 0 (laid.ch 0) (laid.ct 0) = some transfer.request := by
  obtain ⟨whole, some, most⟩ := admitted
  rw [DmaState.request_eq] at requested
  cases requested
  have nonempty : 0 < transfer.size.toNat := Nat.pos_of_ne_zero fun none => some (BitVec.eq_of_toNat_eq none)
  have sectors : (transfer.size / DmaState.sectorSize).toNat = transfer.size.toNat / 512 := BitVec.toNat_udiv
  have sector : (transfer.offset / DmaState.sectorSize).toNat = transfer.offset.toNat / 512 :=
    BitVec.toNat_udiv
  have count : (Prd.mk transfer.data (transfer.size - 1)).byteCount = transfer.size.toNat := by
    rw [Prd.byteCount, field, BitVec.toNat_sub]
    change (2 ^ 32 - 1 + transfer.size.toNat) % 2 ^ 32 / 2 ^ 0 % 2 ^ 22 + 1 = _
    simp only [sectorSize] at whole
    omega
  have code : transfer.command.toNat = (if transfer.writes then writeFPDMAQueued else readFPDMAQueued).toNat :=
    congrArg BitVec.toNat transfer.command_toNat
  have entries : (List.finRange 16).take (1 : BitVec 16).toNat = [⟨0, by decide⟩] := rfl
  simp only [TransferRequest.decode, Function.update_self, writeFlag]
  rw [DmaState.decode_ncqWords (by omega) (by decide), entries, List.flatMap_singleton]
  simp only [Function.update_self, count, sectors, sector]
  rw [if_pos ⟨trivial, trivial, trivial, trivial, code⟩]
  rfl

end Decoding

/-- What was done, each transfer with the way it ended. -/
inductive Performed where
  | transfer (call : DiskTransfer) (outcome : TransferOutcome)
  | store (address : Nat) (value : Byte)

def Performed.action : Performed → DiskAction
  | .transfer call _ => .transfer call
  | .store address value => .store address value

/-- Only where there are faults does a transfer fail. -/
def Performed.Right (faulty : Prop) : Performed → Prop
  | .transfer _ (.failed _ _) => faulty
  | .transfer _ .done | .store _ _ => True

def Medium.apply (medium : Medium) : Performed → Medium
  | .transfer call outcome => medium.perform call.request outcome
  | .store address value => { medium with ram := Function.update medium.ram address value }

/-- The history was done in order, and that is how the medium came about. -/
def Recorded (faulty : Prop) (start medium : Medium) (history : List DiskAction) : Prop :=
  ∃ performed : List Performed, (∀ entry ∈ performed, entry.Right faulty) ∧
    performed.map Performed.action = history ∧ performed.foldl Medium.apply start = medium

theorem Recorded.next {faulty : Prop} {start medium : Medium} {history : List DiskAction}
    (recorded : Recorded faulty start medium history) (entry : Performed) (right : entry.Right faulty) :
    Recorded faulty start (medium.apply entry) (history ++ [entry.action]) := by
  obtain ⟨performed, rights, actions, reached⟩ := recorded
  refine ⟨performed ++ [entry], ?_, ?_, ?_⟩
  · rw [List.forall_mem_append]
    exact ⟨rights, List.forall_mem_singleton.mpr right⟩
  · rw [List.map_append, actions, List.map_singleton]
  · rw [List.foldl_append, reached]
    rfl

/-- A read that fails before it began, and a write that fails so. -/
theorem Medium.perform_failed (medium : Medium) (call : DiskTransfer) :
    medium.perform call.request (.failed (fun index => medium.ram (call.data.toNat + index)) 0) = medium := by
  rw [perform]
  split
  · have kept : call.request.store (min 0 (call.request.count - 1)) medium = medium.sectors := by
      funext sector place
      rw [Nat.zero_min, TransferRequest.store, Nat.add_zero,
        if_neg fun both => absurd both.2 (Nat.not_lt_of_le both.1)]
    rw [kept]
  · have kept : call.request.fill (fun index => medium.ram (call.data.toNat + index)) medium.ram =
        medium.ram := by
      funext address
      rw [TransferRequest.fill, storeAll_apply medium.ram]
      · exact ite_self _
      · intro entry member
        obtain ⟨-, there⟩ := List.mem_zipIdx' (List.mem_of_mem_take member)
        rw [there]
        simp [DiskTransfer.request]
    rw [kept]

namespace AHCIState

variable {state : AHCIState} {allowed : Slot → StatusWord → Prop}

/-- What the status pointers may be. -/
def Pointed (allowed : Slot → StatusWord → Prop) (state : AHCIState) : Prop :=
  ∀ slot word, state.slotStatus slot = some word → allowed slot word

theorem Pointed.acknowledge (pointed : Pointed allowed state) (slot : Slot) (result : BitVec 32) :
    Pointed allowed (state.acknowledge slot result) := by
  intro other word points
  rw [slotStatus_acknowledge, Function.update_apply] at points
  split at points
  · cases points
  · exact pointed other word points

theorem Pointed.handleInterrupt (pointed : Pointed allowed state) (codes : IOErrorCodes)
    (reads : InterruptReads) : Pointed allowed (state.handleInterrupt codes reads) := by
  have keep : ∀ state, ∀ slot ∈ List.finRange 32, ∀ result, Pointed allowed state →
      Pointed allowed (AHCIState.acknowledge state slot result) :=
    fun _ slot _ result held => held.acknowledge slot result
  have acked : Pointed allowed (((state.write .portInterruptStatus (BitVec.allOnes 32)).write
      .driveInterruptStatus (BitVec.allOnes 32)).ackSlots
        (((state.write .portInterruptStatus (BitVec.allOnes 32)).write .driveInterruptStatus
          (BitVec.allOnes 32)).acks reads) (List.finRange 32)) := ackSlots_keeps _ keep _ pointed
  rw [AHCIState.handleInterrupt]
  split
  · exact failSlots_keeps (Pointed allowed) keep codes acked
  · exact acked

/-- A command that is no longer active is completed by any interrupt. -/
theorem Pending.completes {r : StatusWord} {value : BitVec 32} (pending : Pending r value state)
    (codes : IOErrorCodes) {reads : InterruptReads} (clear : reads.ncqActive.getLsbD 0 = false) :
    Finished r 0 (state.handleInterrupt codes reads) := by
  have acked := ((pending.write .portInterruptStatus (BitVec.allOnes 32)).write .driveInterruptStatus
    (BitVec.allOnes 32)).ackSlots reads
  rw [clear, if_neg Bool.false_ne_true] at acked
  rw [AHCIState.handleInterrupt]
  split
  · exact acked.handleErrorInterrupt codes reads
  · exact acked

theorem writes_acknowledge (state : AHCIState) (slot : Slot) (result : BitVec 32) :
    (state.acknowledge slot result).writes = state.writes := by
  rw [acknowledge]
  dsimp only
  split <;> rfl

/-- What the handler writes to the registers. -/
def interruptWrites (reads : InterruptReads) : List (AhciRegister × BitVec 32) :=
  [(.portInterruptStatus, BitVec.allOnes 32), (.driveInterruptStatus, BitVec.allOnes 32)] ++
    if reads.isError then [(.commandAndStatus, reads.commandAndStatus &&& ~~~startMask),
      (.serror, BitVec.allOnes 32), (.commandAndStatus, reads.restart ||| startMask)] else []

theorem writes_handleErrorInterrupt (state : AHCIState) (codes : IOErrorCodes) (reads : InterruptReads) :
    (state.handleErrorInterrupt codes reads).writes = (state.failSlots codes (List.finRange 32)).writes ++
      [(.commandAndStatus, reads.commandAndStatus &&& ~~~startMask), (.serror, BitVec.allOnes 32),
        (.commandAndStatus, reads.restart ||| startMask)] := by
  simp only [handleErrorInterrupt, write, List.append_assoc, List.cons_append, List.nil_append]

theorem writes_handleInterrupt (state : AHCIState) (codes : IOErrorCodes) (reads : InterruptReads) :
    (state.handleInterrupt codes reads).writes = state.writes ++ interruptWrites reads := by
  have keep {writes : List (AhciRegister × BitVec 32)} : ∀ state, ∀ slot ∈ List.finRange 32, ∀ result,
      state.writes = writes → (AHCIState.acknowledge state slot result).writes = writes :=
    fun state slot _ result held => (state.writes_acknowledge slot result).trans held
  have acked : (((state.write .portInterruptStatus (BitVec.allOnes 32)).write
      .driveInterruptStatus (BitVec.allOnes 32)).ackSlots
        (((state.write .portInterruptStatus (BitVec.allOnes 32)).write .driveInterruptStatus
          (BitVec.allOnes 32)).acks reads) (List.finRange 32)).writes = state.writes ++
      [(.portInterruptStatus, BitVec.allOnes 32)] ++ [(.driveInterruptStatus, BitVec.allOnes 32)] :=
    ackSlots_keeps (fun state => state.writes = _) keep _ rfl
  rw [handleInterrupt, interruptWrites]
  split
  · have failed := failSlots_keeps (fun state => state.writes = _) keep codes acked
    rw [writes_handleErrorInterrupt, failed]
    simp only [List.append_assoc, List.cons_append, List.nil_append]
  · rw [acked]
    simp only [List.append_assoc, List.cons_append, List.nil_append, List.append_nil]

end AHCIState

namespace AhciMachine

variable {codes : IOErrorCodes} {faulty : Prop} {start : Medium} {machine after : AhciMachine}

/-- Only where there are faults does the controller fail a command or interrupt with an error. -/
def FairDevice (faulty : Prop) : DeviceEvent → Prop
  | .done _ => True
  | .failed _ _ _ => faulty

/-- The controller has no command, and the history is done. -/
structure Rests (faulty : Prop) (start : Medium) (machine : AhciMachine) : Prop where
  issued : machine.issued = 0
  active : machine.active = 0
  recorded : Recorded faulty start machine.medium machine.history

/-- The controller has the latest call in its first slot, or it is through with it. -/
inductive Progress (faulty : Prop) (start : Medium) (machine : AhciMachine) : Prop where
  | waits (call : DiskTransfer) (before : List DiskAction) (issued : machine.issued = 1)
      (active : machine.active = 1)
      (decoded : TransferRequest.decode 0 (machine.dma.ch 0) (machine.dma.ct 0) = some call.request)
      (history : machine.history = before ++ [.transfer call])
      (recorded : Recorded faulty start machine.medium before)
  | through (issued : machine.issued = 0) (active : machine.active = 0 ∨ machine.active = 1 ∧ faulty)
      (recorded : Recorded faulty start machine.medium machine.history)

theorem request_of_unissued (unissued : machine.issued = 0) (slot : Slot) : machine.request slot = none := by
  rw [request, unissued]
  exact if_neg fun both => by simp at both

theorem react_of_unissued (unissued : machine.issued = 0) (event : DeviceEvent) :
    machine.react event = machine := by
  cases event with
  | done slot => rw [react, request_of_unissued unissued]
  | failed slot left written => rw [react, request_of_unissued unissued]

theorem reacts_of_unissued (unissued : machine.issued = 0) (late : List DeviceEvent) :
    late.foldl react machine = machine := by
  induction late with
  | nil => rfl
  | cons event rest ih => rw [List.foldl_cons, react_of_unissued unissued, ih]

theorem call_react (machine : AhciMachine) (event : DeviceEvent) :
    (machine.react event).call = machine.call := by
  cases event <;> unfold react <;> dsimp only <;> split <;> rfl

theorem call_reacts (machine : AhciMachine) (late : List DeviceEvent) :
    (late.foldl react machine).call = machine.call := by
  induction late generalizing machine with
  | nil => rfl
  | cons event rest ih => exact (ih _).trans (machine.call_react event)

theorem Progress.react (progress : Progress faulty start machine) {event : DeviceEvent}
    (fair : FairDevice faulty event) : Progress faulty start (machine.react event) := by
  cases progress with
  | through issued active recorded =>
    rw [react_of_unissued issued]
    exact .through issued active recorded
  | waits call before issued active decoded history recorded =>
    have first : machine.request 0 = some call.request := by
      rw [request, issued, active, if_pos (by decide), decoded]
    have others (slot : Slot) (other : slot ≠ 0) : machine.request slot = none := by
      rw [request, issued]
      have bits : ∀ slot : Slot, (1 : BitVec 32).getLsbD slot.val = true → slot = 0 := by decide
      exact if_neg fun both => other (bits slot both.1)
    cases event with
    | done slot =>
      by_cases here : slot = 0
      · subst here
        rw [AhciMachine.react, first]
        refine .through ?_ (.inl ?_) ?_
        · exact (congrArg (· &&& _) issued).trans (by decide)
        · exact (congrArg (· &&& _) active).trans (by decide)
        · dsimp only
          rw [history]
          exact recorded.next (.transfer call .done) trivial
      · rw [AhciMachine.react, others slot here]
        exact .waits call before issued active decoded history recorded
    | failed slot left written =>
      by_cases here : slot = 0
      · subst here
        rw [AhciMachine.react, first]
        refine .through ?_ (.inr ⟨active, fair⟩) ?_
        · exact (congrArg (· &&& _) issued).trans (by decide)
        · dsimp only
          rw [history]
          exact recorded.next (.transfer call (.failed left written)) fair
      · rw [AhciMachine.react, others slot here]
        exact .waits call before issued active decoded history recorded

theorem Progress.reacts (progress : Progress faulty start machine) {late : List DeviceEvent}
    (fair : ∀ event ∈ late, FairDevice faulty event) :
    Progress faulty start (late.foldl AhciMachine.react machine) := by
  induction late generalizing machine with
  | nil => exact progress
  | cons event rest ih =>
    rw [List.forall_mem_cons] at fair
    exact ih (progress.react fair.1) fair.2

/-- A command that the controller has not carried out is lost when it is stopped. -/
theorem Progress.stop (progress : Progress faulty start machine) (fault : faulty) :
    Rests faulty start { machine with issued := 0, active := 0 } := by
  cases progress with
  | through issued active recorded => exact ⟨rfl, rfl, recorded⟩
  | waits call before issued active decoded history recorded =>
    refine ⟨rfl, rfl, ?_⟩
    have lost := recorded.next (.transfer call
      (.failed (fun index => machine.medium.ram (call.data.toNat + index)) 0)) fault
    rw [Medium.apply, Medium.perform_failed] at lost
    dsimp only
    rw [history]
    exact lost

/-- What the handler's writes do to the controller. -/
theorem receive_interruptWrites (machine : AhciMachine) (reads : InterruptReads) :
    (AHCIState.interruptWrites reads).foldl receive machine =
      if reads.isError then { machine with issued := 0, active := 0 } else machine := by
  rw [AHCIState.interruptWrites, List.foldl_append]
  have cleared : [(AhciRegister.portInterruptStatus, BitVec.allOnes 32),
      (.driveInterruptStatus, BitVec.allOnes 32)].foldl receive machine = machine := rfl
  rw [cleared]
  split
  · have stopped : (reads.commandAndStatus &&& ~~~AHCIState.startMask).getLsbD 0 = false := by
      rw [BitVec.getLsbD_and, BitVec.getLsbD_not, AHCIState.startMask]
      exact Bool.and_false _
    have started : (reads.restart ||| AHCIState.startMask).getLsbD 0 = true := by
      rw [BitVec.getLsbD_or, AHCIState.startMask]
      exact Bool.or_true _
    simp only [List.foldl_cons, List.foldl_nil, receive, stopped, started, if_true, Bool.false_eq_true, if_false]
  · rfl

/-- The machine after an interrupt: the handler has run, and an error has stopped the controller. -/
theorem step_interrupt (codes : IOErrorCodes) (machine : AhciMachine) (reads : InterruptReads)
    (late : List DeviceEvent) : machine.step codes (.interrupt reads late) =
      some (
        let later := late.foldl react { machine with
          call := machine.call.step codes (.interrupt { reads with ncqActive := machine.active }) }
        if reads.isError then { later with issued := 0, active := 0 } else later) := by
  have writes := machine.call.ahci.writes_handleInterrupt codes { reads with ncqActive := machine.active }
  have same : ({ reads with ncqActive := machine.active } : InterruptReads).isError = reads.isError := rfl
  rw [step, withCall, ReadOrWrite.step, writes, List.drop_left, receive_interruptWrites, same]

/-- Between calls, or one call with its command pending or acknowledged. -/
inductive Serves (codes : IOErrorCodes) (faulty : Prop) (start : Medium) (machine : AhciMachine) : Prop where
  | idle (status : machine.call.status ≠ .polling) (free : ∀ slot, machine.call.ahci.slotStatus slot = none)
      (rests : Rests faulty start machine)
  | pending (waiting : machine.call.Waiting codes)
      (sole : machine.call.ahci.Pointed fun slot word => slot = 0 ∧ word = machine.call.r)
      (progress : Progress faulty start machine)
  | answered (status : BitVec 32) (known : status ≠ codes.tryAgain) (polls : machine.call.status = .polling)
      (finished : AHCIState.Finished machine.call.r status machine.call.ahci)
      (sole : machine.call.ahci.Pointed fun slot word => slot = 0 ∧ word = machine.call.r)
      (rests : Rests faulty start machine)

/-- A transfer is admitted, and faults come only where there are any. -/
def Fair (faulty : Prop) : MachineEvent → Prop
  | .transfer _ call => call.Admitted
  | .store _ _ | .poll => True
  | .device event => FairDevice faulty event
  | .interrupt reads late => (reads.isError = true → faulty) ∧ ∀ event ∈ late, FairDevice faulty event

theorem Serves.poll (serves : Serves codes faulty start machine) :
    Serves codes faulty start { machine with call := machine.call.step codes .poll } := by
  cases serves with
  | idle status free rests =>
    have same : machine.call.step codes .poll = machine.call := by
      rw [ReadOrWrite.step]
      split
      · exact absurd ‹_› status
      · rfl
    rw [same]
    exact .idle status free rests
  | pending waiting sole progress =>
    have same : machine.call.step codes .poll = machine.call := by
      simp only [ReadOrWrite.step, waiting.status, waiting.pending.word, if_true]
    rw [same]
    exact .pending waiting sole progress
  | answered status known polls finished sole rests =>
    have returns : machine.call.step codes .poll =
        { machine.call with ahci := machine.call.ahci.clearStatus 0, status := .returned (.ok ()) } := by
      simp only [ReadOrWrite.step, polls, finished.word, if_neg known]
    rw [returns]
    refine .idle (fun polling => by cases polling) (fun slot => ?_) ⟨rests.issued, rests.active, rests.recorded⟩
    refine (Function.update_apply ..).trans ?_
    split
    · rfl
    · rename_i other
      refine Option.eq_none_iff_forall_ne_some.mpr fun word points => other (sole slot word points).1

theorem Serves.device (serves : Serves codes faulty start machine) {event : DeviceEvent}
    (fair : FairDevice faulty event) : Serves codes faulty start (machine.react event) := by
  cases serves with
  | idle status free rests =>
    rw [react_of_unissued rests.issued]
    exact .idle status free rests
  | pending waiting sole progress =>
    have same := machine.call_react event
    exact .pending (same ▸ waiting) (same.symm ▸ sole) (progress.react fair)
  | answered status known polls finished sole rests =>
    rw [react_of_unissued rests.issued]
    exact .answered status known polls finished sole rests

theorem Rests.stop (rests : Rests faulty start machine) (error : Bool) :
    Rests faulty start (if error then { machine with issued := 0, active := 0 } else machine) := by
  cases error with
  | false => exact rests
  | true => exact ⟨rfl, rfl, rests.recorded⟩

theorem call_stop (machine : AhciMachine) (error : Bool) :
    (if error then { machine with issued := 0, active := 0 } else machine).call = machine.call := by
  cases error <;> rfl

/-- An interrupt acknowledges the command if the controller is through with it or an error is reported,
and then the controller has nothing left to do. -/
theorem Serves.interrupt (serves : Serves codes faulty start machine) {reads : InterruptReads}
    {late : List DeviceEvent} (fair : Fair faulty (.interrupt reads late)) (success : codes.tryAgain ≠ 0)
    (failure : codes.tryAgain ≠ codes.deviceError)
    (taken : machine.step codes (.interrupt reads late) = some after) : Serves codes faulty start after := by
  obtain ⟨reported, slow⟩ := fair
  rw [step_interrupt] at taken
  cases Option.some.inj taken
  have handled : machine.call.step codes (.interrupt { reads with ncqActive := machine.active }) =
      { machine.call with
        ahci := machine.call.ahci.handleInterrupt codes { reads with ncqActive := machine.active } } := rfl
  dsimp only
  cases serves with
  | idle status free rests =>
    have still : Rests faulty start { machine with
        call := machine.call.step codes (.interrupt { reads with ncqActive := machine.active }) } :=
      ⟨rests.issued, rests.active, rests.recorded⟩
    rw [reacts_of_unissued still.issued]
    have none : machine.call.ahci.Pointed fun _ _ => False := fun slot word points => by
      rw [free slot] at points
      cases points
    refine .idle ?_ (fun slot => ?_) (still.stop _)
    · rw [call_stop]
      exact status
    · rw [call_stop]
      exact Option.eq_none_iff_forall_ne_some.mpr fun word => none.handleInterrupt codes _ slot word
  | answered status known polls finished sole rests =>
    have still : Rests faulty start { machine with
        call := machine.call.step codes (.interrupt { reads with ncqActive := machine.active }) } :=
      ⟨rests.issued, rests.active, rests.recorded⟩
    rw [reacts_of_unissued still.issued]
    refine .answered status known ?_ ?_ ?_ (still.stop _)
    · rw [call_stop]
      exact polls
    · rw [call_stop]
      exact finished.handleInterrupt codes _
    · rw [call_stop]
      exact sole.handleInterrupt codes _
  | pending waiting sole progress =>
    have alone := sole.handleInterrupt codes { reads with ncqActive := machine.active }
    have same : Progress faulty start { machine with
        call := machine.call.step codes (.interrupt { reads with ncqActive := machine.active }) } := by
      cases progress with
      | waits call before issued active decoded history recorded =>
        exact .waits call before issued active decoded history recorded
      | through issued active recorded => exact .through issued active recorded
    have later := same.reacts slow
    rcases waiting.pending.handleInterrupt codes { reads with ncqActive := machine.active } with
      ⟨inactive, finished⟩ | ⟨_, error, finished⟩ | ⟨fine, waits⟩
    · -- The command's bit is clear, so the controller has carried it out.
      have rests : Rests faulty start { machine with
          call := machine.call.step codes (.interrupt { reads with ncqActive := machine.active }) } := by
        cases progress with
        | waits call before issued active decoded history recorded =>
          dsimp only at inactive
          rw [active] at inactive
          exact absurd inactive (by decide)
        | through issued active recorded =>
          rcases active with clear | ⟨set, _⟩
          · exact ⟨issued, clear, recorded⟩
          · dsimp only at inactive
            rw [set] at inactive
            exact absurd inactive (by decide)
      rw [reacts_of_unissued rests.issued]
      refine .answered 0 success.symm ?_ ?_ ?_ (rests.stop _)
      · rw [call_stop]
        exact waiting.status
      · rw [call_stop]
        exact finished
      · rw [call_stop]
        exact alone
    · -- The error fails the command, and the controller is stopped.
      have failed : reads.isError = true := error
      have stopped := later.stop (reported failed)
      rw [if_pos failed]
      refine .answered codes.deviceError failure.symm ?_ ?_ ?_ stopped
      · rw [call_reacts]
        exact waiting.status
      · rw [call_reacts]
        exact finished
      · rw [call_reacts]
        exact alone
    · have quiet : reads.isError = false := fine
      rw [if_neg (Bool.not_eq_true _ ▸ quiet)]
      refine .pending ?_ ?_ later
      · rw [call_reacts]
        exact ⟨waits, waiting.status⟩
      · rw [call_reacts]
        exact alone

theorem Serves.store (serves : Serves codes faulty start machine) {address : Nat} {value : Byte}
    (taken : machine.step codes (.store address value) = some after) : Serves codes faulty start after := by
  rw [step] at taken
  split at taken
  · cases taken
  · rename_i free
    cases Option.some.inj taken
    cases serves with
    | idle status pointers rests =>
      exact .idle status pointers ⟨rests.issued, rests.active, rests.recorded.next (.store address value) trivial⟩
    | pending waiting sole progress => exact absurd waiting.status free
    | answered status known polls finished sole rests => exact absurd polls free

/-- The command of a call, in the controller's hands. -/
theorem issue_eq {r : StatusWord} {call : DiskTransfer} (taken : machine.issue codes r call = some after) :
    ∃ laid, machine.dma.request 0 call.command call.data call.size (call.offset / DmaState.sectorSize) true 0 =
        .ok laid ∧
      after = { machine with
        call := ({ machine.call with r, status := .notIssued } : ReadOrWrite).step codes .issue
        dma := laid
        issued := machine.issued ||| 1
        active := machine.active ||| 1
        history := machine.history ++ [.transfer call] } := by
  rw [issue] at taken
  cases requested : machine.dma.request ReadOrWrite.slot call.command call.data call.size
      (call.offset / DmaState.sectorSize) true 0 with
  | error fault =>
    rw [requested] at taken
    cases taken
  | ok laid =>
    rw [requested] at taken
    have writes : (({ machine.call with r, status := .notIssued } : ReadOrWrite).step codes .issue).ahci.writes =
        machine.call.ahci.writes ++ [(.ncqActive, 1), (.commandMask, 1)] := by
      rw [ReadOrWrite.step]
      exact List.append_assoc ..
    refine ⟨laid, requested, (Option.some.inj taken).symm.trans ?_⟩
    dsimp only
    rw [withCall, writes, List.drop_left]
    rfl

/-- The command is in the first slot, as it was asked for. -/
theorem Serves.transfer (serves : Serves codes faulty start machine) {r : StatusWord} {call : DiskTransfer}
    (admitted : call.Admitted) (taken : machine.step codes (.transfer r call) = some after) :
    Serves codes faulty start after := by
  rw [step] at taken
  split at taken
  · cases taken
  rename_i free
  obtain ⟨laid, requested, rfl⟩ := issue_eq taken
  cases serves with
  | pending waiting sole progress => exact absurd waiting.status free
  | answered status known polls finished sole rests => exact absurd polls free
  | idle status pointers rests =>
    have unissued : ReadOrWrite.Unissued { machine.call with r, status := .notIssued } :=
      ⟨fun slot points => Option.some_ne_none r (points.symm.trans (pointers slot)), rfl⟩
    refine .pending (unissued.issue codes) ?_ (.waits call machine.history ?_ ?_ ?_ rfl rests.recorded)
    · intro slot word points
      have there := (Function.update_apply machine.call.ahci.slotStatus (0 : Slot) (some r) slot).symm.trans points
      split at there
      · exact ⟨‹_›, (Option.some.inj there).symm⟩
      · rw [pointers slot] at there
        cases there
    · exact (congrArg (· ||| 1#32) rests.issued).trans (by decide)
    · exact (congrArg (· ||| 1#32) rests.active).trans (by decide)
    · exact decode_laid admitted requested

theorem Serves.step (serves : Serves codes faulty start machine) {event : MachineEvent}
    (fair : Fair faulty event) (success : codes.tryAgain ≠ 0) (failure : codes.tryAgain ≠ codes.deviceError)
    (taken : machine.step codes event = some after) : Serves codes faulty start after := by
  cases event with
  | transfer r call => exact serves.transfer fair taken
  | store address value => exact serves.store taken
  | poll => exact Option.some.inj taken ▸ serves.poll
  | device event => exact Option.some.inj taken ▸ serves.device fair
  | interrupt reads late => exact serves.interrupt fair success failure taken

end AhciMachine

end WalnutOs.Klib
