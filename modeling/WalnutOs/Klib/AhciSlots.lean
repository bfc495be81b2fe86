import WalnutOs.Klib.Ahci
import WalnutOs.Lib.Run
import Mathlib.Algebra.Group.Nat.Defs
import Mathlib.Data.Fintype.Card

/-! What the slot mask and the count of free slots say about the commands that
have not been acknowledged. -/

namespace WalnutOs.Klib

open WalnutOs.Lib

namespace AHCIState

/-- Of the latest commands of the slots: a bit is set exactly for one that is not acknowledged,
the free slots are the others of the `n`, and none is acknowledged twice. -/
structure LatestAccounted (n : Nat) (state : AHCIState) : Prop where
  mask : ∀ slot, state.outstanding slot = true ↔ state.Unacknowledged slot
  count : state.numSlotsAvailable.toNat + (Bits.ones state.slotsOutstandingMask).card = n
  once : ∀ slot acks, state.commands slot = some acks → acks.length ≤ 1

/-- Commands were issued on the first `n` slots only. -/
def Within (n : Nat) (state : AHCIState) : Prop :=
  ∀ slot, state.commands slot ≠ none → slot.val < n

section Steps

variable {n : Nat} {state : AHCIState} {slot : Slot}

theorem Unacknowledged.acknowledge (pending : state.Unacknowledged slot) (result : BitVec 32) :
    (state.acknowledge slot result).commands = Function.update state.commands slot (some [result]) := by
  rw [commands_acknowledge, pending]
  rfl

theorem unacknowledged_acknowledge_of_ne {other : Slot} (different : other ≠ slot) (result : BitVec 32) :
    (state.acknowledge slot result).Unacknowledged other ↔ state.Unacknowledged other := by
  rw [Unacknowledged, commands_acknowledge, Function.update_of_ne different, Unacknowledged]

theorem LatestAccounted.acknowledge (accounted : LatestAccounted n state) (small : n ≤ 32)
    (pending : state.Unacknowledged slot) (result : BitVec 32) :
    LatestAccounted n (state.acknowledge slot result) := by
  have set := (accounted.mask slot).mpr pending
  have inside := outstanding_lt set
  have commands := pending.acknowledge result
  refine ⟨fun other => ?_, ?_, fun other acks => ?_⟩
  · by_cases same : other = slot
    · subst same
      simp [Unacknowledged, outstanding_acknowledge inside, set]
    · rw [unacknowledged_acknowledge_of_ne same, ← accounted.mask other]
      by_cases low : other.val < 16
      · simp [outstanding_acknowledge low, same]
      · exact iff_of_false (fun high => low (outstanding_lt high)) (fun high => low (outstanding_lt high))
  · have member : (⟨slot.val, inside⟩ : Fin 16) ∈ Bits.ones state.slotsOutstandingMask :=
      Bits.mem_ones.mpr set
    have fields : (state.acknowledge slot result).numSlotsAvailable = state.numSlotsAvailable + 1 ∧
        (state.acknowledge slot result).slotsOutstandingMask =
          state.slotsOutstandingMask ^^^ 1#16 <<< slot.val := by
      unfold AHCIState.acknowledge
      split <;> exact ⟨rfl, rfl⟩
    have erased := Bits.ones_toggle ⟨slot.val, inside⟩ set
    have one := Finset.card_pos.mpr ⟨_, member⟩
    have count := accounted.count
    have unit : (1 : BitVec 16).toNat = 1 := rfl
    rw [fields.1, fields.2, erased, Finset.card_erase_of_mem member, BitVec.toNat_add, unit]
    omega
  · rw [commands]
    by_cases same : other = slot
    · subst same
      rw [Function.update_self]
      rintro ⟨⟩
      exact Nat.le_refl 1
    · rw [Function.update_of_ne same]
      exact accounted.once other acks

theorem Within.acknowledge (within : Within n state) (slot : Slot) (result : BitVec 32) :
    Within n (state.acknowledge slot result) := by
  intro other
  rw [commands_acknowledge, Function.update_apply]
  split
  · rename_i same
    subst same
    simpa using within other
  · exact within other

/-- With a slot free among the first `n`, there is one to count. -/
theorem LatestAccounted.room (accounted : LatestAccounted n state) (within : Within n state)
    (below : slot.val < n) (free : ¬ state.Unacknowledged slot) :
    (Bits.ones state.slotsOutstandingMask).card < n := by
  have others : (Bits.ones state.slotsOutstandingMask).image Fin.val ⊆
      (Finset.range n).erase slot.val := by
    intro place member
    obtain ⟨bit, set, rfl⟩ := Finset.mem_image.mp member
    have pending := (accounted.mask (bit.castLE (by decide))).mp (Bits.mem_ones.mp set)
    have issued : state.commands (bit.castLE (by decide)) ≠ none := by
      rw [pending]
      exact Option.some_ne_none _
    refine Finset.mem_erase.mpr ⟨fun same => free ?_, Finset.mem_range.mpr (within _ issued)⟩
    rwa [show slot = bit.castLE (by decide) from Fin.ext same.symm]
  have count := Finset.card_le_card others
  rw [Finset.card_image_of_injective _ Fin.val_injective,
    Finset.card_erase_of_mem (Finset.mem_range.mpr below), Finset.card_range] at count
  omega

/-- The mask has room for the bit exactly if the slot is one of the first 16. -/
theorem LatestAccounted.issue_iff (accounted : LatestAccounted n state) (within : Within n state)
    (small : n ≤ 32) (below : slot.val < n) (free : ¬ state.Unacknowledged slot) :
    LatestAccounted n (state.issue slot) ↔ slot.val < 16 := by
  constructor
  · intro after
    exact outstanding_lt ((after.mask slot).mpr (Function.update_self ..))
  · intro inside
    have unset : (⟨slot.val, inside⟩ : Fin 16) ∉ Bits.ones state.slotsOutstandingMask := by
      rw [Bits.mem_ones]
      exact fun set => free ((accounted.mask slot).mp set)
    refine ⟨fun other => ?_, ?_, fun other acks => ?_⟩
    · simp only [Unacknowledged, issue, Function.update_apply]
      by_cases same : other = slot
      · subst same
        simp [outstanding, Bits.getLsbD_set inside]
      · rw [if_neg same, ← Unacknowledged, ← accounted.mask other]
        by_cases low : other.val < 16
        · simp [outstanding, Bits.getLsbD_set low, Fin.val_ne_of_ne same]
        · exact iff_of_false (fun high => low (outstanding_lt high))
            (fun high => low (outstanding_lt high))
    · have room := accounted.room within below free
      have count := accounted.count
      have inserted := Bits.ones_set state.slotsOutstandingMask ⟨slot.val, inside⟩
      simp only [issue]
      have unit : (1 : BitVec 16).toNat = 1 := rfl
      rw [inserted, Finset.card_insert_of_notMem unset, BitVec.toNat_sub, unit]
      omega
    · simp only [issue, Function.update_apply]
      split
      · rintro ⟨⟩
        exact Nat.zero_le 1
      · exact accounted.once other acks

end Steps

section Interrupts

variable {state : AHCIState} {kept : AHCIState → Prop}

/-- What acknowledging a pending command keeps, the loop over `acks` keeps. -/
theorem ackSlots_invariant (keep : ∀ state slot result, kept state → state.Unacknowledged slot →
      kept (state.acknowledge slot result)) {acks : BitVec 32} {slots : List Slot}
    (distinct : slots.Nodup)
    (pending : ∀ slot ∈ slots, acks.getLsbD slot = true → state.Unacknowledged slot)
    (valid : kept state) : kept (state.ackSlots acks slots) := by
  induction slots generalizing state with
  | nil => exact valid
  | cons first rest ih =>
    obtain ⟨apart, distinct⟩ := List.nodup_cons.mp distinct
    have later := fun slot member => pending slot (List.mem_cons_of_mem first member)
    rw [ackSlots, List.foldl_cons, ackSlot]
    split
    · rename_i named
      refine ih distinct (fun slot member bit => ?_)
        (keep state first 0 valid (pending first List.mem_cons_self named))
      have different : slot ≠ first := fun same => apart (same ▸ member)
      exact (unacknowledged_acknowledge_of_ne different 0).mpr (later slot member bit)
    · exact ih distinct later valid

theorem failSlots_invariant (keep : ∀ state slot result, kept state → state.Unacknowledged slot →
      kept (state.acknowledge slot result))
    (mask : ∀ state slot, kept state → state.outstanding slot = true → state.Unacknowledged slot)
    (codes : IOErrorCodes) (slots : List Slot) (valid : kept state) :
    kept (state.failSlots codes slots) := by
  induction slots generalizing state with
  | nil => exact valid
  | cons first rest ih =>
    rw [failSlots, List.foldl_cons, failSlot]
    split
    · rename_i set
      exact ih (keep state first _ valid (mask state first valid set))
    · exact ih valid

/-- An invariant of which the mask is part is kept by the interrupt handler. -/
theorem handleInterrupt_invariant (codes : IOErrorCodes) (reads : InterruptReads)
    (keep : ∀ state slot result, kept state → state.Unacknowledged slot →
      kept (state.acknowledge slot result))
    (mask : ∀ state slot, kept state → state.outstanding slot = true → state.Unacknowledged slot)
    (registers : ∀ (state : AHCIState) register value, kept state → kept (state.write register value))
    (valid : kept state) : kept (state.handleInterrupt codes reads) := by
  have cleared := registers _ .driveInterruptStatus (BitVec.allOnes 32)
    (registers _ .portInterruptStatus (BitVec.allOnes 32) valid)
  unfold handleInterrupt
  simp only
  generalize (state.write .portInterruptStatus (BitVec.allOnes 32)).write .driveInterruptStatus
    (BitVec.allOnes 32) = ready at cleared
  have pending : ∀ slot ∈ List.finRange 32, (ready.acks reads).getLsbD slot = true →
      ready.Unacknowledged slot := by
    intro slot _ named
    rw [getLsbD_acks, Bool.and_eq_true] at named
    exact mask ready slot cleared named.1
  have acked := ackSlots_invariant keep (List.nodup_finRange 32) pending cleared
  split
  · exact registers _ _ _ (registers _ _ _ (registers _ _ _
      (failSlots_invariant keep mask codes _ acked)))
  · exact acked

end Interrupts

end AHCIState

/-- A command that was issued: whether `await_basic` still has to come for it, and how often it
has been acknowledged. -/
structure SlotCommand where
  awaits : Bool
  acks : Nat
  deriving DecidableEq

def SlotCommand.acknowledged (command : SlotCommand) (times : Nat) : SlotCommand :=
  { command with acks := command.acks + times }

/-- `age` counts the commands that were issued on the slot after the one awaited. -/
inductive SlotEvent where
  | issueNcq (slot : Slot)
  | issueMeta (slot : Slot)
  | awaitBasic (slot : Slot) (age : Nat)
  | interrupt (reads : InterruptReads)

/-- The driver with every command that was issued on each slot, the latest first. -/
structure SlotRun where
  ahci : AHCIState
  history : Slot → List SlotCommand

/-- How often the slot's latest command has been acknowledged. -/
def AHCIState.acksOn (state : AHCIState) (slot : Slot) : Nat := ((state.commands slot).getD []).length

namespace SlotRun

open AHCIState

/-- No command is outstanding and `n` slots are available. -/
def start (n : Nat) (slotStatus : Slot → Option StatusWord) (words : StatusWord → BitVec 32) :
    SlotRun :=
  ⟨⟨BitVec.ofNat 16 n, 0, slotStatus, words, [], fun _ => none⟩, fun _ => []⟩

/-- A new command is the slot's latest. -/
def issued (run : SlotRun) (slot : Slot) (awaits : Bool) : Slot → List SlotCommand :=
  Function.update run.history slot (⟨awaits, 0⟩ :: run.history slot)

/-- `await_basic` acknowledges the command that it was called for, the interrupt handler the latest
one of each slot that it acknowledges. -/
def step (codes : IOErrorCodes) (run : SlotRun) : SlotEvent → SlotRun
  | .issueNcq slot => ⟨run.ahci.issueNcq slot, run.issued slot false⟩
  | .issueMeta slot => ⟨run.ahci.issueMeta slot, run.issued slot true⟩
  | .awaitBasic slot age => ⟨run.ahci.awaitBasic slot, Function.update run.history slot
      ((run.history slot).modify age fun command => ⟨false, command.acks + 1⟩)⟩
  | .interrupt reads =>
    let ahci := run.ahci.handleInterrupt codes reads
    ⟨ahci, fun slot => (run.history slot).modifyHead
      (·.acknowledged (ahci.acksOn slot - run.ahci.acksOn slot))⟩

/-- Commands are issued on a slot below `n` that has no unacknowledged command,
and each meta command is awaited once. -/
def Admitted (n : Nat) (run : SlotRun) : SlotEvent → Prop
  | .issueNcq slot | .issueMeta slot => slot.val < n ∧ ∀ command ∈ run.history slot, command.acks ≠ 0
  | .awaitBasic slot age => ∃ command ∈ (run.history slot)[age]?, command.awaits = true
  | .interrupt _ => True

/-- The slot has a bit in the 16-bit mask, and a command that is awaited has not
been acknowledged by an interrupt before. -/
def Fits (run : SlotRun) : SlotEvent → Prop
  | .issueNcq slot | .issueMeta slot => slot.val < 16
  | .awaitBasic slot age => ∀ command ∈ (run.history slot)[age]?, command.acks = 0
  | .interrupt _ => True

instance (n : Nat) (run : SlotRun) (event : SlotEvent) : Decidable (run.Admitted n event) := by
  cases event <;> unfold Admitted <;> infer_instance

instance (run : SlotRun) (event : SlotEvent) : Decidable (run.Fits event) := by
  cases event <;> unfold Fits <;> infer_instance

/-- A bit is set exactly for a slot on which some command is not acknowledged, the free slots
are the others of the `n`, and no command is acknowledged twice. -/
structure Accounted (n : Nat) (run : SlotRun) : Prop where
  mask : ∀ slot, run.ahci.outstanding slot = true ↔ ∃ command ∈ run.history slot, command.acks = 0
  count : run.ahci.numSlotsAvailable.toNat + (Bits.ones run.ahci.slotsOutstandingMask).card = n
  once : ∀ slot, ∀ command ∈ run.history slot, command.acks ≤ 1

/-- The slots are accounted for after the event. -/
def StaysAccounted (codes : IOErrorCodes) (n : Nat) (run : SlotRun) (event : SlotEvent) : Prop :=
  Accounted n (run.step codes event)

/-- The first command of a slot's history is the latest, with these acknowledgements, and the
earlier ones have been acknowledged once. -/
def Traced : Option (List (BitVec 32)) → List SlotCommand → Prop
  | none, history => history = []
  | some acks, history => ∃ latest earlier, history = latest :: earlier ∧ latest.acks = acks.length ∧
      ∀ command ∈ earlier, command.acks = 1

/-- The latest commands are accounted for and were issued on the first `n` slots, and so are the
histories. -/
structure Kept (n : Nat) (run : SlotRun) : Prop where
  latest : LatestAccounted n run.ahci
  within : Within n run.ahci
  traced : ∀ slot, Traced (run.ahci.commands slot) (run.history slot)

section Traces

variable {slot : Slot} {history : List SlotCommand} {state before : AHCIState}

/-- The latest command is the only one that may not be acknowledged yet. -/
theorem Traced.unacknowledged_iff (traced : Traced (state.commands slot) history) :
    state.Unacknowledged slot ↔ ∃ command ∈ history, command.acks = 0 := by
  unfold Unacknowledged
  cases issued : state.commands slot with
  | none =>
    rw [issued] at traced
    obtain rfl : history = [] := traced
    simp
  | some acks =>
    rw [issued] at traced
    obtain ⟨latest, earlier, rfl, same, once⟩ := traced
    have acked : ¬ ∃ command ∈ earlier, command.acks = 0 := by
      rintro ⟨command, member, none⟩
      exact Nat.one_ne_zero ((once command member).symm.trans none)
    simp [acked, same]

theorem Traced.once (traced : Traced (state.commands slot) history)
    (latest : ∀ acks, state.commands slot = some acks → acks.length ≤ 1) :
    ∀ command ∈ history, command.acks ≤ 1 := by
  cases issued : state.commands slot with
  | none =>
    rw [issued] at traced
    obtain rfl : history = [] := traced
    simp
  | some acks =>
    rw [issued] at traced
    obtain ⟨first, earlier, rfl, same, once⟩ := traced
    intro command member
    rcases List.mem_cons.mp member with rfl | member
    · exact same ▸ latest acks issued
    · exact Nat.le_of_eq (once command member)

/-- A new command goes before others that are all acknowledged once. -/
theorem Traced.issue (awaits : Bool) (acked : ∀ command ∈ history, command.acks ≠ 0)
    (once : ∀ command ∈ history, command.acks ≤ 1) : Traced (some []) (⟨awaits, 0⟩ :: history) := by
  refine ⟨_, _, rfl, rfl, fun command member => ?_⟩
  have one := once command member
  have some := acked command member
  omega

/-- A command that is found without an acknowledgement is the latest, and it is acknowledged. -/
theorem Traced.await (traced : Traced (state.commands slot) history) {age : Nat} {command : SlotCommand}
    (found : history[age]? = some command) (pending : command.acks = 0) (result : BitVec 32) :
    state.Unacknowledged slot ∧
      Traced (some [result]) (history.modify age fun command => ⟨false, command.acks + 1⟩) := by
  have unacknowledged := traced.unacknowledged_iff.mpr ⟨command, List.mem_of_getElem? found, pending⟩
  refine ⟨unacknowledged, ?_⟩
  rw [show state.commands slot = some [] from unacknowledged] at traced
  obtain ⟨latest, earlier, rfl, none, once⟩ := traced
  cases age with
  | zero => exact ⟨_, _, rfl, congrArg Nat.succ none, once⟩
  | succ age =>
    have member := List.mem_of_getElem? (List.getElem?_cons_succ .. ▸ found)
    exact absurd (pending.symm.trans (once command member)) Nat.zero_ne_one

/-- On every slot the latest command is as before, or it had no acknowledgement and has got one. -/
def Handled (before state : AHCIState) : Prop :=
  ∀ slot, state.commands slot = before.commands slot ∨
    before.commands slot = some [] ∧ ∃ result, state.commands slot = some [result]

theorem Handled.acknowledge (handled : Handled before state) (pending : state.Unacknowledged slot)
    (result : BitVec 32) : Handled before (state.acknowledge slot result) := by
  intro other
  rw [pending.acknowledge]
  by_cases same : other = slot
  · subst same
    rw [Function.update_self]
    rcases handled other with kept | ⟨-, acked, once⟩
    · exact .inr ⟨kept.symm.trans pending, result, rfl⟩
    · exact absurd (once.symm.trans pending) (by simp)
  · rw [Function.update_of_ne same]
    exact handled other

/-- What holds all along the interrupt handler. -/
structure Handling (n : Nat) (before state : AHCIState) : Prop where
  latest : LatestAccounted n state
  within : Within n state
  handled : Handled before state

theorem Handling.acknowledge {n : Nat} (small : n ≤ 32) (valid : Handling n before state)
    (pending : state.Unacknowledged slot) (result : BitVec 32) :
    Handling n before (state.acknowledge slot result) where
  latest := valid.latest.acknowledge small pending result
  within := Within.acknowledge valid.within slot result
  handled := valid.handled.acknowledge pending result

/-- The handler's acknowledgement counts for the slot's latest command. -/
theorem Handled.traced (handled : Handled before state)
    (traced : Traced (before.commands slot) history) : Traced (state.commands slot)
      (history.modifyHead (·.acknowledged (state.acksOn slot - before.acksOn slot))) := by
  rcases handled slot with same | ⟨pending, result, acked⟩
  · have nothing : history.modifyHead (·.acknowledged 0) = history := by
      cases history <;> rfl
    rwa [acksOn, acksOn, same, Nat.sub_self, nothing]
  · rw [acksOn, acksOn, acked, pending]
    rw [pending] at traced
    obtain ⟨latest, earlier, rfl, none, once⟩ := traced
    exact ⟨_, _, rfl, by simp [SlotCommand.acknowledged, none], once⟩

end Traces

section Steps

variable {n : Nat} {slot : Slot} {run : SlotRun} {codes : IOErrorCodes}

theorem Kept.start (small : n ≤ 32) (slotStatus : Slot → Option StatusWord)
    (words : StatusWord → BitVec 32) : Kept n (start n slotStatus words) := by
  refine ⟨⟨fun slot => ?_, ?_, fun slot acks issued => ?_⟩, fun slot issued => ?_, fun slot => rfl⟩
  · simp [outstanding, Unacknowledged, SlotRun.start]
  · have none : Bits.ones (0 : BitVec 16) = ∅ := by decide
    simp only [SlotRun.start, none, Finset.card_empty, BitVec.toNat_ofNat]
    omega
  · cases issued
  · exact absurd rfl issued

theorem Kept.accounted (kept : Kept n run) : Accounted n run where
  mask := fun slot => (kept.latest.mask slot).trans (kept.traced slot).unacknowledged_iff
  count := kept.latest.count
  once := fun slot => (kept.traced slot).once (kept.latest.once slot)

/-- What both ways to issue a command do to the slots. -/
theorem Kept.issue (kept : Kept n run) (small : n ≤ 32) (below : slot.val < n)
    (free : ∀ command ∈ run.history slot, command.acks ≠ 0) (inside : slot.val < 16) (awaits : Bool)
    {ready : AHCIState} (commands : ready.commands = run.ahci.commands)
    (latest : LatestAccounted n ready) : Kept n ⟨ready.issue slot, run.issued slot awaits⟩ := by
  have within : Within n ready := fun other => by
    rw [commands]
    exact kept.within other
  have acked : ¬ ready.Unacknowledged slot := by
    rw [Unacknowledged, commands]
    intro pending
    obtain ⟨command, member, none⟩ := (kept.traced slot).unacknowledged_iff.mp pending
    exact free command member none
  refine ⟨(latest.issue_iff within small below acked).mpr inside, ?_, ?_⟩
  · intro other
    simp only [AHCIState.issue, Function.update_apply]
    split
    · rename_i same
      exact fun _ => same ▸ below
    · exact within other
  · intro other
    simp only [AHCIState.issue, issued, commands]
    by_cases same : other = slot
    · subst same
      rw [Function.update_self, Function.update_self]
      exact .issue awaits free (kept.accounted.once other)
    · rw [Function.update_of_ne same, Function.update_of_ne same]
      exact kept.traced other

/-- A new command is on its slot's history without an acknowledgement. -/
theorem Accounted.of_issue {ready : AHCIState} {awaits : Bool}
    (after : Accounted n ⟨ready.issue slot, run.issued slot awaits⟩) : slot.val < 16 :=
  outstanding_lt ((after.mask slot).mpr ⟨⟨awaits, 0⟩, by simp [issued], rfl⟩)

theorem Kept.awaitBasic (kept : Kept n run) (small : n ≤ 32) {age : Nat} {command : SlotCommand}
    (found : (run.history slot)[age]? = some command) (pending : command.acks = 0) :
    Kept n (run.step codes (.awaitBasic slot age)) := by
  obtain ⟨unacknowledged, traced⟩ := (kept.traced slot).await found pending 0
  refine ⟨kept.latest.acknowledge small unacknowledged 0, Within.acknowledge kept.within slot 0, ?_⟩
  intro other
  simp only [SlotRun.step, AHCIState.awaitBasic, unacknowledged.acknowledge]
  by_cases same : other = slot
  · subst same
    rwa [Function.update_self, Function.update_self]
  · rw [Function.update_of_ne same, Function.update_of_ne same]
    exact kept.traced other

theorem Kept.interrupt (kept : Kept n run) (small : n ≤ 32) (reads : InterruptReads) :
    Kept n (run.step codes (.interrupt reads)) := by
  have handling : Handling n run.ahci (run.ahci.handleInterrupt codes reads) :=
    handleInterrupt_invariant codes reads
      (fun state slot result valid pending => Handling.acknowledge small valid pending result)
      (fun state slot valid => (valid.latest.mask slot).mp)
      (fun state register value valid =>
        ⟨⟨valid.latest.mask, valid.latest.count, valid.latest.once⟩, valid.within, valid.handled⟩)
      ⟨kept.latest, kept.within, fun _ => .inl rfl⟩
  exact ⟨handling.latest, handling.within, fun slot => handling.handled.traced (kept.traced slot)⟩

theorem Kept.step (kept : Kept n run) (small : n ≤ 32) {event : SlotEvent}
    (admitted : run.Admitted n event) (fits : run.Fits event) : Kept n (run.step codes event) := by
  cases event with
  | issueNcq slot =>
    exact kept.issue small admitted.1 admitted.2 fits false rfl
      ⟨kept.latest.mask, kept.latest.count, kept.latest.once⟩
  | issueMeta slot => exact kept.issue small admitted.1 admitted.2 fits true rfl kept.latest
  | awaitBasic slot age =>
    obtain ⟨command, found, -⟩ := admitted
    exact kept.awaitBasic small found (fits command found)
  | interrupt reads => exact kept.interrupt small reads

theorem Kept.stays_iff (kept : Kept n run) (small : n ≤ 32) {event : SlotEvent}
    (admitted : run.Admitted n event) : StaysAccounted codes n run event ↔ run.Fits event := by
  refine ⟨fun after => ?_, fun fits => (kept.step small admitted fits).accounted⟩
  cases event with
  | issueNcq slot => exact Accounted.of_issue after
  | issueMeta slot => exact Accounted.of_issue after
  | awaitBasic slot age =>
    -- the command awaited has one acknowledgement more than before
    intro command found
    have member : (⟨false, command.acks + 1⟩ : SlotCommand) ∈
        (run.step codes (.awaitBasic slot age)).history slot := by
      simp only [SlotRun.step, Function.update_self]
      refine List.mem_of_getElem? (i := age) ?_
      simp [show (run.history slot)[age]? = some command from found]
    exact Nat.le_zero.mp (Nat.le_of_succ_le_succ (after.once slot _ member))
  | interrupt reads => trivial

end Steps

/-- Along a run the slots stay accounted for exactly when commands are issued on
the first 16 slots only and no interrupt acknowledges a command before its
`await_basic`. -/
theorem accounted_iff_fits (codes : IOErrorCodes) {n : Nat} (small : n ≤ 32)
    (slotStatus : Slot → Option StatusWord) (words : StatusWord → BitVec 32)
    {events : List SlotEvent}
    (admitted : EveryStep (step codes) (Admitted n) (start n slotStatus words) events) :
    (Accounted n (start n slotStatus words) ∧
        EveryStep (step codes) (StaysAccounted codes n) (start n slotStatus words) events) ↔
      EveryStep (step codes) Fits (start n slotStatus words) events := by
  have initial := Kept.start small slotStatus words
  have runs : EveryStep (step codes)
      (fun run event => Admitted n run event ∧ StaysAccounted codes n run event)
      (start n slotStatus words) events ↔
      EveryStep (step codes) (fun run event => Admitted n run event ∧ Fits run event)
      (start n slotStatus words) events := EveryStep.iff_of_invariant (Kept n)
    (fun _ _ kept guarded => Kept.step kept small guarded.1 guarded.2)
    (fun _ _ kept => and_congr_right fun admitted => Kept.stays_iff kept small admitted)
    initial events
  rw [EveryStep.and_iff, EveryStep.and_iff, and_iff_right admitted, and_iff_right admitted] at runs
  rw [and_iff_right initial.accounted]
  exact runs

/-- A meta command that is awaited undisturbed, and a command that an interrupt acknowledges. -/
theorem accounted_two : Accounted 2 (start 2 (fun _ => none) fun _ => 0) ∧
    EveryStep (step ⟨1, 2⟩) (StaysAccounted ⟨1, 2⟩ 2) (start 2 (fun _ => none) fun _ => 0)
      [.issueMeta 0, .awaitBasic 0 0, .issueNcq 1, .interrupt ⟨0, 0, 0, 0, 0⟩] :=
  (accounted_iff_fits ⟨1, 2⟩ (by decide) (fun _ => none) (fun _ => 0) (by decide)).mpr (by decide)

/-- A meta command never has its bit in `ncq_active`, so that any interrupt
acknowledges it, and `await_basic` does so again, also when its slot has a new command. -/
theorem awaited_command_acknowledged_twice : ¬ ∀ codes n slotStatus words events, n ≤ 32 →
    EveryStep (step codes) (Admitted n) (start n slotStatus words) events →
    EveryStep (step codes) (StaysAccounted codes n) (start n slotStatus words) events := by
  intro claim
  obtain ⟨-, -, -, accounted, -⟩ := claim ⟨1, 2⟩ 1 (fun _ => none) (fun _ => 0)
    [.issueMeta 0, .interrupt ⟨0, 0, 0, 0, 0⟩, .issueNcq 0, .awaitBasic 0 1] (by decide) (by decide)
  have twice := accounted.once 0 ⟨false, 2⟩ (by decide)
  exact absurd twice (by decide)

end SlotRun

end WalnutOs.Klib
