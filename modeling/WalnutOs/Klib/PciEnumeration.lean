import WalnutOs.Klib.Pci
import Mathlib.Data.List.Nodup

/-! The addresses that the loop of `AHCIState::find` takes from `PCIState::next_addr`. -/

namespace WalnutOs.Klib.Pci.BusSlotAddr

def first : BusSlotAddr := ⟨0, 0, 0⟩

/-- Function 0 is there and says that it is not the only one. -/
def MultiFunction (space : ConfigSpace) (bus slot : BitVec 8) : Prop :=
  lthbc space ⟨bus, slot, 0⟩ ≠ BitVec.allOnes 32 ∧ lthbc space ⟨bus, slot, 0⟩ &&& 0x800000 ≠ 0

def InRange (addr : BusSlotAddr) : Prop := addr.bus < 8 ∧ addr.slot < 32 ∧ addr.func < 8

/-- Function 0 of every slot, and every function of a multi-function device. -/
def Required (space : ConfigSpace) (addr : BusSlotAddr) : Prop :=
  addr.InRange ∧ (addr.func = 0 ∨ MultiFunction space addr.bus addr.slot)

instance (space : ConfigSpace) (bus slot : BitVec 8) : Decidable (MultiFunction space bus slot) :=
  inferInstanceAs (Decidable (_ ∧ _))

instance (addr : BusSlotAddr) : Decidable addr.InRange := inferInstanceAs (Decidable (_ ∧ _))

instance (space : ConfigSpace) (addr : BusSlotAddr) : Decidable (addr.Required space) :=
  inferInstanceAs (Decidable (_ ∧ _))

/-- What the iteration from an address on produces, if it ends. -/
inductive Enumerates (space : ConfigSpace) : BusSlotAddr → List BusSlotAddr → Prop where
  | last {turns : Nat} {addr : BusSlotAddr} (ended : nextAddr turns space addr = .ok none) :
      Enumerates space addr [addr]
  | more {turns : Nat} {addr next : BusSlotAddr} {produced : List BusSlotAddr}
      (found : nextAddr turns space addr = .ok (some next)) (rest : Enumerates space next produced) :
      Enumerates space addr (addr :: produced)

structure Complete (space : ConfigSpace) (produced : List BusSlotAddr) : Prop where
  inRange : ∀ addr ∈ produced, addr.InRange
  nodup : produced.Nodup
  complete : ∀ addr, addr.Required space → addr ∈ produced

/-- No required address but the first reads as 0xFF, and the last slots have single functions. -/
structure Visible (space : ConfigSpace) : Prop where
  reads : ∀ addr : BusSlotAddr, addr.Required space → addr ≠ first → addr.lthbc space ≠ 0xFF
  last : ∀ bus < 8, ¬ MultiFunction space bus 31

variable {space : ConfigSpace} {addr next start : BusSlotAddr} {produced : List BusSlotAddr} {turns : Nat}

/-- How the loop ends in its first turn. -/
theorem nextAddr_some (turns : Nat) (moved : addr.advance (addr.lthbc space) = next) (inside : next.bus < 8)
    (reads : next.lthbc space ≠ 0xFF) : nextAddr (turns + 1) space addr = .ok (some next) := by
  rw [nextAddr, nextAddrLoop, moved]
  have below : ¬ next.bus ≥ maxBuses := BitVec.not_le.mpr inside
  rw [if_neg below, if_pos reads]

theorem nextAddr_none (turns : Nat) (moved : addr.advance (addr.lthbc space) = next)
    (outside : 8 ≤ next.bus) : nextAddr (turns + 1) space addr = .ok none := by
  rw [nextAddr, nextAddrLoop, moved]
  exact if_pos outside

theorem lthbc_of_loop {seen : BitVec 32} (found : nextAddrLoop space seen turns addr = .ok (some next)) :
    next.lthbc space ≠ 0xFF := by
  induction turns generalizing addr with
  | zero => cases found
  | succ turns ih =>
    rw [nextAddrLoop] at found
    split at found
    · cases found
    · split at found
      · cases found
        assumption
      · exact ih found

/-- All addresses that are produced after the first one do not read as 0xFF. -/
theorem Enumerates.reads (run : Enumerates space start produced) (member : addr ∈ produced) :
    addr = start ∨ addr.lthbc space ≠ 0xFF := by
  induction run with
  | last => exact .inl (List.mem_singleton.mp member)
  | more found rest ih =>
    rcases List.mem_cons.mp member with here | later
    · exact .inl here
    · rcases ih later with rfl | fine
      · exact .inr (lthbc_of_loop found)
      · exact .inr fine

theorem Enumerates.head (run : Enumerates space start produced) : start ∈ produced := by
  cases run with
  | last => exact List.mem_cons_self
  | more => exact List.mem_cons_self

/-- With an address, the one that the next call finds at once is produced. -/
theorem Enumerates.next_mem (run : Enumerates space start produced) (member : addr ∈ produced)
    (found : ∀ turns, nextAddr (turns + 1) space addr = .ok (some next)) : next ∈ produced := by
  induction run with
  | @last turns _ ended =>
    rw [List.mem_singleton.mp member] at found
    cases turns with
    | zero => cases ended
    | succ turns =>
      rw [found turns] at ended
      cases ended
  | @more turns current after produced called rest ih =>
    rcases List.mem_cons.mp member with rfl | later
    · cases turns with
      | zero => cases called
      | succ turns =>
        rw [found turns] at called
        cases called
        exact List.mem_cons_of_mem _ rest.head
    · exact List.mem_cons_of_mem _ (ih later)

/-- A slot 32 would be the first slot of a bus. -/
theorem lthbc_slot32 (bus : BitVec 8) : lthbc space ⟨bus, 32, 0⟩ = lthbc space ⟨bus ||| 1, 0, 0⟩ := by
  have same : ∀ bus, pciAddress bus 32 0 cacheLineSize = pciAddress (bus ||| 1) 0 0 cacheLineSize := by
    decide +kernel
  exact congrArg space.dwords (same bus)

theorem advance_last (bus : BitVec 8) (seen : BitVec 32) :
    advance seen ⟨bus, 31, 7⟩ = ⟨bus, 32, 0⟩ := by
  rw [advance, if_neg fun single => absurd single.1 (by decide : (7 : BitVec 8) ≠ 0)]
  rfl

theorem visible_of_complete (run : Enumerates space first produced) (whole : Complete space produced) :
    Visible space := by
  have reads : ∀ addr : BusSlotAddr, addr.Required space → addr ≠ first → addr.lthbc space ≠ 0xFF :=
    fun addr required apart => (run.reads (whole.complete addr required)).resolve_left apart
  refine ⟨reads, fun bus inside multi => ?_⟩
  have last : (⟨bus, 31, 7⟩ : BusSlotAddr) ∈ produced :=
    whole.complete ⟨bus, 31, 7⟩
      ⟨⟨inside, (by decide : (31 : BitVec 8) < 32), (by decide : (7 : BitVec 8) < 8)⟩, .inr multi⟩
  have other : lthbc space ⟨bus, 32, 0⟩ ≠ 0xFF := by
    have small : ∀ bus : BitVec 8, bus < 8 → bus ||| 1 < 8 ∧ bus ||| 1 ≠ 0 := by decide +kernel
    obtain ⟨below, apart⟩ := small bus inside
    rw [lthbc_slot32]
    have required : Required space ⟨bus ||| 1, 0, 0⟩ :=
      ⟨⟨below, (by decide : (0 : BitVec 8) < 32), (by decide : (0 : BitVec 8) < 8)⟩, .inl rfl⟩
    exact reads _ required fun same => apart (congrArg BusSlotAddr.bus same)
  have outside := (whole.inRange _ (run.next_mem last fun turns =>
    nextAddr_some turns (advance_last bus _) inside other)).2.1
  exact absurd outside (by decide : ¬ (32 : BitVec 8) < 32)

/-- The addresses in the order of the code, 256 for each bus. -/
def place (index : Nat) : BusSlotAddr :=
  ⟨BitVec.ofNat 8 (index / 256), BitVec.ofNat 8 (index / 8 % 32), BitVec.ofNat 8 (index % 8)⟩

/-- The device of this address has a single function. -/
def single (seen : BitVec 32) : Prop := seen = BitVec.allOnes 32 ∨ seen &&& 0x800000 = 0

theorem place_bus {index : Nat} (inside : index ≤ 2048) : (place index).bus.toNat = index / 256 := by
  rw [place, BitVec.toNat_ofNat]
  omega

theorem place_slot (index : Nat) : (place index).slot.toNat = index / 8 % 32 := by
  rw [place, BitVec.toNat_ofNat]
  omega

theorem place_func (index : Nat) : (place index).func.toNat = index % 8 := by
  rw [place, BitVec.toNat_ofNat]
  omega

theorem place_inRange {index : Nat} (inside : index < 2048) : (place index).InRange := by
  refine ⟨?_, ?_, ?_⟩
  · rw [BitVec.lt_def, place_bus (Nat.le_of_lt inside)]
    exact Nat.div_lt_of_lt_mul inside
  · rw [BitVec.lt_def, place_slot]
    exact Nat.mod_lt _ (by decide)
  · rw [BitVec.lt_def, place_func]
    exact Nat.mod_lt _ (by decide)

theorem place_func_eq_zero (index : Nat) : (place index).func = 0 ↔ index % 8 = 0 := by
  rw [← BitVec.toNat_inj, place_func]
  rfl

theorem eq_place {index : Nat} {bus slot func : BitVec 8} (inside : index ≤ 2048)
    (sameBus : bus.toNat = index / 256) (sameSlot : slot.toNat = index / 8 % 32)
    (sameFunc : func.toNat = index % 8) : ⟨bus, slot, func⟩ = place index := by
  rw [← place_bus inside] at sameBus
  rw [← place_slot] at sameSlot
  rw [← place_func] at sameFunc
  rw [BitVec.eq_of_toNat_eq sameBus, BitVec.eq_of_toNat_eq sameSlot, BitVec.eq_of_toNat_eq sameFunc]

/-- The counters of 8 bits do not wrap. -/
theorem toNat_succ (counter : BitVec 8) (room : counter.toNat < 255) :
    (counter + 1).toNat = counter.toNat + 1 := by
  rw [BitVec.toNat_add]
  exact Nat.mod_eq_of_lt (Nat.succ_lt_succ room)

section Advance

variable {index : Nat} {seen : BitVec 32}

/-- A device with one function is followed by the next slot. -/
theorem advance_single (inside : index < 2048) (first : index % 8 = 0) (one : single seen) :
    (place index).advance seen = place (index + 8) := by
  have bus := place_bus (Nat.le_of_lt inside)
  have slot := place_slot index
  have func := place_func index
  have next := toNat_succ (place index).slot (by omega)
  rw [advance, if_pos ⟨(place_func_eq_zero index).mpr first, one⟩]
  dsimp only
  split
  · rename_i carry
    have full : 32 ≤ ((place index).slot + 1).toNat := carry
    have zero : (0 : BitVec 8).toNat = 0 := rfl
    have nextBus := toNat_succ (place index).bus (by omega)
    exact eq_place (by omega) (by omega) (by omega) (by omega)
  · rename_i fits
    have room : ¬ 32 ≤ ((place index).slot + 1).toNat := fits
    exact eq_place (by omega) (by omega) (by omega) (by omega)

/-- Otherwise the next function follows, or the first one of the next slot of the bus. -/
theorem advance_multi (inside : index < 2048) (more : ¬ (index % 8 = 0 ∧ single seen))
    (within : index % 256 ≠ 255) : (place index).advance seen = place (index + 1) := by
  have bus := place_bus (Nat.le_of_lt inside)
  have slot := place_slot index
  have func := place_func index
  have next := toNat_succ (place index).func (by omega)
  rw [advance, if_neg fun one => more ⟨(place_func_eq_zero index).mp one.1, one.2⟩]
  dsimp only
  split
  · rename_i carry
    have full : 8 ≤ ((place index).func + 1).toNat := carry
    have zero : (0 : BitVec 8).toNat = 0 := rfl
    have nextSlot := toNat_succ (place index).slot (by omega)
    exact eq_place (by omega) (by omega) (by omega) (by omega)
  · rename_i fits
    have room : ¬ 8 ≤ ((place index).func + 1).toNat := fits
    exact eq_place (by omega) (by omega) (by omega) (by omega)

end Advance

section Visits

variable {index other : Nat}

theorem single_iff (bus slot : BitVec 8) :
    single (lthbc space ⟨bus, slot, 0⟩) ↔ ¬ MultiFunction space bus slot := by
  rw [MultiFunction, not_and_or, not_ne_iff, not_ne_iff, single]

theorem required_place (inside : index < 2048) : (place index).Required space ↔
    index % 8 = 0 ∨ MultiFunction space (place index).bus (place index).slot := by
  rw [Required, and_iff_right (place_inRange inside), place_func_eq_zero]

theorem place_device (device : index / 8 = other / 8) :
    (place index).bus = (place other).bus ∧ (place index).slot = (place other).slot := by
  have bus : index / 256 = other / 256 := by omega
  rw [place, place, device, bus]
  exact ⟨rfl, rfl⟩

theorem place_injective (inside : index < 2048) (inside' : other < 2048) (same : place index = place other) :
    index = other := by
  have bus := place_bus (Nat.le_of_lt inside)
  have slot := place_slot index
  have func := place_func index
  rw [same] at bus slot func
  rw [place_bus (Nat.le_of_lt inside')] at bus
  rw [place_slot] at slot
  rw [place_func] at func
  omega

theorem place_ne_first (inside : index < 2048) (later : index ≠ 0) : place index ≠ first := by
  intro same
  exact later (place_injective inside (by decide) same)

/-- The required addresses from a place on. -/
def visits (space : ConfigSpace) (index : Nat) : List BusSlotAddr :=
  ((List.range' index (2048 - index)).filter fun index => (place index).Required space).map place

theorem visits_succ (inside : index < 2048) (required : (place index).Required space) :
    visits space index = place index :: visits space (index + 1) := by
  have more : 2048 - index = (2048 - (index + 1)) + 1 := by omega
  rw [visits, more, List.range'_succ, List.filter_cons_of_pos (by simpa using required), List.map_cons]
  rfl

theorem visits_skip (inside : index < 2048) (absent : ¬ (place index).Required space) :
    visits space index = visits space (index + 1) := by
  have more : 2048 - index = (2048 - (index + 1)) + 1 := by omega
  rw [visits, more, List.range'_succ, List.filter_cons_of_neg (by simpa using absent)]
  rfl

/-- The other functions of a device with one function are not visited. -/
theorem visits_device (inside : index < 2048) (start : index % 8 = 0)
    (one : ¬ MultiFunction space (place index).bus (place index).slot) {count : Nat} (few : count < 8) :
    visits space (index + 1) = visits space (index + 1 + count) := by
  induction count with
  | zero => rfl
  | succ count ih =>
    have absent : ¬ (place (index + 1 + count)).Required space := by
      obtain ⟨bus, slot⟩ := place_device (show (index + 1 + count) / 8 = index / 8 by omega)
      rw [required_place (by omega), bus, slot]
      rintro (function | multi)
      · omega
      · exact one multi
    rw [ih (by omega), visits_skip (by omega) absent]
    rfl

/-- After the device of a slot with one function comes the next slot. -/
theorem advance_slot (inside : index < 2048) (start : index % 8 = 0)
    (one : ¬ MultiFunction space (place index).bus (place index).slot) :
    (place index).advance ((place index).lthbc space) = place (index + 8) := by
  have function : (place index).func = 0 := (place_func_eq_zero index).mpr start
  apply advance_single inside start
  have alone := (single_iff (place index).bus (place index).slot).mpr one
  rwa [← function] at alone

/-- After a function of a device with several comes one that is required, too. -/
theorem advance_function (visible : Visible space) (inside : index < 2048)
    (multi : MultiFunction space (place index).bus (place index).slot) :
    index + 1 < 2048 ∧ (place (index + 1)).Required space ∧
      (place index).advance ((place index).lthbc space) = place (index + 1) := by
  have within : index % 256 ≠ 255 := by
    intro full
    have slot : (place index).slot = 31 := BitVec.eq_of_toNat_eq (by rw [place_slot]; simp; omega)
    rw [slot] at multi
    exact visible.last _ (place_inRange inside).1 multi
  have several : ¬ (index % 8 = 0 ∧ single ((place index).lthbc space)) := by
    rintro ⟨start, alone⟩
    have function : (place index).func = 0 := (place_func_eq_zero index).mpr start
    apply (single_iff (place index).bus (place index).slot).mp _ multi
    rwa [← function]
  have below : index + 1 < 2048 := by omega
  refine ⟨below, ?_, advance_multi inside several within⟩
  rw [required_place below]
  by_cases start : (index + 1) % 8 = 0
  · exact .inl start
  · obtain ⟨bus, slot⟩ := place_device (show (index + 1) / 8 = index / 8 by omega)
    rw [bus, slot]
    exact .inr multi

/-- By induction from the last place down: each required address is followed by the next one. -/
theorem enumerates_visits (visible : Visible space) (inside : index < 2048)
    (required : (place index).Required space) :
    Enumerates space (place index) (visits space index) := by
  induction rest : 2048 - index using Nat.strongRecOn generalizing index with
  | ind rest ih =>
    have visited (next : Nat) (later : index < next) (below : next < 2048)
        (needed : (place next).Required space) :
        (place next).bus < 8 ∧ (place next).lthbc space ≠ 0xFF ∧
          Enumerates space (place next) (visits space next) :=
      ⟨(place_inRange below).1, visible.reads _ needed (place_ne_first below (by omega)),
        ih (2048 - next) (by omega) below needed rfl⟩
    by_cases multi : MultiFunction space (place index).bus (place index).slot
    · obtain ⟨below, needed, moved⟩ := advance_function visible inside multi
      obtain ⟨bus, reads, following⟩ := visited (index + 1) (Nat.lt_succ_self index) below needed
      rw [visits_succ inside required]
      exact .more (nextAddr_some 0 moved bus reads) following
    · have start := ((required_place inside).mp required).resolve_right multi
      have moved := advance_slot inside start multi
      rw [visits_succ inside required, visits_device inside start multi (show 7 < 8 by decide)]
      rcases Nat.lt_or_ge (index + 8) 2048 with below | ended
      · obtain ⟨bus, reads, following⟩ := visited (index + 8) (by omega) below
          ((required_place below).mpr (.inl (by omega)))
        exact .more (nextAddr_some 0 moved bus reads) following
      · have final : index + 8 = 2048 := by omega
        rw [final] at moved
        have nothing : visits space (index + 1 + 7) = [] := by
          rw [visits, Nat.sub_eq_zero_of_le (by omega)]
          rfl
        rw [nothing]
        exact .last (nextAddr_none 0 moved (by decide))

theorem mem_visits : addr ∈ visits space 0 ↔ addr.Required space := by
  simp only [visits, List.mem_map, List.mem_filter, List.mem_range'_1, decide_eq_true_eq]
  constructor
  · rintro ⟨index, ⟨-, required⟩, rfl⟩
    exact required
  · intro required
    obtain ⟨bus, slot, func⟩ := addr
    have bounds : bus.toNat < 8 ∧ slot.toNat < 32 ∧ func.toNat < 8 := required.1
    have here : (⟨bus, slot, func⟩ : BusSlotAddr) =
        place (256 * bus.toNat + 8 * slot.toNat + func.toNat) :=
      eq_place (by omega) (by omega) (by omega) (by omega)
    exact ⟨_, ⟨by omega, here ▸ required⟩, here.symm⟩

theorem nodup_visits : (visits space 0).Nodup := by
  apply List.Nodup.map_on _ (List.Nodup.filter _ (List.nodup_range' ..))
  intro index member other member' same
  have inside := List.mem_range'_1.mp (List.mem_filter.mp member).1
  have inside' := List.mem_range'_1.mp (List.mem_filter.mp member').1
  exact place_injective (by omega) (by omega) same

end Visits

/-- The iteration is finite and complete exactly on configurations where every required
address can be seen and no last slot has several functions. -/
theorem enumeration_complete_iff (space : ConfigSpace) :
    (∃ produced, Enumerates space first produced ∧ Complete space produced) ↔ Visible space := by
  constructor
  · rintro ⟨produced, run, whole⟩
    exact visible_of_complete run whole
  · intro visible
    have required : (place 0).Required space := (required_place (by decide)).mpr (.inl rfl)
    refine ⟨visits space 0, enumerates_visits visible (by decide) required, ?_, nodup_visits, ?_⟩
    · exact fun addr member => (mem_visits.mp member).1
    · exact fun addr needed => mem_visits.mpr needed

/-- A multi-function device in slot 31 of bus 0, and nothing else. -/
theorem enumeration_slot31_incomplete : ¬ ∃ produced,
    Enumerates ⟨0, fun address => if address = 0x8000F80C then 0x800000 else BitVec.allOnes 32⟩ first
        produced ∧
      Complete ⟨0, fun address => if address = 0x8000F80C then 0x800000 else BitVec.allOnes 32⟩ produced := by
  rintro ⟨produced, run, whole⟩
  exact (visible_of_complete run whole).last 0 (by decide) (by decide)

end WalnutOs.Klib.Pci.BusSlotAddr
