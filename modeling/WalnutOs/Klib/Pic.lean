import Mathlib.Data.List.Find
import WalnutOs.Lib.Bits
import WalnutOs.Klib.Keyboard

/-! The programmable interrupt controllers, `klib/pic.hh`, and the pair of chips
that the writes of `kernel/pic.cc` go to. -/

namespace WalnutOs.Klib

open WalnutOs.Lib

/-- What a chip takes the next byte at its data port for. -/
inductive PicExpects where
  | mask
  | base
  | cascade
  | mode
  deriving DecidableEq

/-- `cascade` has a bit for each line of a master that a slave is on, and the number of its line in
a slave. -/
structure PicChip where
  requested : BitVec 8
  inService : BitVec 8
  mask : BitVec 8
  base : BitVec 8
  cascade : BitVec 8
  expects : PicExpects
  single : Bool
  modeNeeded : Bool

namespace PicChip

/-- The lowest line that is in service is no longer. -/
def endOfInterrupt (chip : PicChip) : PicChip :=
  { chip with inService := chip.inService &&& (chip.inService - 1) }

/-- A byte with bit 4 starts the initialisation; of the others only the end of an interrupt
is used. -/
def command (chip : PicChip) (value : BitVec 8) : PicChip :=
  if value.getLsbD 4 then
    { chip with requested := 0, inService := 0, mask := 0, expects := .base, single := value.getLsbD 1
                modeNeeded := value.getLsbD 0 }
  else if value = 0x20 then chip.endOfInterrupt else chip

def data (chip : PicChip) (value : BitVec 8) : PicChip :=
  match chip.expects with
  | .mask => { chip with mask := value }
  | .base => { chip with
      base := value &&& 0xF8
      expects := if chip.single then (if chip.modeNeeded then .mode else .mask) else .cascade }
  | .cascade => { chip with
      cascade := value
      expects := if chip.modeNeeded then .mode else .mask }
  | .mode => { chip with expects := .mask }

def raise (chip : PicChip) (line : Fin 8) : PicChip :=
  { chip with requested := chip.requested ||| 1#8 <<< line.val }

/-- The processor takes the interrupt of a line. -/
def acknowledge (chip : PicChip) (line : Fin 8) : PicChip :=
  { chip with
    requested := chip.requested &&& ~~~(1#8 <<< line.val)
    inService := chip.inService ||| 1#8 <<< line.val }

/-- The lowest of the lines that ask and are not masked, unless it or a lower one is in service;
nothing during the initialisation. -/
def grant (chip : PicChip) (asks : Fin 8 → Bool) : Option (Fin 8) :=
  if chip.expects = .mask then
    ((List.finRange 8).find? fun line => asks line && !chip.mask.getLsbD line).filter fun line =>
      (List.finRange 8).all fun served => line < served || !chip.inService.getLsbD served
  else none

end PicChip

/-- The slave is on line 2 of the master. -/
structure PicPair where
  master : PicChip
  slave : PicChip

namespace PicPair

def cascadeLine : Fin 8 := 2

/-- A write of the processor to a port; the chips are at four of them. -/
def output (pics : PicPair) : PortOutput → PicPair
  | .outb port value =>
    if port = 0x20 then { pics with master := pics.master.command value }
    else if port = 0x21 then { pics with master := pics.master.data value }
    else if port = 0xA0 then { pics with slave := pics.slave.command value }
    else if port = 0xA1 then { pics with slave := pics.slave.data value }
    else pics
  | .outw _ _ => pics

def outputs (pics : PicPair) (written : List PortOutput) : PicPair := written.foldl output pics

/-- The 16 lines; none is at the place of the slave. -/
def raise (pics : PicPair) (line : Fin 16) : PicPair :=
  if below : line.val < 8 then
    if line = 2 then pics else { pics with master := pics.master.raise ⟨line.val, below⟩ }
  else { pics with slave := pics.slave.raise ⟨line.val - 8, by omega⟩ }

def slaveGrant (pics : PicPair) : Option (Fin 8) :=
  pics.slave.grant fun line => pics.slave.requested.getLsbD line

def masterGrant (pics : PicPair) : Option (Fin 8) :=
  pics.master.grant fun line =>
    if line = cascadeLine then pics.slaveGrant.isSome else pics.master.requested.getLsbD line

/-- The master leaves the vector to a slave, as it was set up, and puts the number of the line out. -/
def asksSlave (pics : PicPair) (line : Fin 8) : Bool :=
  !pics.master.single && pics.master.cascade.getLsbD line

/-- The slave answers to its line's number. -/
def slaveAnswers (pics : PicPair) : Bool :=
  !pics.slave.single && decide (pics.slave.cascade &&& 7 = BitVec.ofNat 8 cascadeLine.val)

/-- The vector that the processor gets when it takes an interrupt. When no slave answers there is
nothing on the bus. -/
def acknowledge (pics : PicPair) : Option (BitVec 8 × PicPair) :=
  pics.masterGrant.bind fun line =>
    let taken := { pics with master := pics.master.acknowledge line }
    if pics.asksSlave line then
      if line = cascadeLine && pics.slaveAnswers then
        pics.slaveGrant.map fun inner =>
          (pics.slave.base + BitVec.ofNat 8 inner.val,
            { taken with slave := pics.slave.acknowledge inner })
      else some (0xFF, taken)
    else some (pics.master.base + BitVec.ofNat 8 line.val, taken)

end PicPair

/-! The writes of the kernel. -/

namespace Pic

def pic1Command : BitVec 16 := 0x20
def pic2Command : BitVec 16 := 0xA0
def pic1Data : BitVec 16 := 0x21
def pic2Data : BitVec 16 := 0xA1
def picEoi : BitVec 8 := 0x20
def icw1Icw4 : BitVec 8 := 0x01
def icw1Init : BitVec 8 := 0x10
def icw48086 : BitVec 8 := 0x01

def ioWait : PortOutput := .outb 0x80 0

/-- The masks are read first, and written back at the end. -/
def remap (masterOffset slaveOffset : BitVec 8) (pics : PicPair) : List PortOutput :=
  [.outb pic1Command (icw1Init ||| icw1Icw4), ioWait, .outb pic2Command (icw1Init ||| icw1Icw4), ioWait,
    .outb pic1Data masterOffset, ioWait, .outb pic2Data slaveOffset, ioWait,
    .outb pic1Data 0x04, ioWait, .outb pic2Data 0x02, ioWait,
    .outb pic1Data icw48086, ioWait, .outb pic2Data icw48086, ioWait,
    .outb pic1Data pics.master.mask, .outb pic2Data pics.slave.mask]

def clearMasks : List PortOutput := [.outb pic1Data 0, .outb pic2Data 0]

/-- `kernel_main` before it enables the interrupts. -/
def setUp (pics : PicPair) : PicPair := (pics.outputs (remap 0x20 0x28 pics)).outputs clearMasks

end Pic

namespace PicChip

variable {chip : PicChip} {line : Fin 8}

/-- Nothing is in service or masked. -/
structure Idle (chip : PicChip) (base : BitVec 8) : Prop where
  inService : chip.inService = 0
  mask : chip.mask = 0
  base : chip.base = base
  expects : chip.expects = .mask

theorem Idle.grant {base : BitVec 8} (idle : chip.Idle base) (asks : Fin 8 → Bool) :
    chip.grant asks = (List.finRange 8).find? asks := by
  have unmasked : (fun line : Fin 8 => asks line && !chip.mask.getLsbD line.val) = asks := by
    funext line
    rw [idle.mask]
    simp
  have unserved : (fun line : Fin 8 => (List.finRange 8).all fun served =>
      line < served || !chip.inService.getLsbD served.val) = fun _ => true := by
    funext line
    rw [idle.inService]
    simp
  rw [PicChip.grant, if_pos idle.expects, unmasked, unserved]
  cases (List.finRange 8).find? asks <;> rfl

theorem Idle.raise {base : BitVec 8} (idle : chip.Idle base) (line : Fin 8) : (chip.raise line).Idle base :=
  ⟨idle.inService, idle.mask, idle.base, idle.expects⟩

theorem endOfInterrupt_bit (line : Fin 8) :
    (0 ||| 1#8 <<< line.val) &&& ((0 ||| 1#8 <<< line.val) - 1) = 0 := by
  revert line
  decide

/-- An interrupt that is taken and ended. -/
theorem Idle.served {base : BitVec 8} (idle : chip.Idle base) (line : Fin 8) :
    ((chip.acknowledge line).command Pic.picEoi).Idle base ∧
      ((chip.acknowledge line).command Pic.picEoi).requested = chip.requested &&& ~~~(1#8 <<< line.val) := by
  have ended : (chip.acknowledge line).command Pic.picEoi = (chip.acknowledge line).endOfInterrupt := rfl
  rw [ended]
  refine ⟨⟨?_, idle.mask, idle.base, idle.expects⟩, rfl⟩
  have served : (chip.acknowledge line).inService = 0 ||| 1#8 <<< line.val := by
    rw [acknowledge, idle.inService]
  rw [endOfInterrupt, served]
  exact endOfInterrupt_bit line

end PicChip

namespace PicPair

variable {pics : PicPair}

/-- The state of the chips between two interrupts. -/
structure Quiet (pics : PicPair) : Prop where
  master : pics.master.Idle 0x20
  slave : pics.slave.Idle 0x28
  cascade : pics.master.requested.getLsbD 2 = false
  asks : ∀ line, pics.asksSlave line = decide (line = cascadeLine)
  answers : pics.slaveAnswers = true

/-- The line has asked and has not been served. -/
def pending (pics : PicPair) (line : Fin 16) : Bool :=
  if line.val < 8 then pics.master.requested.getLsbD line.val else pics.slave.requested.getLsbD (line.val - 8)

/-- The lines, the one with the highest priority first. -/
def priority : List (Fin 16) := [0, 1, 8, 9, 10, 11, 12, 13, 14, 15, 3, 4, 5, 6, 7]

/-- What a handler has to write at the end of the interrupt of a line. -/
def ending (line : Fin 16) : List PortOutput :=
  (if line.val < 8 then [] else [.outb Pic.pic2Command Pic.picEoi]) ++ [.outb Pic.pic1Command Pic.picEoi]

theorem setUp_quiet (pics : PicPair) :
    (Pic.setUp pics).Quiet ∧ (Pic.setUp pics).pending = fun _ => false := by
  have master : (Pic.setUp pics).master.requested = 0 := rfl
  have slave : (Pic.setUp pics).slave.requested = 0 := rfl
  have asks : (Pic.setUp pics).asksSlave = fun line : Fin 8 => !false && (0x04 : BitVec 8).getLsbD line := rfl
  have answers : (Pic.setUp pics).slaveAnswers =
      (!false && decide ((0x02 : BitVec 8) &&& 7 = BitVec.ofNat 8 cascadeLine.val)) := rfl
  refine ⟨⟨⟨rfl, rfl, rfl, rfl⟩, ⟨rfl, rfl, rfl, rfl⟩, master ▸ rfl, ?_, answers.trans (by decide)⟩,
    funext fun line => ?_⟩
  · rw [asks]
    decide
  · rw [pending, master, slave]
    simp

/-- The line of the pair at a line of the master, and at one of the slave. -/
def ofMaster (line : Fin 8) : Fin 16 := line.castLE (by decide)
def ofSlave (line : Fin 8) : Fin 16 := line.natAdd 8

theorem ofMaster_lt (line : Fin 8) : (ofMaster line).val < 8 := line.isLt

theorem ofSlave_not_lt (line : Fin 8) : ¬(ofSlave line).val < 8 := Nat.not_lt.mpr (Nat.le_add_right 8 line.val)

theorem pending_ofMaster (line : Fin 8) :
    pics.pending (ofMaster line) = pics.master.requested.getLsbD line.val :=
  if_pos (ofMaster_lt line)

theorem pending_ofSlave (line : Fin 8) :
    pics.pending (ofSlave line) = pics.slave.requested.getLsbD line.val := by
  have place : (ofSlave line).val - 8 = line.val := Nat.add_sub_cancel_left 8 line.val
  rw [pending, if_neg (ofSlave_not_lt line), place]

/-- The lines of the slave are at the place of the line that it is on. -/
theorem priority_eq : priority =
    [0, 1].map ofMaster ++ ((List.finRange 8).map ofSlave ++ [3, 4, 5, 6, 7].map ofMaster) := by
  decide

theorem find?_master {lines : List (Fin 8)} (other : cascadeLine ∉ lines) :
    (lines.map ofMaster).find? pics.pending = (lines.find? fun line =>
      if line = cascadeLine then pics.slaveGrant.isSome else pics.master.requested.getLsbD line.val).map
        ofMaster := by
  rw [List.find?_map]
  congr 1
  refine List.find?_congr fun line inside => ?_
  have apart : line ≠ cascadeLine := fun same => other (same ▸ inside)
  rw [if_neg apart]
  exact pending_ofMaster line

theorem find?_ne {lines : List (Fin 8)} {asks : Fin 8 → Bool} {line : Fin 8}
    (other : cascadeLine ∉ lines) (found : lines.find? asks = some line) : line ≠ cascadeLine :=
  fun same => other (same ▸ List.mem_of_find?_eq_some found)

/-- The chips grant the line with the highest priority. -/
theorem Quiet.grants (quiet : pics.Quiet) :
    (∃ line ≠ cascadeLine, pics.masterGrant = some line ∧
      priority.find? pics.pending = some (ofMaster line)) ∨
    (∃ line, pics.masterGrant = some cascadeLine ∧ pics.slaveGrant = some line ∧
      priority.find? pics.pending = some (ofSlave line)) ∨
    pics.masterGrant = none ∧ priority.find? pics.pending = none := by
  have lines : List.finRange 8 = [0, 1] ++ ([cascadeLine] ++ [3, 4, 5, 6, 7]) := by decide
  have inner : ((List.finRange 8).map ofSlave).find? pics.pending = pics.slaveGrant.map ofSlave := by
    rw [List.find?_map, slaveGrant, quiet.slave.grant]
    congr 2
    exact funext pending_ofSlave
  have cascade : ([cascadeLine].find? fun line =>
      if line = cascadeLine then pics.slaveGrant.isSome else pics.master.requested.getLsbD line.val) =
      pics.slaveGrant.map fun _ => cascadeLine := by
    cases pics.slaveGrant <;> simp
  rw [masterGrant, quiet.master.grant, priority_eq, List.find?_append, List.find?_append,
    find?_master (by decide), find?_master (by decide), inner, lines, List.find?_append, List.find?_append,
    cascade]
  cases front : ([0, 1] : List (Fin 8)).find? fun line =>
      if line = cascadeLine then pics.slaveGrant.isSome else pics.master.requested.getLsbD line.val with
  | some line => exact .inl ⟨line, find?_ne (by decide) front, rfl, rfl⟩
  | none =>
    cases grant : pics.slaveGrant with
    | some line => exact .inr (.inl ⟨line, rfl, rfl, rfl⟩)
    | none =>
      simp only [Option.map_none, Option.none_or]
      cases back : ([3, 4, 5, 6, 7] : List (Fin 8)).find? fun line =>
          if line = cascadeLine then (none : Option (Fin 8)).isSome
          else pics.master.requested.getLsbD line.val with
      | some line => exact .inl ⟨line, find?_ne (by decide) back, rfl, rfl⟩
      | none => exact .inr (.inr ⟨rfl, rfl⟩)

theorem line_cases (line : Fin 16) : (∃ inner, line = ofMaster inner) ∨ ∃ inner, line = ofSlave inner := by
  by_cases below : line.val < 8
  · exact .inl ⟨⟨line.val, below⟩, rfl⟩
  · exact .inr ⟨⟨line.val - 8, by omega⟩, Fin.ext (by simp [ofSlave]; omega)⟩

theorem ofMaster_ne_ofSlave (line other : Fin 8) : ofMaster line ≠ ofSlave other := by
  intro same
  have values := congrArg Fin.val same
  simp only [ofMaster, ofSlave, Fin.val_castLE, Fin.val_natAdd] at values
  omega

/-- The request of a line of the master changes. -/
theorem pending_master {after : PicPair} {line : Fin 8} {value : Bool}
    (slave : after.slave.requested = pics.slave.requested)
    (master : ∀ other : Fin 8, after.master.requested.getLsbD other.val =
      if other = line then value else pics.master.requested.getLsbD other.val) :
    after.pending = Function.update pics.pending (ofMaster line) value := by
  funext other
  rcases line_cases other with ⟨inner, rfl⟩ | ⟨inner, rfl⟩
  · rw [pending_ofMaster, master, Function.update_apply, pending_ofMaster]
    simp [ofMaster, Fin.ext_iff]
  · rw [pending_ofSlave, slave, Function.update_of_ne (ofMaster_ne_ofSlave line inner).symm, pending_ofSlave]

/-- The request of a line of the slave changes. -/
theorem pending_slave {after : PicPair} {line : Fin 8} {value : Bool}
    (master : ∀ other : Fin 8, after.master.requested.getLsbD other.val =
      pics.master.requested.getLsbD other.val)
    (slave : ∀ other : Fin 8, after.slave.requested.getLsbD other.val =
      if other = line then value else pics.slave.requested.getLsbD other.val) :
    after.pending = Function.update pics.pending (ofSlave line) value := by
  funext other
  rcases line_cases other with ⟨inner, rfl⟩ | ⟨inner, rfl⟩
  · rw [pending_ofMaster, master, Function.update_of_ne (ofMaster_ne_ofSlave inner line), pending_ofMaster]
  · rw [pending_ofSlave, slave, Function.update_apply, pending_ofSlave]
    simp [ofSlave, Fin.ext_iff]

theorem set_bit (mask : BitVec 8) (line other : Fin 8) : (mask ||| 1#8 <<< line.val).getLsbD other.val =
    if other = line then true else mask.getLsbD other.val := by
  rw [Bits.getLsbD_set other.isLt]
  by_cases same : other = line
  · simp [same]
  · simp [same, Fin.val_ne_of_ne same]

theorem clear_bit (mask : BitVec 8) (line other : Fin 8) :
    (mask &&& ~~~(1#8 <<< line.val)).getLsbD other.val =
      if other = line then false else mask.getLsbD other.val := by
  rw [Bits.getLsbD_clear other.isLt]
  by_cases same : other = line
  · simp [same]
  · simp [same, Fin.val_ne_of_ne same]

theorem raise_ofMaster (line : Fin 8) : pics.raise (ofMaster line) =
    if line = cascadeLine then pics else { pics with master := pics.master.raise line } := by
  have place : ofMaster line = 2 ↔ line = cascadeLine := by
    revert line
    decide
  rw [raise, dif_pos (ofMaster_lt line)]
  exact if_congr place rfl rfl

theorem raise_ofSlave (line : Fin 8) :
    pics.raise (ofSlave line) = { pics with slave := pics.slave.raise line } := by
  have place : (⟨(ofSlave line).val - 8, by omega⟩ : Fin 8) = line :=
    Fin.ext (Nat.add_sub_cancel_left 8 line.val)
  rw [raise, dif_neg (ofSlave_not_lt line), place]

theorem Quiet.raise (quiet : pics.Quiet) (line : Fin 16) : (pics.raise line).Quiet ∧
    (pics.raise line).pending =
      if line = ofMaster cascadeLine then pics.pending else Function.update pics.pending line true := by
  rcases line_cases line with ⟨inner, rfl⟩ | ⟨inner, rfl⟩
  · rw [raise_ofMaster]
    by_cases cascade : inner = cascadeLine
    · rw [if_pos cascade, if_pos (congrArg ofMaster cascade)]
      exact ⟨quiet, rfl⟩
    · have apart : ofMaster inner ≠ ofMaster cascadeLine := (Fin.castLE_injective _).ne cascade
      rw [if_neg cascade, if_neg apart]
      refine ⟨⟨quiet.master.raise inner, quiet.slave, ?_, quiet.asks, quiet.answers⟩,
        pending_master rfl fun other => set_bit _ inner other⟩
      have kept := set_bit pics.master.requested inner cascadeLine
      rw [if_neg (Ne.symm cascade)] at kept
      exact kept.trans quiet.cascade
  · rw [raise_ofSlave, if_neg (ofMaster_ne_ofSlave cascadeLine inner).symm]
    exact ⟨⟨quiet.master, quiet.slave.raise inner, quiet.cascade, quiet.asks, quiet.answers⟩,
      pending_slave (fun _ => rfl) fun other => set_bit _ inner other⟩

theorem slave_vector (line : Fin 8) :
    0x28 + BitVec.ofNat 8 line.val = 0x20 + BitVec.ofNat 8 (ofSlave line).val := by
  revert line
  decide

theorem Quiet.acknowledge_none (quiet : pics.Quiet) (nothing : priority.find? pics.pending = none) :
    pics.acknowledge = none := by
  rcases quiet.grants with ⟨line, -, -, first⟩ | ⟨line, -, -, first⟩ | ⟨granted, -⟩
  · rw [nothing] at first
    cases first
  · rw [nothing] at first
    cases first
  · rw [acknowledge, granted]
    rfl

/-- The interrupt that is taken is that of the first line that has asked; once it is ended, the line
is the only one that no longer asks. -/
theorem Quiet.acknowledge_some (quiet : pics.Quiet) {line : Fin 16}
    (first : priority.find? pics.pending = some line) :
    ∃ taken, pics.acknowledge = some (0x20 + BitVec.ofNat 8 line.val, taken) ∧
      (taken.outputs (ending line)).Quiet ∧
      (taken.outputs (ending line)).pending = Function.update pics.pending line false := by
  rcases quiet.grants with ⟨inner, other, granted, chosen⟩ | ⟨inner, granted, slave, chosen⟩ | ⟨-, none⟩
  · cases first.symm.trans chosen
    refine ⟨{ pics with master := pics.master.acknowledge inner }, ?_, ?_⟩
    · have alone : pics.asksSlave inner = false := (quiet.asks inner).trans (decide_eq_false other)
      simp only [acknowledge, granted, Option.bind_some, alone, Bool.false_eq_true, if_false,
        quiet.master.base]
      rfl
    · have written : PicPair.outputs { pics with master := pics.master.acknowledge inner }
          (ending (ofMaster inner)) =
          { pics with master := (pics.master.acknowledge inner).command Pic.picEoi } := by
        rw [ending, if_pos (ofMaster_lt inner)]
        rfl
      obtain ⟨idle, requested⟩ := quiet.master.served inner
      rw [written]
      refine ⟨⟨idle, quiet.slave, ?_, quiet.asks, quiet.answers⟩, pending_master rfl fun other => ?_⟩
      · have kept := clear_bit pics.master.requested inner cascadeLine
        rw [if_neg (Ne.symm other)] at kept
        rw [requested]
        exact kept.trans quiet.cascade
      · rw [requested]
        exact clear_bit _ inner other
  · cases first.symm.trans chosen
    refine ⟨⟨pics.master.acknowledge cascadeLine, pics.slave.acknowledge inner⟩, ?_, ?_⟩
    · have asked : pics.asksSlave cascadeLine = true := (quiet.asks cascadeLine).trans (decide_eq_true rfl)
      simp only [acknowledge, granted, Option.bind_some, asked, quiet.answers, if_true, decide_true,
        Bool.and_self, slave, Option.map_some, quiet.slave.base, slave_vector]
    · have written : PicPair.outputs ⟨pics.master.acknowledge cascadeLine, pics.slave.acknowledge inner⟩
          (ending (ofSlave inner)) =
          ⟨(pics.master.acknowledge cascadeLine).command Pic.picEoi,
            (pics.slave.acknowledge inner).command Pic.picEoi⟩ := by
        rw [ending, if_neg (ofSlave_not_lt inner)]
        rfl
      obtain ⟨master, unchanged⟩ := quiet.master.served cascadeLine
      obtain ⟨idle, requested⟩ := quiet.slave.served inner
      have kept := clear_bit pics.master.requested cascadeLine
      rw [written]
      refine ⟨⟨master, idle, ?_, quiet.asks, quiet.answers⟩, pending_slave (fun other => ?_) fun other => ?_⟩
      · rw [unchanged]
        exact kept cascadeLine
      · rw [unchanged, kept]
        split
        · rename_i same
          rw [same]
          exact quiet.cascade.symm
        · rfl
      · rw [requested]
        exact clear_bit _ inner other
  · rw [none] at first
    cases first

end PicPair

end WalnutOs.Klib
