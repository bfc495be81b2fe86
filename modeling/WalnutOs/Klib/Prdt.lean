import WalnutOs.Lib.Run
import WalnutOs.Lib.Bits
import Mathlib.Algebra.Group.Nat.Defs
import Mathlib.Data.List.Basic
import Mathlib.Logic.Function.Basic

/-! The descriptor tables for DMA, `klib/pci/prdt.hh` and `klib/pci/prdt.cc`. -/

namespace WalnutOs.Klib.Pci

open WalnutOs.Lib

structure PRDEntry where
  bufferAddress : BitVec 32
  bufferSize : BitVec 16
  lastEntry : BitVec 16
  deriving DecidableEq

namespace PRDEntry

def setAddress (address : BitVec 32) (entry : PRDEntry) : PRDEntry := { entry with bufferAddress := address }

/-- The size is cut to its 16 bits. -/
def setSize (size : BitVec 32) (entry : PRDEntry) : PRDEntry := { entry with bufferSize := size.setWidth 16 }

def setLastEntryFlag (entry : PRDEntry) : PRDEntry :=
  { entry with lastEntry := entry.lastEntry ||| 1#16 <<< 15 }

def isLast (entry : PRDEntry) : Bool := entry.lastEntry.getLsbD 15

end PRDEntry

inductive ChannelType where
  | primary
  | secondary
  deriving DecidableEq

def ChannelType.toU16 : ChannelType → BitVec 16
  | .primary => 0x0
  | .secondary => 0x8

inductive DMAOpMask where
  | read
  | write
  deriving DecidableEq

def DMAOpMask.toU8 : DMAOpMask → BitVec 8
  | .read => 0b11111111
  | .write => 0b11110111

/-- A store into the table: the entry, and what becomes of it. -/
abbrev TableStore := Nat × (PRDEntry → PRDEntry)

inductive PortWrite where
  | outb (port : BitVec 16) (value : BitVec 8)
  deriving DecidableEq

/-- `table` is the memory from `prdt_location` on. `written` is what was sent to the
ports, the latest value last. -/
structure PRDT where
  table : Nat → PRDEntry
  entryCount : BitVec 16
  busMasterRegister : BitVec 16
  written : List PortWrite

namespace PRDT

def commandOffset : BitVec 16 := 0x0
def stopMask : BitVec 8 := 0b11111110
def startMask : BitVec 8 := 0b11111111

/-- The stores of the loop over the list, from an entry on. -/
def entryStores : Nat → List (BitVec 32 × BitVec 32) → List TableStore
  | _, [] => []
  | i, entry :: rest =>
    (i, PRDEntry.setAddress entry.1) :: (i, PRDEntry.setSize entry.2) :: entryStores (i + 1) rest

def numToAdd (prdt : PRDT) (entries : List (BitVec 32 × BitVec 32)) : Nat :=
  min prdt.entryCount.toNat entries.length

/-- All stores of a call. The flag goes before the first entry if there are none. -/
def stores (prdt : PRDT) (entries : List (BitVec 32 × BitVec 32)) : List TableStore :=
  entryStores 0 entries ++ [((prdt.numToAdd entries + (2 ^ 32 - 1)) % 2 ^ 32, PRDEntry.setLastEntryFlag)]

def store (table : Nat → PRDEntry) (change : TableStore) : Nat → PRDEntry :=
  Function.update table change.1 (change.2 (table change.1))

/-- `cmd` is what is read from the command port. -/
def setUpDma (prdt : PRDT) (entries : List (BitVec 32 × BitVec 32)) (channel : ChannelType)
    (operation : DMAOpMask) (cmd : BitVec 8) : Except (BitVec 16) Unit × PRDT :=
  let port := prdt.busMasterRegister + channel.toU16 + commandOffset
  let started := { prdt with
    table := (prdt.stores entries).foldl store prdt.table
    written := prdt.written ++
      [.outb port (cmd &&& stopMask), .outb port (cmd ||| startMask ||| operation.toU8)] }
  if prdt.numToAdd entries ≠ entries.length then (.error (BitVec.ofNat 16 (prdt.numToAdd entries)), started)
  else (.ok (), started)

/-- A call of `set_up_dma`, with what it reads from the command port. -/
structure SetUpDma where
  entries : List (BitVec 32 × BitVec 32)
  channel : ChannelType
  operation : DMAOpMask
  cmd : BitVec 8

def step (prdt : PRDT) (call : SetUpDma) : PRDT :=
  (prdt.setUpDma call.entries call.channel call.operation call.cmd).2

/-- The table that a call builds is the requested one. -/
structure Built (prdt : PRDT) (call : SetUpDma) : Prop where
  entries : ∀ i, ∀ entry ∈ call.entries[i]?, i < prdt.entryCount.toNat →
    ((prdt.step call).table i).bufferAddress = entry.1 ∧
      ((prdt.step call).table i).bufferSize = entry.2.setWidth 16
  last : ((prdt.step call).table (prdt.numToAdd call.entries - 1)).isLast = true
  before : ∀ i < prdt.numToAdd call.entries - 1, ((prdt.step call).table i).isLast = false
  inside : ∀ change ∈ prdt.stores call.entries, change.1 < prdt.entryCount.toNat
  result : (prdt.setUpDma call.entries call.channel call.operation call.cmd).1 = .ok () ↔
    call.entries.length ≤ prdt.entryCount.toNat

/-- The list fits, and no entry before its last one carries the flag already. -/
structure Clear (prdt : PRDT) (call : SetUpDma) : Prop where
  fits : call.entries.length ≤ prdt.entryCount.toNat
  unflagged : ∀ i < call.entries.length - 1, (prdt.table i).isLast = false

/-- All lists fit, none is longer than one before it, and the memory of the table carries
no flag before the end of the first one. -/
structure Descending (prdt : PRDT) (calls : List SetUpDma) : Prop where
  fits : ∀ call ∈ calls, call.entries.length ≤ prdt.entryCount.toNat
  lengths : calls.Pairwise fun call later => later.entries.length ≤ call.entries.length
  unflagged : ∀ call ∈ calls.head?, ∀ i < call.entries.length - 1, (prdt.table i).isLast = false

variable {prdt : PRDT} {call : SetUpDma} {entries : List (BitVec 32 × BitVec 32)} {i : Nat}

theorem foldl_entryStores (start : Nat) (table : Nat → PRDEntry) (i : Nat) :
    (entryStores start entries).foldl store table i =
      if start ≤ i then (entries[i - start]?).elim (table i) fun entry =>
        ⟨entry.1, entry.2.setWidth 16, (table i).lastEntry⟩ else table i := by
  induction entries generalizing start table with
  | nil => simp [entryStores]
  | cons entry rest ih =>
    rw [entryStores, List.foldl_cons, List.foldl_cons, ih]
    rcases Nat.lt_trichotomy i start with below | rfl | above
    · rw [if_neg (by omega), if_neg (by omega)]
      simp [store, Nat.ne_of_lt below]
    · rw [if_neg (by omega), if_pos (Nat.le_refl i), Nat.sub_self]
      simp [store, PRDEntry.setAddress, PRDEntry.setSize]
    · obtain ⟨offset, rfl⟩ := Nat.exists_eq_add_of_lt above
      have place : start + offset + 1 - start = offset + 1 := by omega
      have next : start + offset + 1 - (start + 1) = offset := by omega
      rw [if_pos (by omega), if_pos (by omega), place, next, List.getElem?_cons_succ]
      simp [store, Nat.ne_of_gt above]

theorem mem_entryStores {start : Nat} {change : TableStore} (member : change ∈ entryStores start entries) :
    start ≤ change.1 ∧ change.1 < start + entries.length := by
  induction entries generalizing start with
  | nil => cases member
  | cons entry rest ih =>
    rw [List.length_cons]
    rcases List.mem_cons.mp member with rfl | later
    · simp
    · rcases List.mem_cons.mp later with rfl | later
      · simp
      · have bounds := ih later
        omega

theorem exists_entryStore (start : Nat) (inside : i < entries.length) :
    ∃ change ∈ entryStores start entries, change.1 = start + i := by
  induction entries generalizing start i with
  | nil => cases inside
  | cons entry rest ih =>
    cases i with
    | zero => exact ⟨_, List.mem_cons_self, rfl⟩
    | succ i =>
      obtain ⟨change, member, place⟩ := ih (start + 1) (Nat.lt_of_succ_lt_succ inside)
      exact ⟨change, List.mem_cons_of_mem _ (List.mem_cons_of_mem _ member), by omega⟩

theorem table_step : (prdt.step call).table = (prdt.stores call.entries).foldl store prdt.table := by
  unfold step setUpDma
  dsimp only
  split <;> rfl

theorem result_iff : (prdt.setUpDma call.entries call.channel call.operation call.cmd).1 = .ok () ↔
    call.entries.length ≤ prdt.entryCount.toNat := by
  unfold setUpDma
  dsimp only
  split
  · rename_i cut
    exact iff_of_false nofun fun fits => cut (Nat.min_eq_right fits)
  · rename_i whole
    exact iff_of_true rfl (min_eq_right_iff.mp (not_not.mp whole))

section Call

variable (some : 1 ≤ prdt.entryCount.toNat) (nonempty : call.entries ≠ [])

include some nonempty

theorem numToAdd_pos : 0 < prdt.numToAdd call.entries :=
  Nat.lt_min.mpr ⟨some, List.length_pos_iff.mpr nonempty⟩

theorem flag_place :
    (prdt.numToAdd call.entries + (2 ^ 32 - 1)) % 2 ^ 32 = prdt.numToAdd call.entries - 1 := by
  have positive := numToAdd_pos some nonempty
  have bound : prdt.numToAdd call.entries ≤ prdt.entryCount.toNat := Nat.min_le_left ..
  have small := prdt.entryCount.isLt
  omega

/-- An entry after the call. -/
theorem step_table : (prdt.step call).table i =
    let filled := (call.entries[i]?).elim (prdt.table i) fun entry =>
      ⟨entry.1, entry.2.setWidth 16, (prdt.table i).lastEntry⟩
    if i = prdt.numToAdd call.entries - 1 then filled.setLastEntryFlag else filled := by
  have filled (i : Nat) : (entryStores 0 call.entries).foldl store prdt.table i = _ :=
    (foldl_entryStores 0 prdt.table i).trans (if_pos (Nat.zero_le i))
  rw [table_step, stores, List.foldl_append, List.foldl_cons, List.foldl_nil, flag_place some nonempty, store]
  dsimp only
  split
  · rename_i here
    rw [← here, Function.update_self, filled]
    rfl
  · rename_i apart
    rw [Function.update_of_ne apart, filled]
    rfl

theorem isLast_step : ((prdt.step call).table i).isLast =
    (decide (i = prdt.numToAdd call.entries - 1) || (prdt.table i).isLast) := by
  have kept : ((call.entries[i]?).elim (prdt.table i) fun entry =>
      ⟨entry.1, entry.2.setWidth 16, (prdt.table i).lastEntry⟩).lastEntry = (prdt.table i).lastEntry := by
    cases call.entries[i]? <;> rfl
  rw [step_table some nonempty, PRDEntry.isLast, PRDEntry.isLast]
  dsimp only
  split
  · rename_i here
    rw [PRDEntry.setLastEntryFlag, kept, Bits.getLsbD_set (by decide), decide_eq_true here]
    simp
  · rename_i apart
    rw [kept, decide_eq_false apart, Bool.false_or]

/-- One call builds its table if and only if it is clear for it. -/
theorem built_iff : prdt.Built call ↔ prdt.Clear call := by
  have positive := numToAdd_pos some nonempty
  constructor
  · intro built
    have fits : call.entries.length ≤ prdt.entryCount.toNat := by
      by_contra long
      obtain ⟨change, member, place⟩ := exists_entryStore 0 (Nat.lt_of_not_le long)
      have inside := built.inside change (List.mem_append_left _ member)
      omega
    have whole : prdt.numToAdd call.entries = call.entries.length := Nat.min_eq_right fits
    refine ⟨fits, fun i before => ?_⟩
    have after := built.before i (whole ▸ before)
    rw [isLast_step some nonempty, Bool.or_eq_false_iff] at after
    exact after.2
  · rintro ⟨fits, unflagged⟩
    have whole : prdt.numToAdd call.entries = call.entries.length := Nat.min_eq_right fits
    refine ⟨fun i entry found _ => ?_, ?_, fun i before => ?_, ?_, result_iff⟩
    · rw [step_table some nonempty, Option.mem_def.mp found]
      dsimp only
      split <;> exact ⟨rfl, rfl⟩
    · rw [isLast_step some nonempty, decide_eq_true rfl, Bool.true_or]
    · rw [isLast_step some nonempty, unflagged i (whole ▸ before), decide_eq_false (Nat.ne_of_lt before)]
      rfl
    · intro change member
      rcases List.mem_append.mp member with entry | flag
      · have bounds := mem_entryStores entry
        omega
      · rw [List.mem_singleton.mp flag, flag_place some nonempty]
        dsimp only
        omega

end Call

@[simp] theorem entryCount_step : (prdt.step call).entryCount = prdt.entryCount := by
  unfold step setUpDma
  dsimp only
  split <;> rfl

/-- A call leaves its own flag for the calls after it. -/
theorem descending_cons (some : 1 ≤ prdt.entryCount.toNat) (nonempty : call.entries ≠ [])
    {rest : List SetUpDma} :
    prdt.Descending (call :: rest) ↔ prdt.Clear call ∧ (prdt.step call).Descending rest := by
  constructor
  · rintro ⟨fits, lengths, unflagged⟩
    obtain ⟨shorter, lengths⟩ := List.pairwise_cons.mp lengths
    have fit := fits call List.mem_cons_self
    have whole : prdt.numToAdd call.entries = call.entries.length := Nat.min_eq_right fit
    refine ⟨⟨fit, unflagged call rfl⟩, ?_, lengths, ?_⟩
    · intro later member
      rw [entryCount_step]
      exact fits later (List.mem_cons_of_mem _ member)
    · intro later head i before
      have short : later.entries.length ≤ call.entries.length :=
        shorter later (List.mem_of_mem_head? head)
      have apart : i ≠ call.entries.length - 1 := by omega
      rw [isLast_step some nonempty, whole, decide_eq_false apart, Bool.false_or]
      exact unflagged call rfl i (by omega)
  · rintro ⟨⟨fit, unmarked⟩, fits, lengths, unflagged⟩
    have whole : prdt.numToAdd call.entries = call.entries.length := Nat.min_eq_right fit
    have first : ∀ later ∈ rest.head?, later.entries.length ≤ call.entries.length := by
      intro later head
      by_contra longer
      have positive := List.length_pos_iff.mpr nonempty
      have own := unflagged later head (call.entries.length - 1) (by omega)
      rw [isLast_step some nonempty, whole, decide_eq_true rfl] at own
      cases own
    refine ⟨?_, List.pairwise_cons.mpr ⟨?_, lengths⟩, ?_⟩
    · rw [List.forall_mem_cons]
      have same : (prdt.step call).entryCount = prdt.entryCount := entryCount_step
      exact ⟨fit, fun later member => same ▸ fits later member⟩
    · cases rest with
      | nil => exact fun later member => nomatch member
      | cons next rest =>
        have second := first next rfl
        rw [List.forall_mem_cons]
        exact ⟨second, fun later member =>
          Nat.le_trans ((List.pairwise_cons.mp lengths).1 later member) second⟩
    · intro first head
      cases Option.mem_some_iff.mp head
      exact unmarked

/-- Every call of a run builds its table if and only if the lists never get longer. -/
theorem set_up_dma_built_iff (prdt : PRDT) (calls : List SetUpDma) (some : 1 ≤ prdt.entryCount.toNat)
    (nonempty : ∀ call ∈ calls, call.entries ≠ []) :
    EveryStep step Built prdt calls ↔ prdt.Descending calls := by
  induction calls generalizing prdt with
  | nil => exact iff_of_true trivial ⟨nofun, .nil, nofun⟩
  | cons call rest ih =>
    obtain ⟨here, later⟩ := List.forall_mem_cons.mp nonempty
    rw [descending_cons some here, EveryStep, built_iff some here, ih (prdt.step call) (by simpa) later]

/-- Two transfers from a fresh table, the second one shorter. -/
theorem set_up_dma_built_shorter :
    let prdt : PRDT := ⟨fun _ => ⟨0, 0, 0⟩, 4, 0xC000, []⟩
    let long : SetUpDma := ⟨[(0x1000, 512), (0x2000, 512)], .primary, .read, 0⟩
    let short : SetUpDma := ⟨[(0x3000, 0x10200)], .primary, .write, 0⟩
    EveryStep step Built prdt [long, short] :=
  (set_up_dma_built_iff _ _ (by decide) (by simp)).mpr
    ⟨by decide, by decide, by rintro call ⟨⟩; decide⟩

/-- A list of two entries is written to a table of one. -/
theorem set_up_dma_overrun : ¬ Built ⟨fun _ => ⟨0, 0, 0⟩, 1, 0xC000, []⟩
    ⟨[(0x1000, 512), (0x2000, 512)], .primary, .read, 0⟩ := by
  intro built
  exact absurd (built.inside _ (List.mem_append_left _ (List.mem_cons_of_mem _
    (List.mem_cons_of_mem _ List.mem_cons_self)))) (by decide)

end PRDT

end WalnutOs.Klib.Pci
