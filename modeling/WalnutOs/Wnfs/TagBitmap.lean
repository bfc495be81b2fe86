import WalnutOs.Wnfs.Layout

/-! The header of the tag bitmap, `wnfs/tag_bitmap.hh`: the extent is stored in the
bytes 1 to 4 and the magic number in the bytes 2 to 5. -/

namespace WalnutOs.Wnfs.TagBitmapBlock

open WalnutOs.Klib WalnutOs.Lib

def magic : Nat := 0xF00DBABE

def version (block : Sector) : Byte := block ⟨0, by decide⟩

def bitmapExtent (block : Sector) : Nat := getU32 block 1

def hasMagic (block : Sector) : Bool := getU32 block 2 = magic

def setVersion (version : Byte) (block : Sector) : Sector := Window.overwrite block 0 [version]

def setExtentSector (sector : BitVec 32) (block : Sector) : Sector := putU32 1 sector.toNat block

def setMagic (block : Sector) : Sector := putU32 2 magic block

inductive Setter where
  | version (version : Byte)
  | extent (sector : BitVec 32)
  | magic

def apply (block : Sector) : Setter → Sector
  | .version version => setVersion version block
  | .extent sector => setExtentSector sector block
  | .magic => setMagic block

/-- The header as fields that share no bytes: what was set last, if anything. -/
structure Header where
  version : Option Byte
  extent : Option (BitVec 32)
  magic : Bool

def Header.unset : Header := ⟨none, none, false⟩

def Header.apply (header : Header) : Setter → Header
  | .version version => { header with version := some version }
  | .extent sector => { header with extent := some sector }
  | .magic => { header with magic := true }

variable {block : Sector} {header : Header}

/-- Every field that was set is read as it was set last. -/
structure Reads (block : Sector) (header : Header) : Prop where
  version : ∀ version, header.version = some version → TagBitmapBlock.version block = version
  extent : ∀ sector, header.extent = some sector → bitmapExtent block = sector.toNat
  magic : header.magic = true → hasMagic block = true

/-- Where an extent and the magic number are both set, they agree on the bytes 2 to 4. -/
def SharedAgree (header : Header) : Prop :=
  ∀ sector, header.extent = some sector → header.magic = true → sector.toNat / 2 ^ 8 = magic % 2 ^ 24

/-- The bytes of the header: 1 belongs to the extent, 5 to the magic number, and the
three between them to the one of the two that was set last. -/
structure Stored (block : Sector) (header : Header) : Prop where
  version : ∀ version, header.version = some version → TagBitmapBlock.version block = version
  low : ∀ sector, header.extent = some sector → Window.getLE block 1 1 = sector.toNat % 2 ^ 8
  high : header.magic = true → Window.getLE block 5 1 = magic / 2 ^ 24
  shared : header.extent = none ∧ header.magic = false ∨
    (∃ sector, header.extent = some sector ∧ Window.getLE block 2 3 = sector.toNat / 2 ^ 8) ∨
    header.magic = true ∧ Window.getLE block 2 3 = magic % 2 ^ 24

theorem Stored.unset (block : Sector) : Stored block .unset :=
  ⟨nofun, nofun, nofun, .inl ⟨rfl, rfl⟩⟩

theorem version_putU32 {place value : Nat} (behind : 0 < place) :
    version (putU32 place value block) = version block :=
  Window.overwrite_of_outside (.inl behind)

theorem getLE_setVersion {place width : Nat} {new : Byte} (behind : 0 < place) :
    Window.getLE (setVersion new block) place width = Window.getLE block place width :=
  Window.getLE_overwrite_of_outside (.inr behind)

theorem Stored.apply (stored : Stored block header) (setter : Setter) :
    Stored (apply block setter) (header.apply setter) := by
  cases setter with
  | version new =>
    refine ⟨fun version set => ?_, fun sector set => ?_, fun set => ?_, ?_⟩
    · cases set
      rfl
    · exact (getLE_setVersion (by decide)).trans (stored.low sector set)
    · exact (getLE_setVersion (by decide)).trans (stored.high set)
    · have same : Window.getLE (setVersion new block) 2 3 = Window.getLE block 2 3 :=
        getLE_setVersion (by decide)
      rw [TagBitmapBlock.apply, same]
      exact stored.shared
  | extent sector =>
    have bound := sector.isLt
    have part (skip part : Nat) (within : skip + part ≤ 4) :
        Window.getLE (setExtentSector sector block) (1 + skip) part =
          sector.toNat / 256 ^ skip % 256 ^ part :=
      Window.getLE_putLE_of_within within (by decide)
    refine ⟨fun version set => ?_, fun other set => ?_, fun set => ?_, .inr (.inl ⟨sector, rfl, ?_⟩)⟩
    · exact (version_putU32 (by decide)).trans (stored.version version set)
    · cases set
      have low := part 0 1 (by decide)
      rwa [Nat.pow_zero, Nat.div_one] at low
    · exact (Window.getLE_putLE_of_outside (.inr (by decide))).trans (stored.high set)
    · have middle := part 1 3 (by decide)
      rw [Nat.mod_eq_of_lt (by omega)] at middle
      exact middle
  | magic =>
    have part (skip part : Nat) (within : skip + part ≤ 4) :
        Window.getLE (setMagic block) (2 + skip) part = magic / 256 ^ skip % 256 ^ part :=
      Window.getLE_putLE_of_within within (by decide)
    refine ⟨fun version set => ?_, fun sector set => ?_, fun _ => part 3 1 (by decide), .inr (.inr ⟨rfl, ?_⟩)⟩
    · exact (version_putU32 (by decide)).trans (stored.version version set)
    · exact (Window.getLE_putLE_of_outside (.inl (by decide))).trans (stored.low sector set)
    · have middle := part 0 3 (by decide)
      rwa [Nat.pow_zero, Nat.div_one] at middle

theorem Stored.foldl (stored : Stored block header) (setters : List Setter) :
    Stored (setters.foldl TagBitmapBlock.apply block) (setters.foldl Header.apply header) := by
  induction setters generalizing block header with
  | nil => exact stored
  | cons setter rest ih => exact ih (stored.apply setter)

theorem bitmapExtent_eq (block : Sector) :
    bitmapExtent block = Window.getLE block 1 1 + 2 ^ 8 * Window.getLE block 2 3 :=
  Window.getLE_add block 1 1 3

theorem hasMagic_iff : hasMagic block = true ↔
    Window.getLE block 2 3 + 2 ^ 24 * Window.getLE block 5 1 = magic := by
  have word : getU32 block 2 = Window.getLE block 2 3 + 2 ^ 24 * Window.getLE block 5 1 :=
    Window.getLE_add block 2 3 1
  rw [hasMagic, decide_eq_true_eq, word]

/-- What is stored is read as it was set exactly if the shared bytes agree. -/
theorem Stored.agrees_iff (stored : Stored block header) : Reads block header ↔ SharedAgree header := by
  have number : magic % 2 ^ 24 + 2 ^ 24 * (magic / 2 ^ 24) = magic := Nat.mod_add_div _ _
  constructor
  · intro reads sector extent set
    have read := reads.extent sector extent
    have found := hasMagic_iff.mp (reads.magic set)
    rw [bitmapExtent_eq, stored.low sector extent] at read
    rw [stored.high set] at found
    omega
  · intro agrees
    refine ⟨stored.version, fun sector extent => ?_, fun set => ?_⟩
    · have middle : Window.getLE block 2 3 = sector.toNat / 2 ^ 8 := by
        rcases stored.shared with ⟨none, -⟩ | ⟨other, same, shared⟩ | ⟨set, shared⟩
        · cases none.symm.trans extent
        · cases same.symm.trans extent
          exact shared
        · rw [shared, agrees sector extent set]
      rw [bitmapExtent_eq, stored.low sector extent, middle]
      exact Nat.mod_add_div _ _
    · have middle : Window.getLE block 2 3 = magic % 2 ^ 24 := by
        rcases stored.shared with ⟨-, unset⟩ | ⟨sector, extent, shared⟩ | ⟨-, shared⟩
        · cases unset.symm.trans set
        · rw [shared, agrees sector extent set]
        · exact shared
      rw [hasMagic_iff, middle, stored.high set]
      exact number

/-- After any calls of the setters, the getters return what was set last exactly if no
extent was set besides the magic number, or the upper bytes of the last one are the
lower ones of the magic number. -/
theorem setters_reads_iff (block : Sector) (setters : List Setter) :
    Reads (setters.foldl apply block) (setters.foldl Header.apply .unset) ↔
      SharedAgree (setters.foldl Header.apply .unset) :=
  ((Stored.unset block).foldl setters).agrees_iff

/-- An extent that is set after the magic number takes the place of it. -/
theorem not_setters_reads : ¬∀ (block : Sector) (setters : List Setter),
    Reads (setters.foldl apply block) (setters.foldl Header.apply .unset) := by
  intro claim
  have found : hasMagic (setExtentSector 5 (setMagic fun _ => 0)) = true :=
    (claim (fun _ => 0) [.magic, .extent 5]).magic rfl
  have lost : hasMagic (setExtentSector 5 (setMagic fun _ => 0)) = false := by decide
  rw [lost] at found
  cases found

end WalnutOs.Wnfs.TagBitmapBlock
