import WalnutOs.Lib.Search
import WalnutOs.Wnfs.FileContents

/-! The bitmap of the inodes and their records, as bits and bytes of the disk,
and what `create_file` changes in them. -/

namespace WalnutOs.Wnfs

open WalnutOs.Klib WalnutOs.Lib

section FirstClear

variable {bitmap : Sector} {i : Fin 512} {j : Fin 8}

theorem getLsbD_of_firstClear (clear : firstClear bitmap = some (i, j)) :
    (bitmap i).getLsbD j.val = false := by
  obtain ⟨index, -, found⟩ := List.exists_of_findSome?_eq_some clear
  split at found
  · cases found
  · obtain ⟨bit, first, same⟩ := Option.map_eq_some_iff.mp found
    obtain ⟨rfl, rfl⟩ := Prod.mk.inj same
    simpa using List.find?_some first

/-- A byte in which the search finds no bit has none that is clear. -/
theorem getLsbD_of_byteFull {byte : Byte} {index : Fin 512} (bit : Fin 8)
    (full : (if byte = 0xFF then none else
      ((List.finRange 8).find? fun j : Fin 8 => !byte.getLsbD j.val).map fun j => (index, j)) = none) :
    byte.getLsbD bit.val = true := by
  split at full
  · rename_i ones
    subst ones
    revert bit
    decide
  · simpa using List.find?_eq_none.mp (Option.map_eq_none_iff.mp full) bit (List.mem_finRange bit)

theorem getLsbD_of_firstClear_none (full : firstClear bitmap = none) (i : Fin 512) (j : Fin 8) :
    (bitmap i).getLsbD j.val = true :=
  getLsbD_of_byteFull j (List.findSome?_eq_none_iff.mp full i (List.mem_finRange i))

theorem getLsbD_before_firstClear (clear : firstClear bitmap = some (i, j)) {byte : Fin 512} {bit : Fin 8}
    (below : byte.val * 8 + bit.val < i.val * 8 + j.val) : (bitmap byte).getLsbD bit.val = true := by
  obtain ⟨index, found, earlier⟩ := Search.exists_of_findSome?_finRange clear
  split at found
  · cases found
  · obtain ⟨first, bits, same⟩ := Option.map_eq_some_iff.mp found
    obtain ⟨rfl, rfl⟩ := Prod.mk.inj same
    rcases Nat.lt_trichotomy byte.val index.val with before | here | after
    · exact getLsbD_of_byteFull bit (earlier byte before)
    · obtain rfl : byte = index := Fin.ext here
      simpa using (Search.find?_finRange_eq_some.mp bits).2 bit (by omega)
    · omega

end FirstClear

namespace INode

variable {offset : Nat} {name : List Byte} {sector : Sector}

theorem setName_of_short (short : name.length ≤ nameSize) : setName offset name sector =
    Window.overwrite sector (offset + nameLen) (BitVec.ofNat 8 name.length :: name) :=
  if_neg (Nat.not_lt.mpr short)

/-- A new inode is stored within its 128 bytes. -/
theorem initial_of_outside {idx : Fin 512}
    (outside : idx.val < offset ∨ offset + sizeofINode ≤ idx.val) :
    initial offset name sector idx = sector idx := by
  have fields (fields : List (Nat × Nat)) (within : ∀ field ∈ fields, field.1 + 4 ≤ nameLen)
      (sector : Sector) : fields.foldl
        (fun sector field => putU32 (offset + field.1) field.2 sector) sector idx = sector idx := by
    induction fields generalizing sector with
    | nil => rfl
    | cons field rest ih =>
      have before := within field List.mem_cons_self
      rw [List.foldl_cons, ih (fun field member => within field (List.mem_cons_of_mem _ member)), putU32,
        Window.putLE, Window.overwrite_of_outside]
      rw [Window.length_bytesLE]
      unfold nameLen sizeofINode at *
      omega
  have named : setName offset name (initialFields.foldl
      (fun sector field => putU32 (offset + field.1) field.2 sector) sector) idx =
      initialFields.foldl (fun sector field => putU32 (offset + field.1) field.2 sector) sector idx := by
    unfold setName
    split
    · rfl
    · rename_i short
      refine Window.overwrite_of_outside ?_
      rw [List.length_cons]
      unfold nameLen sizeofINode nameSize at *
      omega
  rw [initial, named, fields initialFields Contents.initialFields_lt]

/-- A name that fits is in the new inode, after its length. -/
theorem slice_initial {id : Nat} (short : name.length ≤ nameSize) :
    Window.slice (initial (inodeSectorOffset id) name sector) (inodeSectorOffset id + nameLen)
      (name.length + 1) = BitVec.ofNat 8 name.length :: name := by
  have inside : inodeSectorOffset id + nameLen + (name.length + 1) ≤ 512 := by
    rw [inodeSectorOffset_eq]
    unfold nameLen
    unfold nameSize at short
    omega
  rw [initial, setName_of_short short]
  exact Window.slice_overwrite inside

end INode

namespace Contents

variable {disk : Contents} {id other : Nat} {name : List Byte} {i : Fin 512} {j : Fin 8}

/-- The bit of an inode in the bitmap. -/
def allocated (disk : Contents) (id : Nat) : Bool :=
  (disk (inodeBitmapStartSector + id / 8 / sectorSize) (sectorOffset (id / 8))).getLsbD (id % 8)

/-- The inodes whose bits are in the first sector of the bitmap. -/
def searchedINodes : Nat := sectorSize * 8

def Full (disk : Contents) : Prop := ∀ id < searchedINodes, disk.allocated id = true

/-- The record of an inode has size 0, no direct or indirect block, and the name. -/
structure Initialised (disk : Contents) (id : Nat) (name : List Byte) : Prop where
  zero : ∀ place ∈ INode.zeroFields, disk.field id place = 0
  named : Window.slice (disk (inodeSector id)) (inodeSectorOffset id + INode.nameLen) (name.length + 1) =
    BitVec.ofNat 8 name.length :: name

/-- The lowest clear bit is set and its record initialised, and nothing else changes. -/
structure Allocates (name : List Byte) (before after : Contents) (id : Nat) : Prop where
  searched : id < searchedINodes
  clear : before.allocated id = false
  lowest : ∀ other < id, before.allocated other = true
  bits : ∀ other < numINodes, after.allocated other = (before.allocated other || decide (other = id))
  record : after.Initialised id name
  others : ∀ sector idx, sector ≠ inodeBitmapStartSector →
    (sector = inodeSector id →
      idx.val < inodeSectorOffset id ∨ inodeSectorOffset id + sizeofINode ≤ idx.val) →
    after sector idx = before sector idx

/-- The place of a searched bit. -/
theorem allocated_bit (disk : Contents) (i : Fin 512) (j : Fin 8) :
    disk.allocated (i.val * 8 + j.val) = (disk inodeBitmapStartSector i).getLsbD j.val := by
  have byte : (i.val * 8 + j.val) / 8 = i.val := by omega
  have bit : (i.val * 8 + j.val) % 8 = j.val := by omega
  have first : i.val / sectorSize = 0 := Nat.div_eq_of_lt i.isLt
  have place : sectorOffset i.val = i := Fin.ext (Nat.mod_eq_of_lt i.isLt)
  rw [allocated, byte, bit, first, place, Nat.add_zero]

theorem allocated_of_searched (searched : id < searchedINodes) : ∃ (i : Fin 512) (j : Fin 8),
    id = i.val * 8 + j.val ∧ ∀ disk : Contents,
      disk.allocated id = (disk inodeBitmapStartSector i).getLsbD j.val := by
  unfold searchedINodes sectorSize at searched
  have place : id = (⟨id / 8, by omega⟩ : Fin 512).val * 8 + (⟨id % 8, by omega⟩ : Fin 8).val := by
    simp only
    omega
  refine ⟨⟨id / 8, by omega⟩, ⟨id % 8, by omega⟩, place, fun disk => ?_⟩
  rw [← allocated_bit, ← place]

/-- The bits make up the first sector of the bitmap. -/
theorem bitmap_ext {after : Contents}
    (bits : ∀ id < searchedINodes, after.allocated id = disk.allocated id) :
    after inodeBitmapStartSector = disk inodeBitmapStartSector := by
  funext i
  refine BitVec.eq_of_getLsbD_eq fun j inside => ?_
  have bit := bits (i.val * 8 + j) (by unfold searchedINodes sectorSize; omega)
  rwa [allocated_bit after i ⟨j, inside⟩, allocated_bit disk i ⟨j, inside⟩] at bit

/-- A bit past the first sector of the bitmap. -/
theorem allocated_of_unsearched {after : Contents} (unsearched : ¬ id < searchedINodes)
    (valid : id < numINodes)
    (same : after (inodeBitmapStartSector + 1) = disk (inodeBitmapStartSector + 1)) :
    after.allocated id = disk.allocated id := by
  have second : id / 8 / sectorSize = 1 := by
    unfold searchedINodes sectorSize numINodes at *
    omega
  rw [allocated, allocated, second, same]

theorem allocated_of_full (full : firstClear (disk inodeBitmapStartSector) = none)
    (searched : id < searchedINodes) : disk.allocated id = true := by
  obtain ⟨i, j, -, bit⟩ := allocated_of_searched searched
  rw [bit]
  exact getLsbD_of_firstClear_none full i j

/-- The contents when only the record of the new inode has been written. -/
def recorded (name : List Byte) (i : Fin 512) (j : Fin 8) (disk : Contents) : Contents :=
  Function.update disk (inodeSector (i.val * 8 + j.val))
    (INode.initial (inodeSectorOffset (i.val * 8 + j.val)) name (disk (inodeSector (i.val * 8 + j.val))))

/-- The bits of the bitmap come before the records. -/
theorem recorded_bitmap {sector : Nat} (low : sector ≤ inodeBitmapStartSector + 1) :
    recorded name i j disk sector = disk sector := by
  have place := inodeSector_eq (i.val * 8 + j.val)
  rw [inodeBitmapStartSector_eq] at low
  exact Function.update_of_ne (by omega) ..

theorem recorded_of_outside {sector : Nat} {idx : Fin 512}
    (outside : sector = inodeSector (i.val * 8 + j.val) →
      idx.val < inodeSectorOffset (i.val * 8 + j.val) ∨
        inodeSectorOffset (i.val * 8 + j.val) + sizeofINode ≤ idx.val) :
    recorded name i j disk sector idx = disk sector idx := by
  rw [recorded, Function.update_apply]
  split
  · rename_i same
    subst same
    exact INode.initial_of_outside (outside rfl)
  · rfl

theorem allocated_recorded (valid : other < numINodes) :
    (recorded name i j disk).allocated other = disk.allocated other := by
  have low : other / 8 / sectorSize ≤ 1 := by
    unfold numINodes at valid
    unfold sectorSize
    omega
  rw [allocated, allocated, recorded_bitmap (Nat.add_le_add_left low _)]

theorem created_eq : created name i j disk =
    Function.update (recorded name i j disk) inodeBitmapStartSector
      (Function.update (disk inodeBitmapStartSector) i
        (disk inodeBitmapStartSector i ||| 1#8 <<< j.val)) := by
  have same : recorded name i j disk inodeBitmapStartSector = disk inodeBitmapStartSector :=
    recorded_bitmap (Nat.le_succ _)
  change Function.update (recorded name i j disk) inodeBitmapStartSector
    (Function.update (recorded name i j disk inodeBitmapStartSector) i _) = _
  rw [same]

theorem created_of_ne {sector : Nat} (elsewhere : sector ≠ inodeBitmapStartSector) :
    created name i j disk sector = recorded name i j disk sector := by
  rw [created_eq, Function.update_of_ne elsewhere]

theorem allocated_created (valid : other < numINodes) : (created name i j disk).allocated other =
    (disk.allocated other || decide (other = i.val * 8 + j.val)) := by
  by_cases searched : other < searchedINodes
  · obtain ⟨byte, bit, rfl, bits⟩ := allocated_of_searched searched
    rw [bits, bits, created_eq, Function.update_self, Function.update_apply]
    by_cases same : byte = i
    · subst same
      rw [if_pos rfl, Bits.getLsbD_set bit.isLt]
      congr 1
      exact decide_eq_decide.mpr (by omega)
    · have different : ¬ byte.val * 8 + bit.val = i.val * 8 + j.val := by
        have apart := Fin.val_ne_of_ne same
        omega
      rw [if_neg same, decide_eq_false different, Bool.or_false]
  · have different : ¬ other = i.val * 8 + j.val := by
      unfold searchedINodes sectorSize at searched
      omega
    rw [decide_eq_false different, Bool.or_false]
    refine allocated_of_unsearched searched valid ?_
    rw [created_of_ne (by decide), recorded_bitmap (Nat.le_refl _)]

theorem initialised_created (short : name.length ≤ INode.nameSize) :
    (created name i j disk).Initialised (i.val * 8 + j.val) name := by
  refine ⟨fun place zero => field_created_new zero, ?_⟩
  rw [created_of_ne (inodeBitmapStartSector_lt _).ne', recorded, Function.update_self]
  exact INode.slice_initial short

/-- What `create_file` changes when `(i, j)` is the first clear bit. -/
theorem allocates_created (short : name.length ≤ INode.nameSize)
    (clear : firstClear (disk inodeBitmapStartSector) = some (i, j)) :
    Allocates name disk (created name i j disk) (i.val * 8 + j.val) where
  searched := by
    unfold searchedINodes sectorSize
    omega
  clear := by rw [allocated_bit, getLsbD_of_firstClear clear]
  lowest := by
    intro other below
    have searched : other < searchedINodes := by
      unfold searchedINodes sectorSize
      omega
    obtain ⟨byte, bit, rfl, bits⟩ := allocated_of_searched searched
    rw [bits]
    exact getLsbD_before_firstClear clear below
  bits := fun other valid => allocated_created valid
  record := initialised_created short
  others := by
    intro sector idx elsewhere outside
    rw [created_of_ne elsewhere]
    exact recorded_of_outside outside

/-- The 128 bytes of an inode are the same. -/
def SameRecord (before after : Contents) (id : Nat) : Prop :=
  ∀ idx : Fin 512, inodeSectorOffset id ≤ idx.val → idx.val < inodeSectorOffset id + sizeofINode →
    after (inodeSector id) idx = before (inodeSector id) idx

theorem zeroFields_lt : ∀ place ∈ INode.zeroFields, place + 4 ≤ sizeofINode := by decide

theorem Initialised.of_same {before after : Contents} (record : before.Initialised id name)
    (short : name.length ≤ INode.nameSize) (same : SameRecord before after id) :
    after.Initialised id name := by
  constructor
  · intro place zero
    have within := zeroFields_lt place zero
    rw [← record.zero place zero]
    exact Window.getLE_congr fun idx first last => same idx (by omega) (by omega)
  · rw [← record.named]
    have start := inodeSectorOffset_eq id
    unfold INode.nameSize at short
    refine Window.slice_congr ?_ fun idx first last => same idx (by omega) ?_
    · unfold INode.nameLen
      omega
    · unfold INode.nameLen sizeofINode at *
      omega

/-- The records of two inodes do not overlap. -/
theorem sameRecord_of_ne {before after : Contents} (different : other ≠ id)
    (others : ∀ sector idx, sector ≠ inodeBitmapStartSector →
      (sector = inodeSector id →
        idx.val < inodeSectorOffset id ∨ inodeSectorOffset id + sizeofINode ≤ idx.val) →
      after sector idx = before sector idx) : SameRecord before after other := by
  intro idx first last
  refine others _ idx (inodeBitmapStartSector_lt other).ne' fun same => ?_
  rw [inodeSector_eq, inodeSector_eq] at same
  rw [inodeSectorOffset_eq] at first last ⊢
  unfold sizeofINode at *
  omega

theorem initialised_recorded (short : name.length ≤ INode.nameSize) :
    (recorded name i j disk).Initialised (i.val * 8 + j.val) name := by
  have created : (created name i j disk).Initialised (i.val * 8 + j.val) name := initialised_created short
  refine created.of_same short fun idx _ _ => ?_
  rw [created_of_ne (inodeBitmapStartSector_lt _).ne']

end Contents

end WalnutOs.Wnfs
