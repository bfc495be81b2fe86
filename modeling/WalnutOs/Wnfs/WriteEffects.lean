import WalnutOs.Wnfs.WriteFile

/-! What a call of `write_to_file` may change in the sector of the inode and of
the data, and on which records and places it keeps to that. -/

namespace WalnutOs.Wnfs

open WalnutOs.Klib WalnutOs.Lib

variable {contents after kept : Contents} {buffer : List Byte} {id position count number : Nat}
variable {first second third read : Sector}

/-- The bytes of an inode's sector that a write may change: those of the inode's size, and those of
its direct block for the place if there is one. -/
def MayChange (id position : Nat) (byte : Fin 512) : Prop :=
  inodeSectorOffset id + INode.sizeLower32 ≤ byte.val ∧
      byte.val < inodeSectorOffset id + INode.sizeLower32 + 4 ∨
    position / sectorSize < INode.numDirectBlocks ∧
      inodeSectorOffset id + INode.directBlock (position / sectorSize) ≤ byte.val ∧
      byte.val < inodeSectorOffset id + INode.directBlock (position / sectorSize) + 4

/-- All other bytes of the inode's sector are the same. -/
def Framed (id position : Nat) (before after : Sector) : Prop :=
  ∀ byte, ¬MayChange id position byte → after byte = before byte

namespace Contents

/-- The sector of the data: the one that the entry for the place leads to, or comes to lead to if it
was not there. -/
def dataSector (before after : Contents) (id position : Nat) : Nat :=
  fileSector (if before.block id (position / sectorSize) = 0 then after else before) id position

/-- The sectors of the disk that are neither the inode's nor that of the data are the same. The bitmap
is another one if an entry is to be made. -/
def Elsewhere (before after : Contents) (id position : Nat) : Prop :=
  ∀ sector, sector ≠ inodeSector id → sector ≠ before.dataSector after id position →
    (before.block id (position / sectorSize) = 0 → sector ≠ blockGroupSector) →
    after sector = before sector

/-- What a call that reports `count` bytes leaves: the bytes are as many as fit into the sector, the
size covers them, and in the sector of the data they and nothing else are stored. -/
structure WrittenRight (before : Contents) (buffer : List Byte) (id position count : Nat)
    (after : Contents) : Prop where
  fits : count = min buffer.length (sectorSize - position % sectorSize)
  size : after.fileSize id = max (before.fileSize id) (position + count)
  data : after (before.dataSector after id position) = Window.overwrite
    (before (before.dataSector after id position)) (position % sectorSize) (buffer.take count)

/-- What a call may come to. -/
structure Right (before : Contents) (buffer : List Byte) (id position : Nat) (result : Except IOError Nat)
    (after : Contents) : Prop where
  framed : Framed id position (before (inodeSector id)) (after (inodeSector id))
  elsewhere : before.Elsewhere after id position
  written : ∀ count, result = .ok count → WrittenRight before buffer id position count after

/-- Whatever the cache has, a call comes to an end and changes only what it should. -/
def WritesRight (contents : Contents) (buffer : List Byte) (id position : Nat) : Prop :=
  ∀ world : World, world.AtRest → world.drive.sectors = contents →
    ∃ result after, writeToFile buffer id position world = .ok (result, after) ∧
      contents.Right buffer id position result after.drive.sectors

/-- An entry that leads to the inode's own sector does no harm if the bytes of the buffer are what the
sector may have there. -/
def Harmless (contents : Contents) (buffer : List Byte) (id position : Nat) : Prop :=
  let data := storeBytes buffer position (contents (inodeSector id))
  Framed id position (contents (inodeSector id)) data ∧
    getU32 data (inodeSectorOffset id + INode.sizeLower32) =
      max (contents.fileSize id) (writeEnd buffer position)

/-- An entry that leads to a sector past those that transfers address does no harm if that sector has
the bytes of the buffer already, and so has the one that is addressed instead, unless it is the
inode's own. In place of the number of an empty buffer all of the sector has to be written. -/
def Repeats (contents : Contents) (buffer : List Byte) (id position : Nat) : Prop :=
  let number := contents.sectorNumber id position
  storeBytes buffer position (contents (contents.fileSector id position)) =
      contents (contents.fileSector id position) ∧
    (diskSector number ≠ inodeSector id →
      storeBytes buffer position (contents (diskSector number)) = contents (diskSector number) ∧
      (number ≠ noSector ∨ position % sectorSize = 0 ∧ 512 ≤ buffer.length))

/-- A place of a file to write: past all blocks, so that it is refused; or without a block, and not
the place past the direct blocks unless there is none to allocate; or with a block whose sector is
one that transfers address, and not the inode's own. -/
def Writable (contents : Contents) (buffer : List Byte) (id position : Nat) : Prop :=
  INode.numDirectBlocks < position / sectorSize ∨
  contents.block id (position / sectorSize) = 0 ∧ (position / sectorSize < INode.numDirectBlocks ∨
    NoneCounted 2 (contents blockGroupSector) 512) ∨
  contents.block id (position / sectorSize) ≠ 0 ∧
    if contents.fileSector id position < 2 ^ 23 then
      contents.fileSector id position = inodeSector id → contents.Harmless buffer id position
    else contents.Repeats buffer id position

end Contents

open Contents

theorem Framed.refl (before : Sector) : Framed id position before before := fun _ _ => rfl

theorem Framed.trans (before : Framed id position first second) (after : Framed id position second third) :
    Framed id position first third :=
  fun byte fixed => (after byte fixed).trans (before byte fixed)

/-- A field that may change is stored. -/
theorem Framed.putU32 {place value : Nat}
    (may : ∀ byte : Fin 512, place ≤ byte.val → byte.val < place + 4 → MayChange id position byte) :
    Framed id position first (Wnfs.putU32 place value first) := by
  intro byte fixed
  refine Window.overwrite_of_outside ?_
  rw [Window.length_bytesLE]
  by_contra inside
  obtain ⟨first, last⟩ := not_or.mp inside
  exact fixed (may byte (Nat.not_lt.mp first) (Nat.not_le.mp last))

theorem Framed.grow (contents : Contents) (written : Nat) : Framed id position (contents (inodeSector id))
    (Contents.grow id written contents (inodeSector id)) := by
  unfold Contents.grow
  split
  · rw [setField, Function.update_self]
    exact putU32 fun byte first last => .inl ⟨first, last⟩
  · exact .refl _

/-- A field beside those that may change is the same. -/
theorem Framed.getU32 {place : Nat} (framed : Framed id position first second)
    (fixed : ∀ byte : Fin 512, place ≤ byte.val → byte.val < place + 4 → ¬MayChange id position byte) :
    Wnfs.getU32 second place = Wnfs.getU32 first place :=
  Window.getLE_congr fun byte first last => framed byte (fixed byte first last)

namespace Contents

theorem take_bytesToWrite (buffer : List Byte) (position : Nat) :
    buffer.take (bytesToWrite buffer position).length = bytesToWrite buffer position := by
  rw [length_bytesToWrite, bytesToWrite, List.take_eq_take_iff]
  omega

/-- What a call that stores the bytes has to leave. -/
theorem right_iff : contents.Right buffer id position (.ok (bytesToWrite buffer position).length) after ↔
    Framed id position (contents (inodeSector id)) (after (inodeSector id)) ∧
      contents.Elsewhere after id position ∧
      after.fileSize id = max (contents.fileSize id) (writeEnd buffer position) ∧
      after (contents.dataSector after id position) =
        storeBytes buffer position (contents (contents.dataSector after id position)) := by
  constructor
  · rintro ⟨framed, elsewhere, right⟩
    obtain ⟨-, size, data⟩ := right _ rfl
    rw [take_bytesToWrite] at data
    exact ⟨framed, elsewhere, size, data⟩
  · rintro ⟨framed, elsewhere, size, data⟩
    refine ⟨framed, elsewhere, ?_⟩
    rintro count ⟨⟩
    refine ⟨length_bytesToWrite buffer position, size, ?_⟩
    rw [take_bytesToWrite]
    exact data

theorem dataSector_there (there : contents.block id (position / sectorSize) ≠ 0) (after : Contents) :
    contents.dataSector after id position = contents.fileSector id position := by
  rw [dataSector, if_neg there]

/-- The sector of an inode is not addressed by its own number if it is in place of another sector. -/
theorem sectorNumber_ne_of_far (valid : id < numINodes) (far : 2 ^ 23 ≤ contents.fileSector id position) :
    contents.sectorNumber id position ≠ inodeSector id := by
  have entry : contents.block id (position / sectorSize) < 2 ^ 32 := Window.getLE_lt _ _ 4
  have bounds := sectorAt_bounds (contents.block id (position / sectorSize)) position
  have low := inodeSector_lt valid
  have first := inodeSector_eq id
  rw [blockStartSector_eq] at low
  rw [sectorNumber]
  unfold fileSector at *
  omega

theorem diskSector_ne_of_far {sector : Nat} (far : 2 ^ 23 ≤ sector) (number : Nat) :
    diskSector number ≠ sector := by
  unfold diskSector byteOffset sectorSize
  omega

section Stored

variable (few : position / sectorSize ≤ INode.numDirectBlocks)

section Apart

variable (ready : Contents) (buffer : List Byte) (position : Nat) (read : Sector)
variable (apart : diskSector number ≠ inodeSector id)

include apart

theorem stored_of_ne {sector : Nat} (own : sector ≠ inodeSector id) (other : sector ≠ diskSector number) :
    ready.stored buffer id position number read sector = ready sector := by
  rw [Contents.stored, if_neg (fun both => apart both.1), grow_of_ne own, Function.update_of_ne other]

theorem stored_target : ready.stored buffer id position number read (diskSector number) =
    storeBytes buffer position read := by
  rw [Contents.stored, if_neg (fun both => apart both.1), grow_of_ne apart, Function.update_self]

end Apart

include few

/-- The end of what is written has 32 bits. -/
theorem written_lt (buffer : List Byte) : writeEnd buffer position < 2 ^ 32 := by
  rw [← written_size few]
  exact Nat.mod_lt _ (by decide)

/-- In the inode's sector only the size is brought up to date. -/
theorem stored_inode (buffer : List Byte) (read : Sector) {ready : Contents}
    (apart : diskSector number ≠ inodeSector id)
    (framed : Framed id position (contents (inodeSector id)) (ready (inodeSector id)))
    (size : ready.fileSize id = contents.fileSize id) :
    Framed id position (contents (inodeSector id))
        (ready.stored buffer id position number read (inodeSector id)) ∧
      (ready.stored buffer id position number read).fileSize id =
        max (contents.fileSize id) (writeEnd buffer position) := by
  rw [Contents.stored, if_neg (fun both => apart both.1)]
  generalize kept_eq : Function.update ready (diskSector number) (storeBytes buffer position read) = kept
  have inode : kept (inodeSector id) = ready (inodeSector id) := by
    rw [← kept_eq, Function.update_of_ne apart.symm]
  have covered : fileSize kept id = contents.fileSize id := by
    rw [fileSize, field, inode, ← size, fileSize, field]
  rw [fileSize_grow (written_lt few buffer), covered]
  rw [← inode] at framed
  exact ⟨framed.trans (.grow _ _), rfl⟩

/-- Bytes that an entry leads to the inode's own sector with are right if they do no harm there. -/
theorem right_own_iff (own : contents.fileSector id position = inodeSector id)
    (small : inodeSector id < 2 ^ 23) (there : contents.block id (position / sectorSize) ≠ 0) :
    contents.Right buffer id position (.ok (bytesToWrite buffer position).length)
        (contents.stored buffer id position (inodeSector id) (contents (inodeSector id))) ↔
      contents.Harmless buffer id position := by
  have written := written_lt few buffer
  rw [right_iff, dataSector_there there, own]
  unfold Harmless Contents.stored
  dsimp only
  rw [diskSector_of_lt small, if_neg (fun both => both.2 rfl), fileSize_grow written]
  generalize data_eq : storeBytes buffer position (contents (inodeSector id)) = data
  generalize kept_eq : Function.update contents (inodeSector id) data = kept
  have inode : kept (inodeSector id) = data := by rw [← kept_eq, Function.update_self]
  have size : getU32 data (inodeSectorOffset id + INode.sizeLower32) = fileSize kept id := by
    rw [fileSize, field, inode]
  rw [size]
  constructor
  · rintro ⟨framed, -, covered, last⟩
    have grows : fileSize (grow id (writeEnd buffer position) kept) id = _ := fileSize_grow written
    rw [fileSize, field, last, size] at grows
    exact ⟨last ▸ framed, grows.trans covered⟩
  · rintro ⟨framed, covered⟩
    have covers : writeEnd buffer position ≤ fileSize kept id := covered ▸ Nat.le_max_right _ _
    have last : grow id (writeEnd buffer position) kept = kept := if_neg (Nat.not_lt.mpr covers)
    rw [last, inode, Nat.max_eq_left covers]
    refine ⟨framed, fun sector elsewhere _ _ => ?_, covered, rfl⟩
    rw [← kept_eq, Function.update_of_ne elsewhere]

/-- Bytes whose entry leads past the sectors that are addressed are right if they change nothing. -/
theorem right_far_iff (valid : id < numINodes) (there : contents.block id (position / sectorSize) ≠ 0)
    (far : 2 ^ 23 ≤ contents.fileSector id position) :
    contents.Right buffer id position (.ok (bytesToWrite buffer position).length)
        (contents.stored buffer id position (contents.sectorNumber id position) read) ↔
      storeBytes buffer position (contents (contents.fileSector id position)) =
          contents (contents.fileSector id position) ∧
        (diskSector (contents.sectorNumber id position) ≠ inodeSector id →
          storeBytes buffer position read = contents (diskSector (contents.sectorNumber id position))) := by
  have numbered := sectorNumber_ne_of_far valid far
  have addressed := (diskSector_ne_of_far far (contents.sectorNumber id position)).symm
  have beyond : contents.fileSector id position ≠ inodeSector id := by
    have low := inodeSector_lt valid
    rw [blockStartSector_eq] at low
    omega
  rw [right_iff, dataSector_there there]
  by_cases own : diskSector (contents.sectorNumber id position) = inodeSector id
  · have grown : contents.stored buffer id position (contents.sectorNumber id position) read =
        grow id (writeEnd buffer position) contents := by
      rw [Contents.stored, if_pos ⟨own, numbered⟩]
    rw [grown, fileSize_grow (written_lt few buffer), grow_of_ne beyond]
    constructor
    · rintro ⟨-, -, -, same⟩
      exact ⟨same.symm, fun clash => absurd own clash⟩
    · rintro ⟨same, -⟩
      exact ⟨.grow _ _, fun sector elsewhere _ _ => grow_of_ne elsewhere, rfl, same.symm⟩
  · obtain ⟨framed, size⟩ := stored_inode few buffer read own
      (.refl (contents (inodeSector id))) rfl
    rw [stored_of_ne _ _ _ _ own beyond addressed]
    constructor
    · rintro ⟨-, elsewhere, -, same⟩
      have kept := elsewhere _ own (by rw [dataSector_there there]; exact addressed.symm)
        (fun missing => absurd missing there)
      exact ⟨same.symm, fun _ => (stored_target _ _ _ _ own).symm.trans kept⟩
    · rintro ⟨same, kept⟩
      refine ⟨framed, fun sector elsewhere _ _ => ?_, size, same.symm⟩
      by_cases target : sector = diskSector (contents.sectorNumber id position)
      · rw [target, stored_target _ _ _ _ own, kept own]
      · exact stored_of_ne _ _ _ _ own elsewhere target

/-- What is right when the entry for a place is there. -/
theorem right_there_iff (valid : id < numINodes) (there : contents.block id (position / sectorSize) ≠ 0)
    (filled : contents.sectorNumber id position ≠ noSector →
      read = contents (diskSector (contents.sectorNumber id position))) :
    contents.Right buffer id position (.ok (bytesToWrite buffer position).length)
        (contents.stored buffer id position (contents.sectorNumber id position) read) ↔
      if contents.fileSector id position < 2 ^ 23 then
        contents.fileSector id position = inodeSector id → contents.Harmless buffer id position
      else storeBytes buffer position (contents (contents.fileSector id position)) =
          contents (contents.fileSector id position) ∧
        (diskSector (contents.sectorNumber id position) ≠ inodeSector id →
          storeBytes buffer position read =
            contents (diskSector (contents.sectorNumber id position))) := by
  by_cases near : contents.fileSector id position < 2 ^ 23
  · obtain ⟨numbered, addressed⟩ := addressed_of_lt near
    have whole : contents.sectorNumber id position = contents.fileSector id position :=
      Nat.mod_eq_of_lt (by omega)
    rw [if_pos near, filled numbered, whole, diskSector_of_lt near]
    by_cases own : contents.fileSector id position = inodeSector id
    · rw [own, right_own_iff few own (own ▸ near) there]
      simp
    · rw [right_iff, dataSector_there there]
      have apart : diskSector (contents.fileSector id position) ≠ inodeSector id := by
        rwa [diskSector_of_lt near]
      obtain ⟨framed, size⟩ := stored_inode few buffer (contents (contents.fileSector id position))
        apart (.refl (contents (inodeSector id))) rfl
      have target := stored_target contents buffer position (contents (contents.fileSector id position)) apart
      rw [diskSector_of_lt near] at target
      refine iff_of_true ⟨framed, fun sector elsewhere other _ => ?_, size, target⟩ fun clash => absurd clash own
      rw [dataSector_there there] at other
      exact stored_of_ne _ _ _ _ apart elsewhere (by rwa [diskSector_of_lt near])
  · rw [if_neg near]
    exact right_far_iff few valid there (Nat.not_lt.mp near)

section Allocated

variable {sector : Nat} {marked : Sector} {ready : Contents}
variable (valid : id < numINodes) (above : blockStartSector ≤ sector) (small : sector < 2 ^ 22)
variable (entered : ready = contents.enter id (position / sectorSize) sector marked)

include valid above small entered

theorem enter_apart : diskSector (ready.sectorNumber id position) = ready.sectorNumber id position ∧
    ready.sectorNumber id position ≠ inodeSector id ∧
    ready (ready.sectorNumber id position) = contents (ready.sectorNumber id position) := by
  obtain ⟨low, different, unmarked⟩ : ready.sectorNumber id position < 2 ^ 23 ∧ _ :=
    entered ▸ sectorNumber_enter_apart valid few above small
  refine ⟨diskSector_of_lt low, different, ?_⟩
  generalize ready.sectorNumber id position = number at *
  rw [entered, enter_of_ne different unmarked]

/-- The entry that was made stays when the bytes are stored. -/
theorem block_stored (buffer : List Byte) (read : Sector) :
    (ready.stored buffer id position (ready.sectorNumber id position) read).block id
      (position / sectorSize) = sector := by
  obtain ⟨addressed, different, -⟩ := enter_apart few valid above small entered
  have past : 4 ≤ INode.directBlock (position / sectorSize) :=
    Nat.le_trans (by decide) (Nat.le_add_right _ _)
  rw [Contents.stored, addressed, if_neg (fun both => different both.1), block,
    field_grow_of_apart (directBlock_inside few) (.inr past), field_update_of_ne different]
  rw [entered]
  exact block_enter few (small.trans (by decide))

theorem right_allocated_iff (missing : contents.block id (position / sectorSize) = 0) :
    contents.Right buffer id position (.ok (bytesToWrite buffer position).length)
        (ready.stored buffer id position (ready.sectorNumber id position)
          (ready (diskSector (ready.sectorNumber id position)))) ↔
      position / sectorSize < INode.numDirectBlocks := by
  obtain ⟨addressed, different, same⟩ := enter_apart few valid above small entered
  have past : 4 ≤ INode.directBlock (position / sectorSize) :=
    Nat.le_trans (by decide) (Nat.le_add_right _ _)
  generalize after_eq : ready.stored buffer id position (ready.sectorNumber id position)
    (ready (diskSector (ready.sectorNumber id position))) = after
  have stays : block after id (position / sectorSize) = sector :=
    after_eq ▸ block_stored few valid above small entered buffer _
  constructor
  · rintro ⟨framed, -⟩
    by_contra direct
    have fixed : block after id (position / sectorSize) = contents.block id (position / sectorSize) := by
      refine framed.getU32 fun byte first last may => ?_
      rcases may with ⟨-, size⟩ | ⟨inside, -⟩
      · unfold INode.sizeLower32 at size
        omega
      · exact direct inside
    rw [stays, missing] at fixed
    rw [fixed] at above
    exact absurd above (by decide)
  · intro direct
    have own : diskSector (ready.sectorNumber id position) ≠ inodeSector id := by rwa [addressed]
    have framed : Framed id position (contents (inodeSector id)) (ready (inodeSector id)) := by
      rw [entered, enter_own]
      exact .putU32 fun byte first last => .inr ⟨direct, first, last⟩
    have size : ready.fileSize id = contents.fileSize id := by
      rw [entered]
      exact (field_setField_of_apart (directBlock_inside few) (by decide) (.inr (.inl past))).trans
        (field_update_of_ne (blockGroupSector_lt id).ne)
    have target : contents.dataSector after id position = ready.sectorNumber id position := by
      rw [dataSector, if_pos missing, fileSector, stays, entered, sectorNumber_enter few small]
    obtain ⟨framed, size⟩ := stored_inode few buffer (ready (ready.sectorNumber id position)) own framed size
    have data := stored_target ready buffer position (ready (ready.sectorNumber id position)) own
    rw [addressed] at after_eq data
    rw [after_eq] at framed size data
    rw [right_iff, target, data, same]
    refine ⟨framed, fun sector elsewhere other unmarked => ?_, size, rfl⟩
    rw [target] at other
    rw [← after_eq, stored_of_ne _ _ _ _ own elsewhere (by rwa [addressed]), entered,
      enter_of_ne elsewhere (unmarked missing)]

end Allocated

end Stored

variable {result : Except IOError Nat}

/-- A call that does not allocate in place of `indirect_block`, nor stores in the inode's own sector or in
place of a sector that is not addressed, is right. -/
theorem Writable.right {unset : Sector → Prop} (writable : contents.Writable buffer id position)
    (valid : id < numINodes) (wrote : Wrote contents unset buffer id position result after) :
    contents.Right buffer id position result after := by
  cases wrote with
  | refused beyond => exact ⟨.refl _, fun _ _ _ _ => rfl, nofun⟩
  | full missing none => exact ⟨.refl _, fun _ _ _ _ => rfl, nofun⟩
  | @stored read few there filled kept =>
    obtain ⟨-, harmless⟩ :=
      (writable.resolve_left (Nat.not_lt.mpr few)).resolve_left fun both => there both.1
    rw [right_there_iff few valid there filled]
    split at harmless
    · rename_i near
      rwa [if_pos near]
    · rename_i far
      rw [if_neg far]
      refine ⟨harmless.1, fun apart => ?_⟩
      obtain ⟨same, numbered | ⟨first, long⟩⟩ := harmless.2 apart
      · rw [filled numbered, same]
      · refine Eq.trans ?_ same
        refine Window.overwrite_eq_iff.mpr fun byte outside => ?_
        rw [length_bytesToWrite, first] at outside
        unfold sectorSize at outside
        omega
  | allocated few missing first marks entered =>
    obtain ⟨above, small⟩ := first.sector_bounds
    refine (right_allocated_iff few valid above small entered missing).mpr ?_
    rcases (writable.resolve_left (Nat.not_lt.mpr few)) with ⟨-, direct | none⟩ | ⟨there, -⟩
    · exact direct
    · exact absurd first.enough (noneCounted_iff.mp none _)
    · exact absurd missing there

/-- A cache in which no buffer was ever set shows when what was read into one matters. -/
theorem WritesRight.wrote (right : contents.WritesRight buffer id position) (valid : id < numINodes)
    (memory : Sector) : ∃ result after, Wrote contents (memory = ·) buffer id position result after ∧
      contents.Right buffer id position result after := by
  have rest := World.atRest_constructed (fun _ => memory) contents
  obtain ⟨result, after, ran, right⟩ := right _ rest rfl
  obtain ⟨result', after', ran', wrote⟩ := writeToFile_wrote valid rest buffer position
  cases ran.symm.trans ran'
  exact ⟨result, _, wrote.mono fun other same => by rw [same], right⟩

theorem WritesRight.writable (right : contents.WritesRight buffer id position) (valid : id < numINodes) :
    contents.Writable buffer id position := by
  -- The bytes of the buffers that were never set differ from those of the sector.
  obtain ⟨result, after, wrote, right⟩ := right.wrote valid
    fun i => contents (diskSector (contents.sectorNumber id position)) i + 1
  cases wrote with
  | refused beyond => exact .inl beyond
  | full missing none => exact .inr (.inl ⟨missing, .inr none⟩)
  | allocated few missing first marks entered =>
    obtain ⟨above, small⟩ := first.sector_bounds
    exact .inr (.inl ⟨missing, .inl ((right_allocated_iff few valid above small entered missing).mp right)⟩)
  | @stored read few there filled kept =>
    refine .inr (.inr ⟨there, ?_⟩)
    rw [right_there_iff few valid there filled] at right
    split at right
    · rename_i near
      rwa [if_pos near]
    · rename_i far
      rw [if_neg far]
      refine ⟨right.1, fun apart => ?_⟩
      have same := right.2 apart
      by_cases empty : contents.sectorNumber id position = noSector
      · have memory := kept _ rfl empty
        have inside : ∀ byte : Fin 512, position % sectorSize ≤ byte.val ∧ byte.val < position % sectorSize +
            min buffer.length (sectorSize - position % sectorSize) := by
          intro byte
          by_contra outside
          have clash := congrFun same byte
          rw [storeBytes, Window.overwrite_of_outside (by rw [length_bytesToWrite]; omega), memory] at clash
          simp at clash
        have first : position % sectorSize ≤ 0 := (inside 0).1
        have last : 511 < position % sectorSize + min buffer.length (sectorSize - position % sectorSize) :=
          (inside 511).2
        refine ⟨Eq.trans ?_ same, .inr ⟨by omega, by omega⟩⟩
        refine Window.overwrite_eq_iff.mpr fun byte outside => ?_
        have within := inside byte
        rw [length_bytesToWrite] at outside
        omega
      · rw [filled empty] at same
        exact ⟨same, .inl empty⟩

/-- A call changes what it should and nothing else, if and only if the place is one to write. -/
theorem writeToFile_right_iff (valid : id < numINodes) :
    contents.WritesRight buffer id position ↔ contents.Writable buffer id position := by
  constructor
  · exact fun right => right.writable valid
  · rintro writable world rest rfl
    obtain ⟨result, after, ran, wrote⟩ := writeToFile_wrote valid rest buffer position
    exact ⟨result, after, ran, writable.right valid wrote⟩

/-- Twenty bytes from the tenth on, in a block that is there. -/
theorem writeToFile_right_twenty : hundredBytes.WritesRight (List.replicate 20 7) 0 10 :=
  (writeToFile_right_iff (by decide)).mpr
    (.inr (.inr ⟨by decide, by rw [if_pos (by decide)]; exact fun clash => absurd clash (by decide)⟩))

/-- A byte past the direct blocks puts a block into `indirect_block`. -/
theorem not_writeToFile_right : ¬∀ (contents : Contents) (buffer : List Byte) (id position : Nat),
    id < numINodes → contents.WritesRight buffer id position := by
  intro claim
  have writable := (claim hundredBytes [7] 0 (9 * sectorSize) (by decide)).writable (by decide)
  rcases writable with beyond | ⟨-, direct | none⟩ | ⟨there, -⟩
  · exact absurd beyond (by decide)
  · exact absurd direct (by decide)
  · exact none 0 (by decide) (.zero (by decide)) ⟨0, by simp, by decide⟩
  · exact there (by decide)

end Contents

end WalnutOs.Wnfs
