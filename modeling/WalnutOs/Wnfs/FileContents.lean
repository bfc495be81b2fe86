import WalnutOs.Wnfs.FileEffects

/-! What each file operation does to the contents: the fields of the inodes, the
bitmaps and the sectors of the blocks. -/

namespace WalnutOs.Wnfs

open WalnutOs.Klib WalnutOs.Lib

abbrev Contents := Nat → Sector

namespace Contents

variable {contents : Contents} {id other idx : Nat}

/-- A field of an inode, by its offset. -/
def field (contents : Contents) (id place : Nat) : Nat :=
  getU32 (contents (inodeSector id)) (inodeSectorOffset id + place)

def setField (id place value : Nat) (contents : Contents) : Contents :=
  Function.update contents (inodeSector id)
    (putU32 (inodeSectorOffset id + place) value (contents (inodeSector id)))

def fileSize (contents : Contents) (id : Nat) : Nat := contents.field id INode.sizeLower32

def block (contents : Contents) (id idx : Nat) : Nat := contents.field id (INode.directBlock idx)

theorem setField_of_ne {place value sector : Nat} (elsewhere : sector ≠ inodeSector id) :
    setField id place value contents sector = contents sector := by
  rw [setField, Function.update_of_ne elsewhere]

theorem field_setField {place value : Nat} (inside : place + 4 ≤ sizeofINode) (small : value < 2 ^ 32) :
    (setField id place value contents).field id place = value := by
  have fits : inodeSectorOffset id + place + 4 ≤ 512 := by
    rw [inodeSectorOffset_eq]
    unfold sizeofINode at inside
    omega
  rw [field, setField, Function.update_self, getU32, putU32, Window.getLE_putLE fits,
    Nat.mod_eq_of_lt (by simpa using small)]

/-- Fields of two inodes, or two fields of one, do not overlap. -/
theorem field_setField_of_apart {place value read : Nat} (inside : place + 4 ≤ sizeofINode)
    (within : read + 4 ≤ sizeofINode)
    (apart : other ≠ id ∨ read + 4 ≤ place ∨ place + 4 ≤ read) :
    (setField id place value contents).field other read = contents.field other read := by
  by_cases same : inodeSector other = inodeSector id
  · rw [field, field, setField, same, Function.update_self, getU32, putU32,
      Window.getLE_putLE_of_outside, getU32]
    rw [inodeSector_eq, inodeSector_eq] at same
    rw [inodeSectorOffset_eq, inodeSectorOffset_eq]
    unfold sizeofINode at inside within
    omega
  · rw [field, setField, Function.update_of_ne same, field]

theorem field_update_of_ne {place sector : Nat} {data : Sector} (elsewhere : sector ≠ inodeSector id) :
    field (Function.update contents sector data) id place = contents.field id place := by
  rw [field, Function.update_of_ne elsewhere.symm, field]

/-- `write_to_file` grows the size of an inode. -/
def grow (id written : Nat) (contents : Contents) : Contents :=
  if contents.fileSize id < written then setField id INode.sizeLower32 written contents else contents

/-- A direct block that is not there is allocated. -/
def withBlock (id idx : Nat) (used : Bool) (contents : Contents) : Contents :=
  if contents.block id idx = 0 then
    setField id (INode.directBlock idx) (allocation used)
      (Function.update contents blockGroupSector (blockBitmap true))
  else contents

/-- The sector that a position of a file is in, `block` being its direct block. -/
def sectorAt (block position : Nat) : Nat := block + position % blockSize / sectorSize

/-- The sector that `write_to_file` stores in. -/
def target (id position : Nat) (used : Bool) (contents : Contents) : Nat :=
  sectorAt ((withBlock id (position / sectorSize) used contents).block id (position / sectorSize))
    position

/-- The contents after `write_to_file` of a buffer at a position of a direct block. -/
def written (buffer : List Byte) (id position : Nat) (used : Bool) (contents : Contents) : Contents :=
  let ready := withBlock id (position / sectorSize) used contents
  let sector := target id position used contents
  let bytes := buffer.take (sectorSize - position % sectorSize)
  grow id (position + bytes.length) (Function.update ready sector
    (Window.overwrite (ready sector) (position % sectorSize) bytes))

/-- The contents after `create_file` of the inode of one bit of the bitmap. -/
def created (name : List Byte) (i : Fin 512) (j : Fin 8) (contents : Contents) : Contents :=
  let inode := inodeSector (i.val * 8 + j.val)
  let ready := Function.update contents inode
    (INode.initial (inodeSectorOffset (i.val * 8 + j.val)) name (contents inode))
  Function.update ready inodeBitmapStartSector (Function.update (ready inodeBitmapStartSector) i
    (contents inodeBitmapStartSector i ||| 1#8 <<< j.val))

/-- A place in a file that its direct blocks have room for. If there is a block
for it, the block is in the space for blocks. -/
structure Direct (contents : Contents) (id position : Nat) : Prop where
  valid : id < numINodes
  inside : position < INode.numDirectBlocks * sectorSize
  placed : contents.block id (position / sectorSize) = 0 ∨
    blockStartSector ≤ contents.block id (position / sectorSize) ∧
      contents.block id (position / sectorSize) ≤ 2 ^ 22

/-- Every entry that is looked at is in the inode, the one past the direct blocks too. -/
theorem directBlock_inside {idx : Nat} (few : idx ≤ INode.numDirectBlocks) :
    INode.directBlock idx + 4 ≤ sizeofINode := by
  unfold INode.directBlock INode.directBlocks sizeofINode
  unfold INode.numDirectBlocks at few
  omega

theorem directBlock_within {idx : Nat} (direct : idx < INode.numDirectBlocks) :
    INode.directBlock idx + 4 ≤ sizeofINode :=
  directBlock_inside direct.le

theorem block_withBlock (direct : idx < INode.numDirectBlocks) {used : Bool} :
    (withBlock id idx used contents).block id idx =
      if contents.block id idx = 0 then allocation used else contents.block id idx := by
  unfold withBlock
  split
  · refine field_setField ?_ ?_
    · exact directBlock_within direct
    · cases used <;> decide
  · rfl

/-- Storing fields one after the other. -/
theorem getU32_foldl {fields : List (Nat × Nat)} {sector : Sector} {offset place value : Nat}
    (inside : place + 4 ≤ 512)
    (apart : ∀ field ∈ fields, offset + field.1 = place ∧ field.2 % 2 ^ 32 = value ∨
      place + 4 ≤ offset + field.1 ∨ offset + field.1 + 4 ≤ place)
    (known : (∃ field ∈ fields, offset + field.1 = place) ∨ getU32 sector place = value) :
    getU32 (fields.foldl (fun sector field => putU32 (offset + field.1) field.2 sector) sector) place =
      value := by
  induction fields generalizing sector with
  | nil => simpa using known
  | cons first rest ih =>
    rw [List.foldl_cons]
    have later := fun field member => apart field (List.mem_cons_of_mem first member)
    refine ih later ?_
    rcases apart first List.mem_cons_self with ⟨here, same⟩ | outside
    · right
      rw [putU32, getU32, here, Window.getLE_putLE inside, ← same]
      rfl
    · rcases known with ⟨field, member, there⟩ | kept
      · rcases List.mem_cons.mp member with rfl | member
        · omega
        · exact .inl ⟨field, member, there⟩
      · right
        rw [putU32, getU32, Window.getLE_putLE_of_outside outside]
        exact kept

theorem initialFields_zero : ∀ place ∈ INode.zeroFields,
    (∀ field ∈ INode.initialFields, field.1 = place ∧ field.2 % 2 ^ 32 = 0 ∨
      place + 4 ≤ field.1 ∨ field.1 + 4 ≤ place) ∧
    ∃ field ∈ INode.initialFields, field.1 = place := by decide

theorem directBlock_mem_zeroFields (direct : idx < INode.numDirectBlocks) :
    INode.directBlock idx ∈ INode.zeroFields :=
  List.mem_cons_of_mem _ (List.mem_append_left _ (List.mem_map_of_mem (List.mem_range.mpr direct)))

theorem initialFields_lt : ∀ field ∈ INode.initialFields, field.1 + 4 ≤ INode.nameLen := by decide

/-- The name is stored after the fields that are numbers. -/
theorem getU32_setName {offset place : Nat} {name : List Byte} {sector : Sector}
    (outside : place + 4 ≤ offset + INode.nameLen ∨ offset + sizeofINode ≤ place) :
    getU32 (INode.setName offset name sector) place = getU32 sector place := by
  unfold INode.setName
  split
  · rfl
  · rename_i short
    refine Window.getLE_overwrite_of_outside ?_
    unfold INode.nameSize at short
    unfold INode.nameLen sizeofINode at *
    simp only [List.length_cons]
    omega

section Created

variable {name : List Byte} {i : Fin 512} {j : Fin 8} {place : Nat}

theorem field_created : (created name i j contents).field id place =
    getU32 (if inodeSector id = inodeSector (i.val * 8 + j.val) then
      INode.initial (inodeSectorOffset (i.val * 8 + j.val)) name (contents (inodeSector id))
    else contents (inodeSector id)) (inodeSectorOffset id + place) := by
  rw [field, created, Function.update_of_ne (inodeBitmapStartSector_lt id).ne', Function.update_apply]
  split
  · rename_i same
    rw [same]
  · rfl

/-- A new inode has size 0 and no blocks. -/
theorem field_created_new
    (zero : place ∈ INode.zeroFields) :
    (created name i j contents).field (i.val * 8 + j.val) place = 0 := by
  obtain ⟨apart, field, member, there⟩ := initialFields_zero place zero
  have before := initialFields_lt field member
  have inside : inodeSectorOffset (i.val * 8 + j.val) + place + INode.nameLen ≤ 512 := by
    rw [inodeSectorOffset_eq]
    unfold INode.nameLen at *
    omega
  rw [field_created, if_pos rfl, INode.initial, getU32_setName (.inl (by omega))]
  refine getU32_foldl ?_ ?_ (.inl ⟨field, member, by rw [there]⟩)
  · unfold INode.nameLen at *
    omega
  · intro field member
    rcases apart field member with ⟨here, same⟩ | outside
    · exact .inl ⟨by rw [here], same⟩
    · omega

theorem field_created_old (old : id ≠ i.val * 8 + j.val) (within : place + 4 ≤ sizeofINode) :
    (created name i j contents).field id place = contents.field id place := by
  rw [field_created]
  split
  · rename_i same
    rw [inodeSector_eq, inodeSector_eq] at same
    have apart : inodeSectorOffset id + place + 4 ≤ inodeSectorOffset (i.val * 8 + j.val) ∨
        inodeSectorOffset (i.val * 8 + j.val) + sizeofINode ≤ inodeSectorOffset id + place := by
      rw [inodeSectorOffset_eq, inodeSectorOffset_eq]
      unfold sizeofINode at *
      omega
    rw [INode.initial, getU32_setName (by omega)]
    refine getU32_foldl ?_ ?_ (.inr rfl)
    · rw [inodeSectorOffset_eq]
      unfold sizeofINode at within
      omega
    · intro field member
      have before := initialFields_lt field member
      unfold sizeofINode INode.nameLen at *
      omega
  · rfl

theorem block_created {idx : Nat} (direct : idx < INode.numDirectBlocks) :
    (created name i j contents).block id idx =
      if id = i.val * 8 + j.val then 0 else contents.block id idx := by
  split
  · rename_i new
    subst new
    exact field_created_new (directBlock_mem_zeroFields direct)
  · rename_i old
    exact field_created_old old (directBlock_within direct)

end Created

section Written

variable {buffer : List Byte} {position : Nat} {used : Bool}

theorem grow_of_ne {written sector : Nat} (elsewhere : sector ≠ inodeSector id) :
    grow id written contents sector = contents sector := by
  unfold grow
  split
  · exact setField_of_ne elsewhere
  · rfl

theorem field_grow_of_apart {written place : Nat} (within : place + 4 ≤ sizeofINode)
    (apart : other ≠ id ∨ 4 ≤ place) :
    (grow id written contents).field other place = contents.field other place := by
  unfold grow
  split
  · refine field_setField_of_apart (by decide) within (apart.imp_right .inr)
  · rfl

theorem fileSize_grow {written : Nat} (small : written < 2 ^ 32) :
    (grow id written contents).fileSize id = max (contents.fileSize id) written := by
  unfold grow
  split
  · rename_i grows
    rw [Nat.max_eq_right grows.le]
    exact field_setField (by decide) small
  · rename_i fits
    exact (Nat.max_eq_left (Nat.not_lt.mp fits)).symm

theorem withBlock_of_ne {sector : Nat} (elsewhere : sector ≠ inodeSector id)
    (data : sector ≠ blockGroupSector) : withBlock id idx used contents sector = contents sector := by
  unfold withBlock
  split
  · rw [setField_of_ne elsewhere, Function.update_of_ne data]
  · rfl

theorem field_withBlock_of_apart {place : Nat} (direct : idx < INode.numDirectBlocks)
    (within : place + 4 ≤ sizeofINode)
    (apart : other ≠ id ∨ place + 4 ≤ INode.directBlock idx ∨ INode.directBlock idx + 4 ≤ place) :
    (withBlock id idx used contents).field other place = contents.field other place := by
  have inode := (blockGroupSector_lt other).ne
  unfold withBlock
  split
  · rw [field_setField_of_apart (directBlock_within direct) within apart, field_update_of_ne inode]
  · rfl

theorem written_of_ne {sector : Nat} (elsewhere : sector ≠ inodeSector id)
    (other : sector ≠ target id position used contents) :
    written buffer id position used contents sector =
      withBlock id (position / sectorSize) used contents sector := by
  rw [written, grow_of_ne elsewhere, Function.update_of_ne other]

variable (write : Direct contents id position)

include write

theorem Direct.few : position / sectorSize < INode.numDirectBlocks :=
  Nat.div_lt_of_lt_mul (by simpa only [Nat.mul_comm] using write.inside)

theorem Direct.ends (buffer : List Byte) :
    position + (buffer.take (sectorSize - position % sectorSize)).length < 2 ^ 32 := by
  have inside := write.inside
  rw [List.length_take]
  unfold INode.numDirectBlocks sectorSize at *
  omega

theorem Direct.target_eq (used : Bool) : target id position used contents =
    sectorAt (if contents.block id (position / sectorSize) = 0 then allocation used
      else contents.block id (position / sectorSize)) position := by
  rw [target, block_withBlock write.few]

theorem Direct.target_bounds (used : Bool) : blockStartSector ≤ target id position used contents ∧
    target id position used contents ≤ 2 ^ 22 + 2 := by
  have small : allocation used = 2132 ∨ allocation used = 2134 := by
    cases used
    · exact .inl rfl
    · exact .inr rfl
  have placed := write.placed
  rw [write.target_eq, sectorAt]
  rw [blockStartSector_eq] at *
  unfold blockSize sectorSize at *
  split <;> omega

theorem Direct.le_target (used : Bool) : blockStartSector ≤ target id position used contents :=
  (write.target_bounds used).1

theorem written_blockGroup (bitmap : contents blockGroupSector = blockBitmap used) :
    written buffer id position used contents blockGroupSector =
      blockBitmap (used || decide (contents.block id (position / sectorSize) = 0)) := by
  have inode := (blockGroupSector_lt id).ne
  have data := write.le_target used
  rw [blockStartSector_eq] at data
  rw [written_of_ne inode (by unfold blockGroupSector; omega), withBlock]
  by_cases missing : contents.block id (position / sectorSize) = 0
  · rw [if_pos missing, setField_of_ne inode, Function.update_self, decide_eq_true missing,
      Bool.or_true]
  · rw [if_neg missing, bitmap, decide_eq_false missing, Bool.or_false]

/-- Among the sectors of blocks only the target changes. -/
theorem written_data {sector : Nat} (data : blockStartSector ≤ sector) :
    written buffer id position used contents sector =
      if sector = target id position used contents then Window.overwrite (contents sector)
        (position % sectorSize) (buffer.take (sectorSize - position % sectorSize))
      else contents sector := by
  have inode : sector ≠ inodeSector id := ((inodeSector_lt write.valid).trans_le data).ne'
  have bitmap : sector ≠ blockGroupSector :=
    ((show blockGroupSector < blockStartSector by decide).trans_le data).ne'
  split
  · rename_i same
    subst same
    rw [written, grow_of_ne inode, Function.update_self, withBlock_of_ne inode bitmap]
  · rename_i other
    rw [written_of_ne inode other, withBlock_of_ne inode bitmap]

theorem field_written {place : Nat} (valid : other < numINodes) (within : place + 4 ≤ sizeofINode)
    (apart : other ≠ id ∨ 4 ≤ place) :
    (written buffer id position used contents).field other place =
      (withBlock id (position / sectorSize) used contents).field other place := by
  have inode : target id position used contents ≠ inodeSector other :=
    ((inodeSector_lt valid).trans_le (write.le_target used)).ne'
  rw [written, field_grow_of_apart within apart, field_update_of_ne inode]

theorem block_written {read : Nat} (valid : other < numINodes) (direct : read < INode.numDirectBlocks) :
    (written buffer id position used contents).block other read =
      if other = id ∧ read = position / sectorSize ∧ contents.block id (position / sectorSize) = 0
      then allocation used else contents.block other read := by
  have within := directBlock_within direct
  have past : 4 ≤ INode.directBlock read := by
    unfold INode.directBlock INode.directBlocks
    omega
  rw [block, field_written write valid within (.inr past)]
  by_cases here : other = id ∧ read = position / sectorSize
  · obtain ⟨rfl, rfl⟩ := here
    exact (block_withBlock direct).trans (by simp)
  · rw [if_neg (fun all => here ⟨all.1, all.2.1⟩)]
    refine field_withBlock_of_apart write.few within ?_
    unfold INode.directBlock
    omega

theorem fileSize_written (valid : other < numINodes) :
    (written buffer id position used contents).fileSize other =
      if other = id then max (contents.fileSize id)
        (position + (buffer.take (sectorSize - position % sectorSize)).length)
      else contents.fileSize other := by
  have blocks : INode.sizeLower32 + 4 ≤ INode.directBlock (position / sectorSize) := by
    unfold INode.directBlock INode.directBlocks INode.sizeLower32
    omega
  split
  · rename_i same
    subst same
    have data := (inodeSector_lt write.valid).trans_le (write.le_target used)
    rw [written, fileSize_grow (write.ends _), fileSize, field_update_of_ne data.ne',
      field_withBlock_of_apart write.few (by decide) (.inr (.inl blocks)), fileSize]
  · rename_i different
    rw [fileSize, field_written write valid (by decide) (.inl different),
      field_withBlock_of_apart write.few (by decide) (.inl different), fileSize]

end Written

end Contents

namespace Holds

open Contents

variable {refs : List BufCacheRef} {marked : List BufNum} {contents : Contents} {used : Bool}
variable {held : BufCacheRef} {id idx position : Nat}

theorem blockSector (held : BufCacheRef) (live : held ∈ refs) (dirty : held.bufNum ∈ marked)
    (inode : held.sector = inodeSector id) (direct : idx < INode.numDirectBlocks)
    (bitmap : contents blockGroupSector = blockBitmap used) :
    Yields (Holds refs marked contents)
      (Wnfs.blockSector held.bufNum (inodeSectorOffset id + INode.directBlock idx))
      (some ((withBlock id idx used contents).block id idx, decide (contents.block id idx = 0)))
      (Holds refs marked (withBlock id idx used contents)) := by
  have entry : getU32 (contents held.sector) (inodeSectorOffset id + INode.directBlock idx) =
      contents.block id idx := by rw [inode]; rfl
  refine (peek held live).bind ?_
  rw [block_withBlock direct]
  by_cases missing : contents.block id idx = 0
  · have place : blockSize / sectorSize = 2 := rfl
    simp only [entry, missing, ne_eq, not_true_eq_false, if_false, if_true, decide_true, place]
    refine (allocateSectors bitmap).bind ?_
    have stored : withBlock id idx used contents = Function.update
        (Function.update contents blockGroupSector (blockBitmap true)) held.sector
        (putU32 (inodeSectorOffset id + INode.directBlock idx) (allocation used)
          (Function.update contents blockGroupSector (blockBitmap true) held.sector)) := by
      rw [withBlock, if_pos missing, setField, inode]
    rw [stored]
    exact (edit held live dirty).bind .pure
  · simp only [entry, missing, ne_eq, not_false_eq_true, if_true, if_false, decide_false, withBlock]
    exact .pure

theorem saveSize (held : BufCacheRef) {written : Nat} {shouldFlush : Bool} (live : held ∈ refs)
    (dirty : held.bufNum ∈ marked) (inode : held.sector = inodeSector id) :
    Yields (Holds refs marked contents)
      (Wnfs.saveSize held.bufNum (inodeSectorOffset id + INode.sizeLower32) written shouldFlush)
      (.ok ()) (Holds refs [] (grow id written contents)) := by
  have size : getU32 (contents held.sector) (inodeSectorOffset id + INode.sizeLower32) =
      contents.fileSize id := by rw [inode]; rfl
  refine (peek held live).bind ?_
  by_cases grows : contents.fileSize id < written
  · simp only [size, grows, if_true, grow, setField, ← inode]
    exact (edit held live dirty).bind (flush held [] live (by simp))
  · simp only [size, grows, if_false, grow]
    cases shouldFlush with
    | true => exact flush held [] live (by simp)
    | false => exact Yields.pure.weaken (fun _ holds => holds) fun _ => forget

theorem inode_cached (valid : id < numINodes) :
    inodeSector id < 2 ^ 23 ∧ inodeSector id ≠ blockGroupSector :=
  ⟨(inodeSector_lt valid).trans (by decide), (blockGroupSector_lt id).ne'⟩

/-- A write stores as much of the buffer as fits into the sector of the position. -/
theorem writeToFile (buffer : List Byte) (direct : Direct contents id position)
    (bitmap : contents blockGroupSector = blockBitmap used) :
    Yields (Holds [] [] contents) (Wnfs.writeToFile buffer id position)
      (.ok (buffer.take (sectorSize - position % sectorSize)).length)
      (Holds [] [] (written buffer id position used contents)) := by
  have few := direct.few
  obtain ⟨small, cached⟩ := inode_cached direct.valid
  have low := inodeSector_lt direct.valid
  have within : position % sectorSize + (buffer.take (sectorSize - position % sectorSize)).length ≤ 512 := by
    rw [List.length_take]
    unfold sectorSize
    omega
  obtain ⟨lower, upper⟩ := direct.target_bounds used
  have ends := direct.ends buffer
  rw [blockStartSector_eq] at lower low
  unfold written
  generalize bytes_eq : buffer.take (sectorSize - position % sectorSize) = bytes at *
  generalize sector_eq : target id position used contents = sector at *
  refine withBufSector (by simp) small cached (by simp) fun inodeBuf _ => ?_
  refine (asPtr ⟨inodeSector id, inodeBuf⟩ (by simp)).bind ?_
  simp only [if_neg (Nat.not_lt.mpr few.le)]
  refine (blockSector ⟨inodeSector id, inodeBuf⟩ (by simp) (by simp) rfl few bitmap).bind ?_
  change Yields _ (WnfsM.withBufSector (target id position used contents % 2 ^ 32) _ _) _ _
  rw [sector_eq, bytes_eq, Nat.mod_eq_of_lt (by omega)]
  refine withBufSector (by simp) (by omega) (by unfold blockGroupSector; omega) (by simp; omega)
    fun block apart => ?_
  refine (writeBytes ⟨sector, block⟩ (by simp) within).bind ?_
  refine (flush ⟨sector, block⟩ [inodeBuf] (by simp) (by simpa using apart)).bind ?_
  rw [Nat.mod_eq_of_lt ends]
  exact (saveSize ⟨inodeSector id, inodeBuf⟩ (by simp) (by simp) rfl).bind .pure

theorem createFile_full (name : List Byte)
    (full : firstClear (contents inodeBitmapStartSector) = none) :
    Yields (Holds [] [] contents) (Wnfs.createFile name) (.error .outOfINodes)
      (Holds [] [] contents) := by
  refine withBufSector (by simp) (by decide) (by decide) (by simp) fun bitmap _ => ?_
  refine (peek ⟨inodeBitmapStartSector, bitmap⟩ (by simp)).bind ?_
  simp only [full]
  exact .pure

theorem createFile (name : List Byte) {i : Fin 512} {j : Fin 8}
    (clear : firstClear (contents inodeBitmapStartSector) = some (i, j)) :
    Yields (Holds [] [] contents) (Wnfs.createFile name) (.ok (i.val * 8 + j.val))
      (Holds [] [] (created name i j contents)) := by
  have valid : i.val * 8 + j.val < numINodes := by
    unfold numINodes
    omega
  obtain ⟨small, cached⟩ := inode_cached valid
  refine withBufSector (by simp) (by decide) (by decide) (by simp) fun bitmap _ => ?_
  refine (peek ⟨inodeBitmapStartSector, bitmap⟩ (by simp)).bind ?_
  simp only [clear]
  refine withBufSector (by simp) small cached (by simpa using (inodeBitmapStartSector_lt _).ne)
    fun inodeBuf apart => ?_
  refine (asPtr ⟨inodeSector (i.val * 8 + j.val), inodeBuf⟩ (by simp)).bind ?_
  refine (edit ⟨inodeSector (i.val * 8 + j.val), inodeBuf⟩ (by simp) (by simp)).bind ?_
  refine (flush ⟨inodeSector (i.val * 8 + j.val), inodeBuf⟩ [] (by simp) (by simp)).bind ?_
  refine (write ⟨inodeBitmapStartSector, bitmap⟩ (by simp) i.isLt).bind ?_
  exact (flush ⟨inodeBitmapStartSector, bitmap⟩ [] (by simp) (by simp)).bind .pure

theorem vfsMetadata (contents : Contents) (valid : id < numINodes) :
    Yields (Holds [] [] contents) (Wnfs.vfsMetadata id) (.ok (contents.fileSize id))
      (Holds [] [] contents) := by
  obtain ⟨small, cached⟩ := inode_cached valid
  refine withBufSector (by simp) small cached (by simp) fun inodeBuf _ => ?_
  exact (peek ⟨inodeSector id, inodeBuf⟩ (by simp)).map

theorem readFromFile_end {len : Nat} (valid : id < numINodes) (past : contents.fileSize id ≤ position) :
    Yields (Holds [] [] contents) (Wnfs.readFromFile len id position) (.error .endOfFile)
      (Holds [] [] contents) := by
  obtain ⟨small, cached⟩ := inode_cached valid
  refine withBufSector (by simp) small cached (by simp) fun inodeBuf _ => ?_
  refine (peek ⟨inodeSector id, inodeBuf⟩ (by simp)).bind ?_
  rw [fileSize, field] at past
  simp only [past, if_true]
  exact .pure

/-- A read within the file that stays in its sector gives the bytes there. -/
theorem readFromFile (used : Bool) {len count : Nat} (place : Direct contents id position)
    (inFile : position < contents.fileSize id)
    (there : contents.block id (position / sectorSize) ≠ 0)
    (counted : count = min ((contents.fileSize id % sectorSize + 2 ^ 32 - position % sectorSize + 1) %
      2 ^ 32) len)
    (within : position % sectorSize + count ≤ sectorSize) :
    Yields (Holds [] [] contents) (Wnfs.readFromFile len id position)
      (.ok (Window.slice (contents (target id position used contents)) (position % sectorSize) count))
      (Holds [] [] contents) := by
  obtain ⟨small, cached⟩ := inode_cached place.valid
  obtain ⟨lower, upper⟩ := place.target_bounds used
  have low := inodeSector_lt place.valid
  have size : getU32 (contents (inodeSector id)) (inodeSectorOffset id + INode.sizeLower32) =
      contents.fileSize id := rfl
  have entry : getU32 (contents (inodeSector id)) (inodeSectorOffset id +
      INode.directBlock (position / sectorSize)) = contents.block id (position / sectorSize) := rfl
  have sector_eq := place.target_eq used
  rw [if_neg there, sectorAt] at sector_eq
  rw [blockStartSector_eq] at lower low
  generalize target id position used contents = sector at *
  refine withBufSector (by simp) small cached (by simp) fun inodeBuf _ => ?_
  refine (peek ⟨inodeSector id, inodeBuf⟩ (by simp)).bind ?_
  simp only [size, entry, if_neg (Nat.not_le.mpr inFile), if_neg (Nat.not_lt.mpr place.few.le),
    if_neg there, ← counted, ← sector_eq]
  rw [Nat.mod_eq_of_lt (by omega)]
  refine withBufSector (by simp) (by omega) (by unfold blockGroupSector; omega) (by simp; omega)
    fun block _ => ?_
  exact (readBytes ⟨sector, block⟩ (by simp) within).map

end Holds

end WalnutOs.Wnfs
