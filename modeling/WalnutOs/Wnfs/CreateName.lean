import WalnutOs.Wnfs.CreateFailure

/-! The name that the record of a created file has. -/

namespace WalnutOs.Wnfs

open WalnutOs.Klib WalnutOs.Lib

namespace Contents

variable {disk : Contents} {id : Nat} {name : List Byte}

/-- `name_len` of an inode. -/
def nameLen (disk : Contents) (id : Nat) : Nat :=
  Window.getLE (disk (inodeSector id)) (inodeSectorOffset id + INode.nameLen) 1

/-- The 63 characters of the array `name` of an inode. -/
def nameField (disk : Contents) (id : Nat) : List Byte :=
  Window.slice (disk (inodeSector id)) (inodeSectorOffset id + INode.nameLen + 1) INode.nameSize

/-- An inode has the name: its length, and its characters at the start of the array. -/
structure Named (disk : Contents) (id : Nat) (name : List Byte) : Prop where
  length : disk.nameLen id = name.length
  characters : (disk.nameField id).take (disk.nameLen id) = name

/-- No inode has a name that is longer than the array. -/
theorem Named.short (named : Named disk id name) : name.length ≤ INode.nameSize := by
  have field : (disk.nameField id).length ≤ INode.nameSize := List.length_take_le ..
  have taken := congrArg List.length named.characters
  rw [List.length_take] at taken
  exact (taken.symm.le.trans (Nat.min_le_right ..)).trans field

theorem named_of_slice (short : name.length ≤ INode.nameSize)
    (stored : Window.slice (disk (inodeSector id)) (inodeSectorOffset id + INode.nameLen) (name.length + 1) =
      BitVec.ofNat 8 name.length :: name) : Named disk id name := by
  have inside : inodeSectorOffset id + INode.nameLen < 512 := by
    rw [inodeSectorOffset_eq]
    unfold INode.nameLen
    omega
  rw [Window.slice_succ inside] at stored
  obtain ⟨first, rest⟩ := List.cons.inj stored
  have length : disk.nameLen id = name.length := by
    have small : name.length < 2 ^ 8 := by
      unfold INode.nameSize at short
      omega
    simpa [nameLen, Window.getLE, inside, first] using small
  refine ⟨length, ?_⟩
  rw [length, nameField, Window.slice, List.take_take, Nat.min_eq_left short]
  exact rest

end Contents

namespace World

variable {world after : World} {sector : Nat} {bufNum : BufNum}

theorem cache_of_flush {result : Except IOError Unit} (run : world.flush bufNum = (result, after)) :
    after.cache.buffer = world.cache.buffer ∧ after.cache.bufSectors = world.cache.bufSectors := by
  obtain rfl := (Prod.mk.inj run).2
  exact ⟨rfl, rfl⟩

/-- A sector that is in a buffer is what the buffer has. -/
theorem stored_of_found (found : world.cache.bufWithSector sector = some bufNum)
    (tags : after.cache.bufSectors = world.cache.bufSectors) :
    after.stored sector = after.cache.buffer bufNum := by
  have still : after.cache.bufWithSector sector = some bufNum := by
    rw [BufCache.bufWithSector, tags]
    exact found
  rw [World.stored, still]

end World

section Created

variable {name : List Byte} {world after : World} {id : Nat}

/-- Whatever the transfers do, the sector of the new inode then has its fields, over what
was read of it. -/
theorem CreateOutcome.stored_inode (outcome : CreateOutcome name world (.ok id) after) :
    ∃ before, after.stored (inodeSector id) = INode.initial (inodeSectorOffset id) name before := by
  cases outcome with
  | @created bitmap inodeBuf i j read later flushed final selected inodeFlush bitmapFlush =>
    have apart : inodeBuf ≠ bitmap := selected.shows.2.symm
    have found := World.found_of_read selected.inodeRead
    obtain ⟨written, tags⟩ := World.cache_of_flush inodeFlush
    obtain ⟨set, tags'⟩ := World.cache_of_flush bitmapFlush
    have recorded : final.cache.bufSectors = later.cache.bufSectors := tags'.trans tags
    have bytes : final.cache.buffer inodeBuf = flushed.cache.buffer inodeBuf :=
      (congrFun set inodeBuf).trans (Function.update_of_ne apart ..)
    refine ⟨later.cache.buffer inodeBuf, ?_⟩
    rw [World.stored_of_found found (by simp only [World.bufSectors_releaseBuffer, recorded]),
      World.buffer_releaseBuffer, World.buffer_releaseBuffer, bytes, written]
    exact Function.update_self ..

theorem CreateOutcome.id_lt (outcome : CreateOutcome name world (.ok id) after) : id < numINodes := by
  cases outcome with
  | created =>
    unfold numINodes
    omega

theorem Contents.named_of_initial {disk : Contents} {before : Sector} (short : name.length ≤ INode.nameSize)
    (stored : disk (inodeSector id) = INode.initial (inodeSectorOffset id) name before) :
    disk.Named id name := by
  apply named_of_slice short
  rw [stored]
  exact INode.slice_initial short

/-- Over any cache and any contents of the table, on any disk, a created file has its
name exactly when `set_name` does not refuse it. Without errors of the disk, the record on
the disk has it too. -/
theorem created_keeps_name_iff (created : createFile name world = .ok (.ok id, after)) :
    (Contents.Named after.stored id name ↔ name.length ≤ INode.nameSize) ∧
      (Coherent world → (Contents.Named after.drive.sectors id name ↔ name.length ≤ INode.nameSize)) := by
  have outcome := CreateOutcome.of_run created
  obtain ⟨before, stored⟩ := outcome.stored_inode
  refine ⟨⟨Contents.Named.short, fun short => Contents.named_of_initial short stored⟩, fun coherent => ?_⟩
  obtain ⟨_, _, run, coherent', -⟩ := coherent.createFile name
  cases created.symm.trans run
  have written : after.drive.sectors (inodeSector id) = INode.initial (inodeSectorOffset id) name before := by
    rw [← stored, Stores.stored_eq coherent' _ (Holds.inode_cached outcome.id_lt).1]
  exact ⟨Contents.Named.short, fun short => Contents.named_of_initial short written⟩

end Created

/-- On a formatted disk a file is created, whatever its name is. -/
theorem createFile_formatted (name : List Byte) : ∃ id after,
    createFile name (formatted (fun _ _ => 0) .blank) = .ok (.ok id, after) ∧
      Coherent (formatted (fun _ _ => 0) .blank) := by
  have working : Drive.blank.Reliable := fun _ => rfl
  have coherent : Coherent (formatted (fun _ _ => 0) .blank) := (Holds.formatted _ working).stores
  obtain ⟨_, after, run, -, made⟩ := coherent.createFile name
  rcases made with ⟨full, -, -⟩ | ⟨i, j, -, rfl, -⟩
  · have bit := getLsbD_of_firstClear_none full 0 0
    have empty : (formatted (fun _ _ => 0) .blank).drive.sectors inodeBitmapStartSector = fun _ => 0 :=
      (formatDisk_bitmaps working).2.2
    rw [empty] at bit
    cases bit
  · exact ⟨_, after, run, coherent⟩

theorem created_keeps_name_short : ∃ id after, Contents.Named after.stored id [97, 98] ∧
    createFile [97, 98] (formatted (fun _ _ => 0) .blank) = .ok (.ok id, after) := by
  obtain ⟨id, after, created, -⟩ := createFile_formatted [97, 98]
  exact ⟨id, after, (created_keeps_name_iff created).1.mpr (by decide), created⟩

/-- The name has 64 characters: `set_name` refuses it, which `create_file` drops. -/
theorem created_loses_long_name : ¬ ∀ name world id after, Coherent world →
    createFile name world = .ok (.ok id, after) → Contents.Named after.drive.sectors id name := by
  intro claim
  obtain ⟨id, after, created, coherent⟩ := createFile_formatted (List.replicate 64 97)
  exact absurd (claim _ _ _ _ coherent created).short (by decide)

end WalnutOs.Wnfs
