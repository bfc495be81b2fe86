import WalnutOs.Wnfs.AllocateSectors
import WalnutOs.Wnfs.CacheView
import WalnutOs.Wnfs.ReadFile

/-! `write_to_file` on any inode: what it leaves on the disk, and when that is no
more than it should change. -/

namespace WalnutOs.Wnfs

open WalnutOs.Klib WalnutOs.Lib

variable {contents : Contents} {buffer bytes : List Byte} {id position : Nat} {world later : World}
variable {inodeBuf block : BufNum} {view : View} {start size written : Nat} {shouldFlush : Bool}

/-- As much of a buffer as fits into the sector of a place. -/
def bytesToWrite (buffer : List Byte) (position : Nat) : List Byte :=
  buffer.take (sectorSize - position % sectorSize)

/-- A sector when these bytes are stored in it. -/
def storeBytes (buffer : List Byte) (position : Nat) (data : Sector) : Sector :=
  Window.overwrite data (position % sectorSize) (bytesToWrite buffer position)

/-- The place behind these bytes. -/
def writeEnd (buffer : List Byte) (position : Nat) : Nat := position + (bytesToWrite buffer position).length

/-- The part of `write_to_file` that has the block's sector. -/
def storeIn (buffer : List Byte) (id position : Nat) (inodeBuf : BufNum) (shouldFlush : Bool)
    (block : BufNum) : WnfsM (Except IOError Nat) := do
  let bytes := bytesToWrite buffer position
  writeBytes block (position % sectorSize) bytes
  match ← WnfsM.flush block with
  | .error _ => return .error .deviceError
  | .ok () =>
    match ← saveSize inodeBuf (inodeSectorOffset id + INode.sizeLower32)
        ((position + bytes.length) % 2 ^ 32) shouldFlush with
    | .error error => return .error error
    | .ok () => return .ok bytes.length

/-- The part of `write_to_file` that has a pointer to the inode. -/
def storeAt (buffer : List Byte) (id position : Nat) (inodeBuf : BufNum) :
    WnfsM (Except IOError Nat) := do
  if INode.numDirectBlocks < position / sectorSize then return .error .deviceError
  else
    match ← blockSector inodeBuf (inodeSectorOffset id + INode.directBlock (position / sectorSize)) with
    | none => return .error .bufferTooSmall
    | some (sector, shouldFlush) =>
      WnfsM.withBufSector (Contents.sectorAt sector position % 2 ^ 32) (.error .deviceError)
        (storeIn buffer id position inodeBuf shouldFlush)

theorem writeToFile_eq (buffer : List Byte) (id position : Nat) :
    writeToFile buffer id position =
      WnfsM.withBufSector (inodeSector id) (.error .deviceError) fun inodeBuf =>
        WnfsM.asPtr inodeBuf >>= fun _ => storeAt buffer id position inodeBuf := rfl

theorem storeAt_of_some {sector : Nat} (few : position / sectorSize ≤ INode.numDirectBlocks)
    (found : blockSector inodeBuf (inodeSectorOffset id + INode.directBlock (position / sectorSize)) world =
      .ok (some (sector, shouldFlush), later)) :
    storeAt buffer id position inodeBuf world =
      WnfsM.withBufSector (Contents.sectorAt sector position % 2 ^ 32) (.error .deviceError)
        (storeIn buffer id position inodeBuf shouldFlush) later := by
  simp only [storeAt, if_neg (Nat.not_lt.mpr few), Bind.bind, StateT.bind, Except.bind, found]

theorem storeAt_of_none (few : position / sectorSize ≤ INode.numDirectBlocks)
    (found : blockSector inodeBuf (inodeSectorOffset id + INode.directBlock (position / sectorSize)) world =
      .ok (none, later)) :
    storeAt buffer id position inodeBuf world = .ok (.error .bufferTooSmall, later) := by
  simp only [storeAt, if_neg (Nat.not_lt.mpr few), Bind.bind, StateT.bind, Except.bind, found]
  rfl

/-- The sector of an inode with the size brought up to date. -/
def grown (size written : Nat) (inode : Sector) : Sector :=
  if getU32 inode size < written then putU32 size written inode else inode

namespace View

/-- The view when bytes are stored and both references released. -/
def stored (view : View) (inodeBuf block : BufNum) (start : Nat) (bytes : List Byte) (size written : Nat)
    (shouldFlush : Bool) : View :=
  ((((view.store block start bytes).flush block).save inodeBuf size written shouldFlush).release
    block).release inodeBuf

/-- The block's sector and then the inode's are on the disk. -/
theorem sectors_stored_of_ne (apart : block ≠ inodeBuf) (dirty : view.dirty inodeBuf = true) :
    (view.stored inodeBuf block start bytes size written shouldFlush).sectors =
      Function.update (Function.update view.sectors (diskSector (view.tag block))
        (Window.overwrite (view.buffer block) start bytes)) (diskSector (view.tag inodeBuf))
        (grown size written (view.buffer inodeBuf)) := by
  have apart' := apart.symm
  by_cases grows : getU32 (view.buffer inodeBuf) size < written
  · simp [stored, grown, save, store, flush, release, poke, apart, apart', grows]
  · cases shouldFlush <;> simp [stored, grown, save, store, flush, release, poke, apart, apart', grows, dirty]

/-- In the inode's own sector the bytes are stored before the size is brought up to date. -/
theorem sectors_stored_self :
    (view.stored inodeBuf inodeBuf start bytes size written shouldFlush).sectors =
      Function.update view.sectors (diskSector (view.tag inodeBuf))
        (grown size written (Window.overwrite (view.buffer inodeBuf) start bytes)) := by
  by_cases grows : getU32 (Window.overwrite (view.buffer inodeBuf) start bytes) size < written
  · simp [stored, grown, save, store, flush, release, poke, grows]
  · cases shouldFlush <;> simp [stored, grown, save, store, flush, release, poke, grows]

end View

theorem length_bytesToWrite (buffer : List Byte) (position : Nat) :
    (bytesToWrite buffer position).length = min buffer.length (sectorSize - position % sectorSize) := by
  rw [bytesToWrite, List.length_take, Nat.min_comm]

theorem bytesToWrite_inside (buffer : List Byte) (position : Nat) :
    position % sectorSize + (bytesToWrite buffer position).length ≤ 512 := by
  rw [length_bytesToWrite]
  unfold sectorSize
  omega

theorem Shows.storeIn : Yields (Shows view) (Wnfs.storeIn buffer id position inodeBuf shouldFlush block)
    (.ok (bytesToWrite buffer position).length)
    (Shows (((view.store block (position % sectorSize) (bytesToWrite buffer position)).flush block).save
      inodeBuf (inodeSectorOffset id + INode.sizeLower32) (writeEnd buffer position % 2 ^ 32) shouldFlush)) :=
  (writeBytes (bytesToWrite_inside buffer position)).bind (flush.bind (saveSize.bind .pure))

/-- Bytes are stored in a sector of any number while the inode's buffer is dirty; `read` is what
the sector's buffer has before. -/
theorem Opened.storeIn {data : Sector} {cached sectors : Nat → Sector} (buffer : List Byte) (position : Nat)
    (opened : Opened inodeBuf (inodeSector id) data cached sectors world)
    (dirty : world.cache.isDirty inodeBuf = true) (number : Nat) (shouldFlush : Bool) :
    ∃ read after,
      (number ≠ noSector → cached (diskSector number) = sectors (diskSector number) →
        read = if number = inodeSector id then data else sectors (diskSector number)) ∧
      (∀ memory, Empty memory inodeBuf world → number = noSector → read = memory) ∧
      WnfsM.withBufSector number (.error .deviceError) (Wnfs.storeIn buffer id position inodeBuf shouldFlush)
        world = .ok (.ok (bytesToWrite buffer position).length, after) ∧
      (after.releaseBuffer inodeBuf).drive.sectors = Function.update
        (if number = inodeSector id then sectors
          else Function.update sectors (diskSector number) (storeBytes buffer position read))
        (inodeSector id) (grown (inodeSectorOffset id + INode.sizeLower32) (writeEnd buffer position % 2 ^ 32)
          (if number = inodeSector id then storeBytes buffer position read else data)) := by
  obtain ⟨block, later, takes, taken⟩ := opened.takes number
  have shows : Shows later.view later := ⟨taken.working, rfl⟩
  obtain ⟨final, ran, stored⟩ := Shows.storeIn later shows
  have ends := congrArg View.sectors ((stored.release block).release inodeBuf).viewed
  have tag : diskSector (later.view.tag inodeBuf) = inodeSector id := by
    rw [← diskSector_of_lt opened.small]
    exact congrArg diskSector taken.tag
  have own : later.view.buffer inodeBuf = data := taken.buffer.trans opened.buffer
  have onDisk : later.view.sectors = sectors := taken.onDisk.trans opened.onDisk
  refine ⟨later.cache.buffer block, final.releaseBuffer block, ?_, ?_, ?_, ?_⟩
  · intro numbered agrees
    split
    · rename_i same
      rw [taken.same same]
      exact own
    · rename_i different
      rw [← opened.onDisk] at agrees ⊢
      exact taken.filled different numbered agrees
  · rintro memory empty rfl
    exact empty.takes takes
  · rw [withBufSector_eq takes, ran]
    rfl
  · refine ends.trans ?_
    by_cases same : number = inodeSector id
    · have here := taken.same same
      subst here
      rw [if_pos same, if_pos same, ← tag, ← onDisk]
      exact View.sectors_stored_self
    · have still : later.view.dirty inodeBuf = true := (congrFun taken.dirty inodeBuf).trans dirty
      rw [if_neg same, if_neg same, ← own, ← tag, ← onDisk, ← taken.taken]
      exact View.sectors_stored_of_ne (taken.apart same) still

namespace Contents

/-- The contents when bytes are stored in a sector of any number and the size of the inode is
brought up to date. What is stored under another number of the inode's own sector is lost when
the inode is written. -/
def stored (contents : Contents) (buffer : List Byte) (id position number : Nat) (read : Sector) : Contents :=
  grow id (writeEnd buffer position)
    (if diskSector number = inodeSector id ∧ number ≠ inodeSector id then contents
    else Function.update contents (diskSector number) (storeBytes buffer position read))

/-- The contents when a block is allocated for an entry of an inode. -/
def enter (contents : Contents) (id idx sector : Nat) (marked : Sector) : Contents :=
  setField id (INode.directBlock idx) sector (Function.update contents blockGroupSector marked)

theorem sectorAt_bounds (block position : Nat) :
    block ≤ sectorAt block position ∧ sectorAt block position ≤ block + 1 := by
  unfold sectorAt blockSize sectorSize
  omega

theorem block_enter {idx sector : Nat} {marked : Sector} (few : idx ≤ INode.numDirectBlocks)
    (small : sector < 2 ^ 32) : (enter contents id idx sector marked).block id idx = sector :=
  field_setField (directBlock_inside few) small

/-- A sector that is allocated for a file is one of the space for blocks. -/
theorem sectorNumber_enter {sector : Nat} {marked : Sector}
    (few : position / sectorSize ≤ INode.numDirectBlocks) (small : sector < 2 ^ 22) :
    (enter contents id (position / sectorSize) sector marked).sectorNumber id position =
      sectorAt sector position := by
  have bounds := sectorAt_bounds sector position
  rw [sectorNumber, fileSector, block_enter few (by omega), Nat.mod_eq_of_lt (by omega)]

/-- Its number addresses neither the sector of an inode nor the bitmap, nor is it that of an empty buffer. -/
theorem sectorNumber_enter_apart {sector : Nat} {marked : Sector} (valid : id < numINodes)
    (few : position / sectorSize ≤ INode.numDirectBlocks) (above : blockStartSector ≤ sector)
    (small : sector < 2 ^ 22) :
    (enter contents id (position / sectorSize) sector marked).sectorNumber id position < 2 ^ 23 ∧
      (enter contents id (position / sectorSize) sector marked).sectorNumber id position ≠ inodeSector id ∧
      (enter contents id (position / sectorSize) sector marked).sectorNumber id position ≠
        blockGroupSector := by
  have bounds := sectorAt_bounds sector position
  have inode := inodeSector_lt valid
  have bitmap := blockGroupSector_lt id
  rw [sectorNumber_enter few small]
  omega

theorem enter_own {idx sector : Nat} {marked : Sector} :
    enter contents id idx sector marked (inodeSector id) =
      putU32 (inodeSectorOffset id + INode.directBlock idx) sector (contents (inodeSector id)) := by
  rw [enter, setField, Function.update_self, Function.update_of_ne (blockGroupSector_lt id).ne']

theorem enter_of_ne {idx sector number : Nat} {marked : Sector} (different : number ≠ inodeSector id)
    (unmarked : number ≠ blockGroupSector) :
    enter contents id idx sector marked number = contents number := by
  rw [enter, setField_of_ne different, Function.update_of_ne unmarked]

theorem grow_eq (id written : Nat) (contents : Contents) : grow id written contents =
    Function.update contents (inodeSector id)
      (grown (inodeSectorOffset id + INode.sizeLower32) written (contents (inodeSector id))) := by
  unfold grow grown
  change (if getU32 (contents (inodeSector id)) (inodeSectorOffset id + INode.sizeLower32) < written then _
    else _) = _
  split
  · rfl
  · exact (Function.update_eq_self _ _).symm

/-- The disk after the inode's own buffer has been written, which has `data`. -/
theorem stored_eq {number : Nat} {data read : Sector} {sectors : Nat → Sector}
    (small : inodeSector id < 2 ^ 23) :
    stored (Function.update sectors (inodeSector id) data) buffer id position number read = Function.update
      (if number = inodeSector id then sectors
        else Function.update sectors (diskSector number) (storeBytes buffer position read))
      (inodeSector id) (grown (inodeSectorOffset id + INode.sizeLower32) (writeEnd buffer position)
        (if number = inodeSector id then storeBytes buffer position read else data)) := by
  rw [stored, grow_eq]
  by_cases same : number = inodeSector id
  · have here : diskSector number = inodeSector id := by rw [same, diskSector_of_lt small]
    rw [if_pos same, if_pos same, if_neg (fun clash => clash.2 same), here, Function.update_idem,
      Function.update_idem, Function.update_self]
  · rw [if_neg same, if_neg same]
    by_cases here : diskSector number = inodeSector id
    · rw [if_pos ⟨here, same⟩, Function.update_idem, Function.update_self, here, Function.update_idem]
    · rw [if_neg (fun clash => here clash.1), Function.update_of_ne (Ne.symm here), Function.update_self,
        Function.update_comm (Ne.symm here), Function.update_idem]

end Contents

/-- What `write_to_file` comes to, and what it leaves on the disk. A sector is read into the buffer
that has the number of an empty one if that buffer was never used; `unset` is what it has then. -/
inductive Wrote (contents : Contents) (unset : Sector → Prop) (buffer : List Byte) (id position : Nat) :
    Except IOError Nat → Contents → Prop where
  | refused (beyond : INode.numDirectBlocks < position / sectorSize) :
      Wrote contents unset buffer id position (.error .deviceError) contents
  | full (missing : contents.block id (position / sectorSize) = 0)
      (none : NoneCounted 2 (contents blockGroupSector) 512) :
      Wrote contents unset buffer id position (.error .bufferTooSmall) contents
  | stored {read : Sector} (few : position / sectorSize ≤ INode.numDirectBlocks)
      (there : contents.block id (position / sectorSize) ≠ 0)
      (filled : contents.sectorNumber id position ≠ noSector →
        read = contents (diskSector (contents.sectorNumber id position)))
      (kept : ∀ memory, unset memory → contents.sectorNumber id position = noSector → read = memory) :
      Wrote contents unset buffer id position (.ok (bytesToWrite buffer position).length)
        (contents.stored buffer id position (contents.sectorNumber id position) read)
  | allocated {start : Nat} {marked : Sector} (few : position / sectorSize ≤ INode.numDirectBlocks)
      (missing : contents.block id (position / sectorSize) = 0)
      (first : First 2 (contents blockGroupSector) start)
      (marks : MarksFrom (contents blockGroupSector) (start * 8) 2 marked) {ready : Contents}
      (entered : ready = contents.enter id (position / sectorSize)
        (start * 8 + (8 - leading (contents blockGroupSector) start) + blockStartSector) marked) :
      Wrote contents unset buffer id position (.ok (bytesToWrite buffer position).length)
        (ready.stored buffer id position (ready.sectorNumber id position)
          (ready (diskSector (ready.sectorNumber id position))))

theorem blockSector_there {entry : Nat} (there : getU32 (world.cache.buffer inodeBuf) entry ≠ 0) :
    blockSector inodeBuf entry world =
      .ok (some (getU32 (world.cache.buffer inodeBuf) entry, false), world) := by
  simp only [blockSector, Bind.bind, StateT.bind, Except.bind, WnfsM.peek, if_pos there]
  rfl

theorem Wrote.mono {unset other : Sector → Prop} {result : Except IOError Nat} {after : Contents}
    (wrote : Wrote contents unset buffer id position result after)
    (fewer : ∀ memory, other memory → unset memory) :
    Wrote contents other buffer id position result after := by
  cases wrote with
  | refused beyond => exact .refused beyond
  | full missing none => exact .full missing none
  | stored few there filled kept =>
    exact .stored few there filled fun memory fresh => kept memory (fewer memory fresh)
  | allocated few missing first marks entered => exact .allocated few missing first marks entered

/-- Without a block there is either no run of two sectors to allocate, or the first is allocated
and its number stored in the inode. -/
theorem blockSector_missing {entry : Nat} (missing : getU32 (world.cache.buffer inodeBuf) entry = 0)
    (working : world.drive.Reliable) :
    NoneCounted 2 world.blockBitmap 512 ∧
        blockSector inodeBuf entry world = .ok (none, ⟨world.cache, world.drive.tick⟩) ∨
      ∃ start marked, First 2 world.blockBitmap start ∧ MarksFrom world.blockBitmap (start * 8) 2 marked ∧
        blockSector inodeBuf entry world =
          .ok (some (start * 8 + (8 - leading world.blockBitmap start) + blockStartSector, true),
            ⟨world.cache.poke inodeBuf (putU32 entry
                (start * 8 + (8 - leading world.blockBitmap start) + blockStartSector)
                (world.cache.buffer inodeBuf)), (world.rewritten marked).drive⟩) := by
  have place : blockSize / sectorSize = 2 := rfl
  have allocated := allocateSectors_allocated (show 0 < 2 by decide) (Reports.of_reliable working)
  have here : ¬getU32 (world.cache.buffer inodeBuf) entry ≠ 0 := Decidable.not_not.mpr missing
  simp only [blockSector, Bind.bind, StateT.bind, Except.bind, WnfsM.peek, if_neg here, place]
  generalize allocateSectors 2 world = result at allocated ⊢
  cases allocated with
  | unread failed => exact absurd working.outcome failed
  | unwritten failed => exact absurd (working _) failed
  | full none => exact .inl ⟨noneCounted_iff.mpr none, rfl⟩
  | @reserved start marked first marks read written => exact .inr ⟨start, marked, first, marks, rfl⟩

/-- The inode's buffer is written when its reference is released. -/
theorem Opened.released {data : Sector} {cached sectors : Nat → Sector}
    (opened : Opened inodeBuf (inodeSector id) data cached sectors world)
    (dirty : world.cache.isDirty inodeBuf = true) :
    (world.releaseBuffer inodeBuf).drive.sectors = Function.update sectors (inodeSector id) data := by
  have shows : Shows world.view world := ⟨opened.working, rfl⟩
  have marked : world.view.dirty inodeBuf = true := dirty
  have tag : diskSector (world.view.tag inodeBuf) = inodeSector id := by
    rw [← diskSector_of_lt opened.small]
    exact congrArg diskSector opened.tag
  refine (congrArg View.sectors (shows.release inodeBuf).viewed).trans ?_
  rw [View.release, if_pos marked, View.flush, tag]
  exact congrArg₂ (Function.update · (inodeSector id) ·) opened.onDisk opened.buffer

/-- A sector that is allocated has a small number. -/
theorem First.sector_bounds {bitmap : Sector} (first : First 2 bitmap start) :
    blockStartSector ≤ start * 8 + (8 - leading bitmap start) + blockStartSector ∧
      start * 8 + (8 - leading bitmap start) + blockStartSector < 2 ^ 22 := by
  have low := first.low
  rw [blockStartSector_eq]
  omega

theorem written_size (few : position / sectorSize ≤ INode.numDirectBlocks) :
    writeEnd buffer position % 2 ^ 32 = writeEnd buffer position := by
  have inside := bytesToWrite_inside buffer position
  unfold writeEnd INode.numDirectBlocks sectorSize at *
  omega

section Pointed

variable {ptr : World}
variable (pointed : Opened inodeBuf (inodeSector id) (contents (inodeSector id)) contents contents ptr)
variable (dirty : ptr.cache.isDirty inodeBuf = true)

include pointed dirty

omit dirty in
/-- The sectors when a block has been allocated and entered into the inode's buffer. -/
theorem Opened.entered (idx sector : Nat) (marked : Sector) :
    Opened inodeBuf (inodeSector id) (contents.enter id idx sector marked (inodeSector id)) contents
      (Function.update contents blockGroupSector marked)
      ⟨ptr.cache.poke inodeBuf (putU32 (inodeSectorOffset id + INode.directBlock idx) sector
        (ptr.cache.buffer inodeBuf)), (ptr.rewritten marked).drive⟩ := by
  refine { pointed with
    onDisk := by
      rw [← pointed.onDisk]
      rfl
    buffer := by simp [Contents.enter_own, pointed.buffer]
    others := fun bufNum another recorded => ?_ }
  obtain ⟨small, different, buffer⟩ := pointed.others bufNum another recorded
  exact ⟨small, different, (Function.update_of_ne another _ _).trans buffer⟩

theorem Opened.stores_there (buffer : List Byte) (few : position / sectorSize ≤ INode.numDirectBlocks)
    (there : contents.block id (position / sectorSize) ≠ 0) :
    ∃ result after, storeAt buffer id position inodeBuf ptr = .ok (result, after) ∧
      Wrote contents (fun memory => Empty memory inodeBuf ptr) buffer id position result
        (after.releaseBuffer inodeBuf).drive.sectors := by
  have entry : getU32 (ptr.cache.buffer inodeBuf) (inodeSectorOffset id +
      INode.directBlock (position / sectorSize)) = contents.block id (position / sectorSize) := by
    rw [pointed.buffer]
    rfl
  obtain ⟨read, after, filled, kept, ran, sectors⟩ := pointed.storeIn buffer position dirty
    (contents.sectorNumber id position) false
  refine ⟨.ok (bytesToWrite buffer position).length, after, ?_, ?_⟩
  · rw [storeAt_of_some few (blockSector_there (by rwa [entry])), entry]
    exact ran
  · rw [sectors, written_size few, ← Contents.stored_eq pointed.small, Function.update_eq_self]
    refine .stored few there (fun numbered => (filled numbered rfl).trans ?_) kept
    split
    · rename_i same
      rw [same, diskSector_of_lt pointed.small]
    · rfl

theorem Opened.stores_missing (valid : id < numINodes) (buffer : List Byte)
    (few : position / sectorSize ≤ INode.numDirectBlocks)
    (missing : contents.block id (position / sectorSize) = 0) :
    ∃ result after, storeAt buffer id position inodeBuf ptr = .ok (result, after) ∧
      Wrote contents (fun memory => Empty memory inodeBuf ptr) buffer id position result
        (after.releaseBuffer inodeBuf).drive.sectors := by
  have bitmap : ptr.blockBitmap = contents blockGroupSector := congrFun pointed.onDisk _
  have entry : getU32 (ptr.cache.buffer inodeBuf) (inodeSectorOffset id +
      INode.directBlock (position / sectorSize)) = 0 := by
    rw [pointed.buffer]
    exact missing
  rcases blockSector_missing entry pointed.working with ⟨none, ran⟩ | ⟨start, marked, first, marks, ran⟩
  · have unread : Opened inodeBuf (inodeSector id) (contents (inodeSector id)) contents contents
        ⟨ptr.cache, ptr.drive.tick⟩ := { pointed with }
    refine ⟨_, _, storeAt_of_none few ran, ?_⟩
    rw [unread.released dirty, Function.update_eq_self]
    exact .full missing (bitmap ▸ none)
  · rw [bitmap] at first marks ran
    obtain ⟨above, small⟩ := first.sector_bounds
    generalize sector_eq : start * 8 + (8 - leading (contents blockGroupSector) start) + blockStartSector =
      sector at ran above small
    have number : (contents.enter id (position / sectorSize) sector marked).sectorNumber id position =
        Contents.sectorAt sector position := Contents.sectorNumber_enter few small
    have apart : (contents.enter id (position / sectorSize) sector marked).sectorNumber id position < _ ∧ _ :=
      Contents.sectorNumber_enter_apart valid few above small
    have entered := pointed.entered (position / sectorSize) sector marked
    generalize ready_eq : contents.enter id (position / sectorSize) sector marked = ready at *
    obtain ⟨low, different, unmarked⟩ := apart
    have addressed := diskSector_of_lt low
    obtain ⟨read, after, filled, -, stores, sectors⟩ := entered.storeIn buffer position dirty
      (ready.sectorNumber id position) true
    have made : Function.update (Function.update contents blockGroupSector marked) (inodeSector id)
        (ready (inodeSector id)) = ready := by
      rw [← ready_eq, Contents.enter, Contents.setField, Function.update_self]
    have fresh : read = ready (diskSector (ready.sectorNumber id position)) := by
      rw [filled (ne_noSector low) (by rw [addressed, Function.update_of_ne unmarked]), if_neg different,
        addressed]
      exact (Function.update_of_ne different _ _).symm.trans (congrFun made _)
    refine ⟨.ok (bytesToWrite buffer position).length, after, ?_, ?_⟩
    · have bounds := Contents.sectorAt_bounds sector position
      rw [storeAt_of_some few ran, Nat.mod_eq_of_lt (by omega), ← number]
      exact stores
    · rw [sectors, written_size few, ← Contents.stored_eq pointed.small, made, fresh]
      exact .allocated few missing first marks (sector_eq ▸ ready_eq.symm)

end Pointed

theorem writeToFile_wrote (valid : id < numINodes) (rest : world.AtRest) (buffer : List Byte)
    (position : Nat) : ∃ result after, writeToFile buffer id position world = .ok (result, after) ∧
      Wrote world.drive.sectors (fun memory => world.cache = .constructed fun _ => memory) buffer id position
        result after.drive.sectors := by
  have small := (Holds.inode_cached valid).1
  obtain ⟨inodeBuf, taken, opens, opened⟩ := rest.opens small
  have pointed : Opened inodeBuf (inodeSector id) (world.drive.sectors (inodeSector id)) world.drive.sectors
      world.drive.sectors { taken with cache := taken.cache.markDirty inodeBuf } := { opened with }
  have dirty : (taken.cache.markDirty inodeBuf).isDirty inodeBuf = true := by simp
  suffices step : ∃ result after,
      storeAt buffer id position inodeBuf { taken with cache := taken.cache.markDirty inodeBuf } =
        .ok (result, after) ∧
      Wrote world.drive.sectors
        (fun memory => Empty memory inodeBuf { taken with cache := taken.cache.markDirty inodeBuf }) buffer id
        position result (after.releaseBuffer inodeBuf).drive.sectors by
    obtain ⟨result, after, ran, wrote⟩ := step
    refine ⟨result, after.releaseBuffer inodeBuf, ?_, wrote.mono ?_⟩
    · rw [writeToFile_eq, withBufSector_eq opens]
      simp only [Bind.bind, StateT.bind, Except.bind, WnfsM.asPtr, ran]
      rfl
    · intro memory constructed
      obtain ⟨cache, drive⟩ := world
      cases constructed
      obtain ⟨recorded, unset⟩ := World.empty_opens rest.working small opens
      exact ⟨recorded, unset⟩
  by_cases few : position / sectorSize ≤ INode.numDirectBlocks
  · by_cases missing : Contents.block world.drive.sectors id (position / sectorSize) = 0
    · exact pointed.stores_missing dirty valid buffer few missing
    · exact pointed.stores_there dirty buffer few missing
  · have beyond := Nat.not_le.mp few
    refine ⟨.error .deviceError, { taken with cache := taken.cache.markDirty inodeBuf }, ?_, ?_⟩
    · rw [storeAt, if_pos beyond]
      rfl
    · rw [pointed.released dirty, Function.update_eq_self]
      exact .refused beyond

end WalnutOs.Wnfs
