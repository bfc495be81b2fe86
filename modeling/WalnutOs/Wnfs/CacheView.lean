import WalnutOs.Wnfs.FileEffects

/-! What the operations on held buffers do to the cache and the disk, the mask of
the free buffers aside, on a disk without errors. -/

namespace WalnutOs.Wnfs

open WalnutOs.Klib WalnutOs.Lib

/-- The buffers, with their sectors and dirty bits, and the sectors of the disk. -/
structure View where
  buffer : BufNum → Sector
  tag : BufNum → Nat
  dirty : BufNum → Bool
  sectors : Nat → Sector

def World.view (world : World) : View :=
  ⟨world.cache.buffer, world.cache.bufSectors, world.cache.isDirty, world.drive.sectors⟩

namespace View

variable (view : View) (bufNum : BufNum)

def markDirty : View := { view with dirty := Function.update view.dirty bufNum true }

def poke (data : Sector) : View := { view with buffer := Function.update view.buffer bufNum data }

def flush : View :=
  { view with
    dirty := Function.update view.dirty bufNum false
    sectors := Function.update view.sectors (diskSector (view.tag bufNum)) (view.buffer bufNum) }

/-- A dirty buffer is flushed when its reference is released. -/
def release : View := if view.dirty bufNum then view.flush bufNum else view

/-- Bytes are stored in a buffer. -/
def store (start : Nat) (bytes : List Byte) : View :=
  { view.poke bufNum (Window.overwrite (view.buffer bufNum) start bytes) with
    dirty := Function.update view.dirty bufNum (view.dirty bufNum || !bytes.isEmpty) }

/-- The size of an inode grows, and the inode is flushed if it changed. -/
def save (size written : Nat) (shouldFlush : Bool) : View :=
  if getU32 (view.buffer bufNum) size < written then
    (view.poke bufNum (putU32 size written (view.buffer bufNum))).flush bufNum
  else if shouldFlush then view.flush bufNum
  else view

end View

/-- A world has a view, and its disk has no errors. -/
structure Shows (view : View) (world : World) : Prop where
  working : world.drive.Reliable
  viewed : world.view = view

namespace World

variable {world : World} {bufNum : BufNum}

theorem view_markDirty : World.view { world with cache := world.cache.markDirty bufNum } =
    world.view.markDirty bufNum := by
  have dirty : (world.cache.markDirty bufNum).isDirty = Function.update world.cache.isDirty bufNum true := by
    funext other
    rw [BufCache.isDirty_markDirty, Function.update_apply]
    by_cases same : other = bufNum <;> simp [same]
  simp only [view, View.markDirty, dirty, BufCache.buffer_markDirty, BufCache.bufSectors_markDirty]

theorem view_poke (data : Sector) : World.view { world with cache := world.cache.poke bufNum data } =
    world.view.poke bufNum data := rfl

theorem view_flush (working : world.drive.Reliable) :
    (world.flush bufNum).2.view = world.view.flush bufNum := by
  have dirty : ((world.cache.markDirty bufNum).clearDirty bufNum).isDirty =
      Function.update world.cache.isDirty bufNum false := by
    funext other
    rw [BufCache.isDirty_clearDirty, BufCache.isDirty_markDirty, Function.update_apply]
    by_cases same : other = bufNum <;> simp [same]
  simp only [flush, Drive.write, working.outcome, view, View.flush, diskSector, dirty,
    BufCache.buffer_clearDirty, BufCache.bufSectors_clearDirty, BufCache.buffer_markDirty,
    BufCache.bufSectors_markDirty]

end World

namespace Shows

variable {view : View} {world : World} {bufNum : BufNum}

theorem peek : Yields (Shows view) (WnfsM.peek bufNum) (view.buffer bufNum) (Shows view) := by
  rintro world ⟨working, rfl⟩
  exact ⟨world, rfl, working, rfl⟩

theorem edit {change : Sector → Sector} : Yields (Shows view) (WnfsM.edit bufNum change) ()
    (Shows (view.poke bufNum (change (view.buffer bufNum)))) := by
  rintro world ⟨working, rfl⟩
  exact ⟨_, rfl, working, World.view_poke _⟩

theorem flushed (shows : Shows view world) (bufNum : BufNum) :
    Shows (view.flush bufNum) (world.flush bufNum).2 := by
  obtain ⟨working, rfl⟩ := shows
  refine ⟨?_, World.view_flush working⟩
  simp only [World.flush, Drive.write, working.outcome]
  exact working

theorem flush : Yields (Shows view) (WnfsM.flush bufNum) (.ok ()) (Shows (view.flush bufNum)) := by
  intro world shows
  refine ⟨(world.flush bufNum).2, ?_, shows.flushed bufNum⟩
  simp [WnfsM.flush, World.flush, Drive.write, shows.working.outcome]

theorem write {idx : Nat} {data : Byte} (inside : idx < 512) :
    Yields (Shows view) (WnfsM.write bufNum idx data) () (Shows ((view.markDirty bufNum).poke bufNum
      (Function.update (view.buffer bufNum) ⟨idx, inside⟩ data))) := by
  rintro world ⟨working, rfl⟩
  have stored : world.cache.setVal idx bufNum data = .ok ((world.cache.markDirty bufNum).poke bufNum
      (Function.update (world.cache.buffer bufNum) ⟨idx, inside⟩ data)) :=
    BufCache.setVal_of_lt ⟨idx, inside⟩ data
  refine ⟨⟨(world.cache.markDirty bufNum).poke bufNum
    (Function.update (world.cache.buffer bufNum) ⟨idx, inside⟩ data), world.drive⟩, ?_, working, ?_⟩
  · rw [WnfsM.write, stored]
    rfl
  · rw [← World.view_markDirty]
    rfl

theorem writeBytes {start : Nat} {bytes : List Byte} (inside : start + bytes.length ≤ 512) :
    Yields (Shows view) (Wnfs.writeBytes bufNum start bytes) () (Shows (view.store bufNum start bytes)) := by
  induction bytes generalizing start view with
  | nil =>
    have same : view.store bufNum start [] = view := by
      simp [View.store, View.poke]
    rw [same]
    exact .pure
  | cons byte rest ih =>
    rw [List.length_cons] at inside
    have here : start < 512 := by omega
    have later : view.store bufNum start (byte :: rest) = ((view.markDirty bufNum).poke bufNum
        (Function.update (view.buffer bufNum) ⟨start, here⟩ byte)).store bufNum (start + 1) rest := by
      simp [View.store, View.poke, View.markDirty, Window.overwrite_cons here]
    rw [later]
    exact (write here).bind (ih (by omega))

theorem saveSize {size written : Nat} {shouldFlush : Bool} :
    Yields (Shows view) (Wnfs.saveSize bufNum size written shouldFlush) (.ok ())
      (Shows (view.save bufNum size written shouldFlush)) := by
  refine peek.bind ?_
  rw [View.save]
  by_cases grows : getU32 (view.buffer bufNum) size < written
  · simp only [if_pos grows]
    exact edit.bind flush
  · simp only [if_neg grows]
    cases shouldFlush with
    | true => exact flush
    | false => exact .pure

theorem release (shows : Shows view world) (bufNum : BufNum) :
    Shows (view.release bufNum) (world.releaseBuffer bufNum) := by
  obtain ⟨working, rfl⟩ := shows
  have toggled : Shows world.view { world with cache := { world.cache with
      bufferFreeMask := world.cache.bufferFreeMask ^^^ 1#8 <<< bufNum.val } } := ⟨working, rfl⟩
  rw [View.release, World.releaseBuffer]
  change Shows _ (if world.view.dirty bufNum then _ else _)
  split
  · exact toggled.flushed bufNum
  · exact toggled

end Shows

end WalnutOs.Wnfs
