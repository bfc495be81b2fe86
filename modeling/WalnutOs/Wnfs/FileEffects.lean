import WalnutOs.Lib.Yields
import WalnutOs.Wnfs.CacheStores
import WalnutOs.Wnfs.FileSystem

/-! The file operations on a disk without errors, as changes of the contents
that the cache and the disk hold together. -/

namespace WalnutOs.Wnfs

open WalnutOs.Klib WalnutOs.Lib

theorem World.bufSectors_releaseBuffer (world : World) (bufNum : BufNum) :
    (world.releaseBuffer bufNum).cache.bufSectors = world.cache.bufSectors := by
  unfold releaseBuffer
  simp only
  split <;> rfl

theorem World.buffer_releaseBuffer (world : World) (bufNum : BufNum) :
    (world.releaseBuffer bufNum).cache.buffer = world.cache.buffer := by
  unfold releaseBuffer
  simp only
  split <;> rfl

/-- What a sector holds for whoever reads it through the cache. -/
def World.stored (world : World) (sector : Nat) : Sector :=
  match world.cache.bufWithSector sector with
  | some bufNum => world.cache.buffer bufNum
  | none => world.drive.sectors sector

theorem Stores.stored_eq {world : World} {refs : List BufCacheRef} {contents : Nat → Sector}
    (stores : Stores world refs contents) (sector : Nat) (small : sector < 2 ^ 23) :
    world.stored sector = contents sector := by
  unfold World.stored
  split
  · rename_i bufNum found
    have tag := BufCache.bufSectors_of_found found
    rw [stores.buffered bufNum (by rw [tag]; exact ne_noSector small), tag]
  · rename_i missing
    exact stores.uncached sector small (BufCache.bufSectors_of_missing missing)

/-- The sector of the block bitmap, which never goes through the cache. -/
def blockGroupSector : Nat := 74

theorem blockGroupSector_lt (id : Nat) : blockGroupSector < inodeSector id :=
  Nat.lt_trans (by decide) (inodeBitmapStartSector_lt id)

/-- The world stores `contents`, the marked buffers are dirty, and the block
bitmap is in no buffer. -/
structure Holds (refs : List BufCacheRef) (marked : List BufNum) (contents : Nat → Sector)
    (world : World) : Prop where
  stores : Stores world refs contents
  dirty : ∀ bufNum ∈ marked, world.cache.isDirty bufNum = true
  uncached : ∀ bufNum, world.cache.bufSectors bufNum ≠ blockGroupSector

theorem readBytes_inside {world : World} {block : BufNum} {start count : Nat} (inside : start + count ≤ 512) :
    readBytes block start count world =
      .ok (Window.slice (world.cache.buffer block) start count, world) := by
  induction count generalizing start with
  | zero => rfl
  | succ count ih =>
    have here : start < 512 := by omega
    have index : start % 2 ^ 16 = start := by omega
    have loaded : world.cache.getValConst start block = .ok (world.cache.buffer block ⟨start, here⟩) :=
      BufCache.getValConst_of_lt ⟨start, here⟩
    simp only [readBytes, index, Window.slice_succ here, WnfsM.read, loaded, Except.map, Bind.bind,
      StateT.bind, Except.bind, ih (show start + 1 + count ≤ 512 by omega)]
    rfl

namespace Holds

variable {refs : List BufCacheRef} {marked : List BufNum} {contents later : Nat → Sector}
variable {held : BufCacheRef} {bufNum : BufNum} {sector : Nat} {Value : Type} {value failed : Value}

theorem forget {world : World} (holds : Holds refs marked contents world) :
    Holds refs [] contents world :=
  { holds with dirty := fun _ none => absurd none List.not_mem_nil }

/-- A scope that takes one more sector and gives it back at its end. -/
theorem withBufSector {body : BufNum → WnfsM Value} (few : refs.length < 8)
    (small : sector < 2 ^ 23) (cached : sector ≠ blockGroupSector)
    (unheld : ∀ held ∈ refs, held.sector ≠ sector)
    (inner : ∀ bufNum, (∀ held ∈ refs, held.bufNum ≠ bufNum) →
      Yields (Holds (⟨sector, bufNum⟩ :: refs) marked contents) (body bufNum) value
        (Holds (⟨sector, bufNum⟩ :: refs) [] later)) :
    Yields (Holds refs marked contents) (WnfsM.withBufSector sector failed body) value
      (Holds refs [] later) := by
  intro world holds
  obtain ⟨bufNum, between, answer⟩ := holds.stores.room few sector
  have stores := holds.stores.taken small unheld answer
  obtain ⟨tags, dirty⟩ := World.readBufSector_some answer
  have latest : (⟨sector, bufNum⟩ :: refs : List BufCacheRef)[0]? = some ⟨sector, bufNum⟩ := rfl
  have apart : ∀ held ∈ refs, held.bufNum ≠ bufNum := by
    simpa using stores.alone latest
  have uncached : ∀ other, between.cache.bufSectors other ≠ blockGroupSector := by
    intro other
    rw [tags]
    by_cases same : other = bufNum
    · simpa [same] using cached
    · simpa [same] using holds.uncached other
  obtain ⟨final, ran, ends⟩ := inner bufNum apart between
    ⟨stores, fun other member => (dirty other).trans (holds.dirty other member), uncached⟩
  refine ⟨final.releaseBuffer bufNum, ?_, ?_, fun _ none => absurd none List.not_mem_nil, ?_⟩
  · simp only [WnfsM.withBufSector, answer, ran, Except.map]
  · simpa using ends.stores.release latest
  · rw [World.bufSectors_releaseBuffer]
    exact ends.uncached

theorem peek (held : BufCacheRef) (live : held ∈ refs) :
    Yields (Holds refs marked contents) (WnfsM.peek held.bufNum) (contents held.sector)
      (Holds refs marked contents) := by
  intro world holds
  refine ⟨world, ?_, holds⟩
  rw [WnfsM.peek, holds.stores.buffer_held live]

theorem asPtr (held : BufCacheRef) (live : held ∈ refs) :
    Yields (Holds refs marked contents) (WnfsM.asPtr held.bufNum) ()
      (Holds refs (held.bufNum :: marked) contents) := by
  refine fun world holds => ⟨_, rfl, holds.stores.markDirty live, ?_, holds.uncached⟩
  intro bufNum member
  rcases List.mem_cons.mp member with rfl | member
  · simp
  · simp [holds.dirty bufNum member]

theorem edit (held : BufCacheRef) {change : Sector → Sector} (live : held ∈ refs)
    (dirty : held.bufNum ∈ marked) :
    Yields (Holds refs marked contents) (WnfsM.edit held.bufNum change) ()
      (Holds refs marked
        (Function.update contents held.sector (change (contents held.sector)))) := by
  intro world holds
  refine ⟨_, rfl, ?_, holds.dirty, holds.uncached⟩
  rw [holds.stores.buffer_held live]
  exact holds.stores.poke live (holds.dirty _ dirty) _

theorem write (held : BufCacheRef) {idx : Nat} {data : Byte} (live : held ∈ refs) (inside : idx < 512) :
    Yields (Holds refs marked contents) (WnfsM.write held.bufNum idx data) ()
      (Holds refs marked (Function.update contents held.sector
        (Function.update (contents held.sector) ⟨idx, inside⟩ data))) := by
  intro world holds
  have stored : world.cache.setVal idx held.bufNum data =
      .ok ((world.cache.markDirty held.bufNum).poke held.bufNum
        (Function.update (contents held.sector) ⟨idx, inside⟩ data)) := by
    rw [← holds.stores.buffer_held live]
    exact BufCache.setVal_of_lt ⟨idx, inside⟩ data
  refine ⟨⟨(world.cache.markDirty held.bufNum).poke held.bufNum
    (Function.update (contents held.sector) ⟨idx, inside⟩ data), world.drive⟩, ?_, ?_, ?_,
    holds.uncached⟩
  · rw [WnfsM.write, stored]
    rfl
  · exact (holds.stores.markDirty live).poke live (by simp) _
  · intro bufNum member
    simp [holds.dirty bufNum member]

theorem flush (held : BufCacheRef) (left : List BufNum) (live : held ∈ refs)
    (others : ∀ bufNum ∈ left, bufNum ∈ marked ∧ bufNum ≠ held.bufNum) :
    Yields (Holds refs marked contents) (WnfsM.flush held.bufNum) (.ok ())
      (Holds refs left contents) := by
  intro world holds
  obtain ⟨fine, stores⟩ := holds.stores.flush live
  refine ⟨(world.flush held.bufNum).2, ?_, stores, ?_, holds.uncached⟩
  · rw [WnfsM.flush, ← fine]
  · intro bufNum member
    obtain ⟨before, other⟩ := others bufNum member
    simp [World.flush, holds.dirty bufNum before, other]

theorem diskRead : Yields (Holds refs marked contents) (WnfsM.diskRead blockGroupStart)
    (.ok (contents blockGroupSector)) (Holds refs marked contents) := by
  intro world holds
  have saved := holds.stores.uncached blockGroupSector (by decide) holds.uncached
  refine ⟨{ world with drive := world.drive.tick }, ?_, ?_, holds.dirty, holds.uncached⟩
  · simp only [WnfsM.diskRead, Drive.read, holds.stores.working.outcome, ← saved]
    rfl
  · exact { holds.stores with
      working := holds.stores.working
      recorded := holds.stores.recorded
      saved := holds.stores.saved
      uncached := holds.stores.uncached }

theorem diskWrite (data : Sector) : Yields (Holds refs marked contents)
    (WnfsM.diskWrite data blockGroupStart) (.ok ())
    (Holds refs marked (Function.update contents blockGroupSector data)) := by
  intro world holds
  have place : blockGroupStart / sectorSize = blockGroupSector := rfl
  have apart := holds.uncached
  refine ⟨{ world with drive := (world.drive.write data blockGroupStart).2 }, ?_, ?_, holds.dirty,
    holds.uncached⟩
  · simp [WnfsM.diskWrite, Drive.write, holds.stores.working.outcome]
  · simp only [Drive.write, holds.stores.working.outcome, place]
    exact { holds.stores with
      working := holds.stores.working
      recorded := holds.stores.recorded
      buffered := fun bufNum recorded => by
        simpa [apart bufNum] using holds.stores.buffered bufNum recorded
      saved := fun bufNum recorded clean => by
        simpa [apart bufNum, Drive.tick] using holds.stores.saved bufNum recorded clean
      uncached := by
        intro sector small unrecorded
        by_cases same : sector = blockGroupSector
        · simp [same]
        · simpa [same, Drive.tick] using holds.stores.uncached sector small unrecorded }

theorem readBytes (held : BufCacheRef) {start count : Nat} (live : held ∈ refs)
    (inside : start + count ≤ 512) :
    Yields (Holds refs marked contents) (Wnfs.readBytes held.bufNum start count)
      (Window.slice (contents held.sector) start count) (Holds refs marked contents) := by
  intro world holds
  refine ⟨world, ?_, holds⟩
  rw [readBytes_inside inside, holds.stores.buffer_held live]

theorem writeBytes (held : BufCacheRef) {start : Nat} {bytes : List Byte} (live : held ∈ refs)
    (inside : start + bytes.length ≤ 512) :
    Yields (Holds refs marked contents) (Wnfs.writeBytes held.bufNum start bytes) ()
      (Holds refs marked (Function.update contents held.sector
        (Window.overwrite (contents held.sector) start bytes))) := by
  induction bytes generalizing start contents with
  | nil =>
    rw [Window.overwrite_nil, Function.update_eq_self]
    exact .pure
  | cons byte rest ih =>
    rw [List.length_cons] at inside
    have here : start < 512 := by omega
    have stored : Yields (Holds refs marked contents) (WnfsM.write held.bufNum start byte) ()
        (Holds refs marked (Function.update contents held.sector
          (Function.update (contents held.sector) ⟨start, here⟩ byte))) := write held live here
    rw [Window.overwrite_cons here]
    generalize Function.update (contents held.sector) ⟨start, here⟩ byte = first at stored ⊢
    have later : Yields (Holds refs marked (Function.update contents held.sector first))
        (Wnfs.writeBytes held.bufNum (start + 1) rest) () _ := ih (by omega)
    rw [Function.update_self, Function.update_idem] at later
    exact stored.bind later

end Holds

/-- The block bitmap before and after the first allocation; it never changes again. -/
def blockBitmap (used : Bool) : Sector := fun i => if i.val = 0 ∧ used then 3 else 0

/-- What an allocation of one block answers on such a bitmap. -/
def allocation (used : Bool) : Nat := if used then blockStartSector + 2 else blockStartSector

theorem allocation_ne_zero (used : Bool) : allocation used ≠ 0 := by
  cases used <;> decide

theorem writeAll_reliable (writes : List (Nat × Sector)) {drive : Drive} (working : drive.Reliable) :
    (writeAll writes drive).1 = .ok () ∧ (writeAll writes drive).2.Reliable ∧
      (writeAll writes drive).2.sectors = writes.foldl
        (fun sectors write => Function.update sectors (write.1 / sectorSize) write.2) drive.sectors := by
  induction writes generalizing drive with
  | nil => exact ⟨rfl, working, rfl⟩
  | cons first rest ih =>
    have reliable : Drive.Reliable { drive.tick with
        sectors := Function.update drive.sectors (first.1 / sectorSize) first.2 } := working
    simpa only [writeAll, Drive.write, working.outcome, Drive.tick, List.foldl_cons] using ih reliable

/-- A formatted disk has no sector allocated and no inode. -/
theorem formatDisk_bitmaps {drive : Drive} (working : drive.Reliable) :
    (formatDisk drive).2.Reliable ∧
      (formatDisk drive).2.sectors blockGroupSector = blockBitmap false ∧
      (formatDisk drive).2.sectors inodeBitmapStartSector = fun _ => 0 := by
  obtain ⟨-, reliable, sectors⟩ := writeAll_reliable _ working
  refine ⟨reliable, ?_, ?_⟩
  · rw [formatDisk, sectors]
    funext i
    simp only [blockBitmap, Bool.false_eq_true, and_false, if_false]
    rfl
  · rw [formatDisk, sectors]
    rfl

/-- The world after `format_disk`, with the cache as it is constructed. -/
def formatted (memory : BufNum → Sector) (drive : Drive) : World :=
  ⟨.constructed memory, (formatDisk drive).2⟩

theorem Holds.formatted (memory : BufNum → Sector) {drive : Drive} (working : drive.Reliable) :
    Holds [] [] (formatDisk drive).2.sectors (Wnfs.formatted memory drive) where
  stores := Stores.start memory (formatDisk_bitmaps working).1
  dirty := fun _ none => absurd none List.not_mem_nil
  uncached := fun bufNum => by simp [Wnfs.formatted, BufCache.constructed, noSector, blockGroupSector]

theorem searchSectors_blockBitmap (used : Bool) :
    2 ≤ (searchSectors 2 (blockBitmap used)).sectorCount ∧
      (searchSectors 2 (blockBitmap used)).sectorPos = 0 ∧
      (searchSectors 2 (blockBitmap used)).sectorPos * 8 +
        (searchSectors 2 (blockBitmap used)).sectorBit + blockStartSector = allocation used := by
  revert used
  decide +kernel

theorem markSectors_blockBitmap (used : Bool) :
    markSectors 2 0 (blockBitmap used) = blockBitmap true := by
  simp only [markSectors, List.range_succ, List.range_zero, List.nil_append, List.cons_append,
    List.foldl_cons, List.foldl_nil, Nat.reduceDiv, Nat.reduceAdd, Nat.reduceLT, dite_true, Nat.reduceMod]
  funext i
  by_cases first : i = 0
  · subst first
    cases used <;> rfl
  · simp [blockBitmap, first]

namespace Holds

variable {refs : List BufCacheRef} {marked : List BufNum} {contents : Nat → Sector} {used : Bool}

theorem allocateSectors (bitmap : contents blockGroupSector = blockBitmap used) :
    Yields (Holds refs marked contents) (Wnfs.allocateSectors 2) (some (allocation used))
      (Holds refs marked (Function.update contents blockGroupSector (blockBitmap true))) := by
  obtain ⟨enough, first, answer⟩ := searchSectors_blockBitmap used
  refine diskRead.bind ?_
  simp only [bitmap, if_neg (Nat.not_lt.mpr enough), answer]
  rw [first, markSectors_blockBitmap]
  exact (diskWrite _).bind .pure

end Holds

end WalnutOs.Wnfs
