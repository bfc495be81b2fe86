import WalnutOs.Wnfs.CreateFile

/-! Runs of `create_file` that a loss of power cuts off between two transfers, and what
the bitmap of the inodes says about the records on the disk then. -/

namespace WalnutOs.Wnfs

open WalnutOs.Klib WalnutOs.Lib

/-- Power is lost after `count` more transfers: none of the later ones reaches the disk. -/
def cutAfter (count : Nat) (drive : Drive) : Drive :=
  { drive with outcomes := fun n =>
      if n < drive.transfers + count then drive.outcomes n else .failed none fun _ => 0 }

/-- The first `k` transfers are done and all others lost. -/
def Cuts (k : Nat) (drive : Drive) : Prop := ∀ n, drive.outcomes n = .done ↔ n < k

theorem cuts_cutAfter {drive : Drive} (working : drive.Reliable) (count : Nat) :
    Cuts (drive.transfers + count) (cutAfter count drive) := by
  intro n
  unfold cutAfter
  dsimp only
  split
  · rename_i before
    exact iff_of_true (working n) before
  · rename_i past
    exact iff_of_false nofun past

/-- As long as no transfer has been lost, each buffer holds what is on the disk. -/
structure Powered (k : Nat) (disk : Contents) (world : World) : Prop where
  cuts : Cuts k world.drive
  mirrors : world.drive.transfers ≤ k → ∀ bufNum, world.cache.bufSectors bufNum < 2 ^ 23 →
    world.cache.buffer bufNum = disk (world.cache.bufSectors bufNum)

section Cut

variable {k sector : Nat} {disk : Contents} {world after read later : World} {bufNum bitmap inodeBuf : BufNum}
variable {i : Fin 512} {j : Fin 8} {name : List Byte} {result : Except FileError Nat}

theorem Powered.load (powered : Powered k disk world) (same : world.drive.sectors = disk)
    (small : sector < 2 ^ 23) (answer : world.readBufSector sector = (some bufNum, after)) :
    Powered k disk after := by
  obtain ⟨-, outcomes, -, -⟩ := World.readBufSector_disk answer
  refine ⟨fun n => by rw [outcomes]; exact powered.cuts n, ?_⟩
  rcases World.readBufSector_some_cases answer with ⟨found, rfl⟩ | ⟨data, -, -, loaded, rfl⟩
  · have tags : Function.update world.cache.bufSectors bufNum sector = world.cache.bufSectors := by
      rw [← BufCache.bufSectors_of_found found, Function.update_eq_self]
    simpa only [BufCache.bufSectors_attach, BufCache.buffer_attach, tags] using powered.mirrors
  · intro alive other recorded
    have done : world.drive.outcome = .done := (powered.cuts world.drive.transfers).mpr alive
    rcases loaded with ⟨-, rfl⟩ | lost
    · by_cases here : other = bufNum
      · subst here
        simp [same, diskSector_of_lt small]
      · have before := powered.mirrors (Nat.le_of_succ_le alive) other (by simpa [here] using recorded)
        simpa [here] using before
    · rw [done] at lost
      cases lost

/-- A flush reaches the disk if power is still on. -/
theorem Cuts.flush {ended : Except IOError Unit} (run : world.flush bufNum = (ended, after))
    (cuts : Cuts k world.drive) :
    Cuts k after.drive ∧ after.drive.transfers = world.drive.transfers + 1 ∧
      after.drive.sectors = if world.drive.transfers < k then
        Function.update world.drive.sectors (diskSector (world.cache.bufSectors bufNum))
          (world.cache.buffer bufNum)
      else world.drive.sectors := by
  have next : world.drive.outcome = .done ↔ world.drive.transfers < k := cuts world.drive.transfers
  rcases world.flush_cases bufNum with ⟨done, ran⟩ | ⟨reported, left, lost, -, ran⟩
  · obtain rfl := (Prod.mk.inj (run.symm.trans ran)).2
    exact ⟨cuts, rfl, (if_pos (next.mp done)).symm⟩
  · rw [run] at ran
    dsimp only at ran
    subst ran
    have off : ¬ world.drive.transfers < k := by
      rw [← next, lost]
      nofun
    exact ⟨cuts, rfl, (if_neg off).symm⟩

/-- The buffers of the bitmap and of the inode while the two are held. -/
structure Loaded (k : Nat) (disk : Contents) (bitmap inodeBuf : BufNum) (i : Fin 512) (j : Fin 8)
    (read later : World) : Prop where
  cuts : Cuts k later.drive
  sectors : later.drive.sectors = disk
  apart : bitmap ≠ inodeBuf
  bitmapTag : later.cache.bufSectors bitmap = inodeBitmapStartSector
  inodeTag : later.cache.bufSectors inodeBuf = inodeSector (i.val * 8 + j.val)
  kept : later.cache.buffer bitmap = read.cache.buffer bitmap
  mirrors : later.drive.transfers ≤ k → read.cache.buffer bitmap = disk inodeBitmapStartSector ∧
    later.cache.buffer inodeBuf = disk (inodeSector (i.val * 8 + j.val))

theorem Powered.loaded (powered : Powered k disk world) (same : world.drive.sectors = disk)
    (selected : Selected world bitmap inodeBuf i j read later) :
    Loaded k disk bitmap inodeBuf i j read later := by
  have valid : i.val * 8 + j.val < numINodes := by
    unfold numINodes
    omega
  have small := (Holds.inode_cached valid).1
  have elsewhere := (inodeBitmapStartSector_lt (i.val * 8 + j.val)).ne
  have first := powered.load same (by decide) selected.bitmapRead
  have sectors := (World.readBufSector_disk selected.bitmapRead).1.trans same
  have second := first.load sectors small selected.inodeRead
  obtain ⟨sectors', -, grows, -⟩ := World.readBufSector_disk selected.inodeRead
  have tag := (World.readBufSector_some selected.bitmapRead).1
  have tag' := (World.readBufSector_some selected.inodeRead).1
  have bitmapTag : read.cache.bufSectors bitmap = inodeBitmapStartSector := by
    rw [tag, Function.update_self]
  have busy := (World.readBufSector_keeps selected.bitmapRead).1
  have apart := World.readBufSector_ne selected.inodeRead busy (by rw [bitmapTag]; exact elsewhere)
  have inodeTag : later.cache.bufSectors inodeBuf = inodeSector (i.val * 8 + j.val) := by
    rw [tag', Function.update_self]
  refine ⟨second.cuts, sectors'.trans sectors, apart, ?_, inodeTag,
    (World.readBufSector_keeps selected.inodeRead).2 bitmap apart, fun alive => ⟨?_, ?_⟩⟩
  · rw [tag', Function.update_of_ne apart, bitmapTag]
  · rw [first.mirrors (grows.trans alive) bitmap (by rw [bitmapTag]; decide), bitmapTag]
  · rw [second.mirrors alive inodeBuf (by rw [inodeTag]; exact small), inodeTag]

/-- The record is written first, when nothing has been lost. -/
theorem Loaded.sectors_of_inode {flushed : World} {ended : Except IOError Unit}
    (loaded : Loaded k disk bitmap inodeBuf i j read later)
    (inodeFlush : (later.withINode inodeBuf (i.val * 8 + j.val) name).flush inodeBuf = (ended, flushed)) :
    Cuts k flushed.drive ∧ (flushed.drive.sectors = disk ∧ k ≤ flushed.drive.transfers ∨
      flushed.drive.sectors = Contents.recorded name i j disk ∧
        read.cache.buffer bitmap = disk inodeBitmapStartSector) := by
  have valid : i.val * 8 + j.val < numINodes := by
    unfold numINodes
    omega
  have address := diskSector_of_lt (Holds.inode_cached valid).1
  obtain ⟨cuts, transfers, sectors⟩ := Cuts.flush inodeFlush loaded.cuts
  change flushed.drive.transfers = later.drive.transfers + 1 at transfers
  simp only [World.withINode, BufCache.bufSectors_poke, BufCache.bufSectors_markDirty, BufCache.buffer_poke,
    Function.update_self, loaded.inodeTag, address, loaded.sectors] at sectors
  refine ⟨cuts, ?_⟩
  by_cases on : later.drive.transfers < k
  · obtain ⟨bitmapBytes, inodeBytes⟩ := loaded.mirrors on.le
    rw [if_pos on, inodeBytes] at sectors
    exact .inr ⟨sectors, bitmapBytes⟩
  · rw [if_neg on] at sectors
    exact .inl ⟨sectors, by omega⟩

/-- The bitmap is written last, after the record. -/
theorem Loaded.sectors_of_bitmap {flushed final : World} {ended ended' : Except IOError Unit}
    (loaded : Loaded k disk bitmap inodeBuf i j read later)
    (inodeFlush : (later.withINode inodeBuf (i.val * 8 + j.val) name).flush inodeBuf = (ended, flushed))
    (bitmapFlush : (flushed.withBit bitmap i j (read.cache.buffer bitmap i)).flush bitmap = (ended', final)) :
    final.drive.sectors = disk ∨ read.cache.buffer bitmap = disk inodeBitmapStartSector ∧
      (final.drive.sectors = Contents.recorded name i j disk ∨
        final.drive.sectors = Contents.created name i j disk) := by
  have address := diskSector_of_lt (show inodeBitmapStartSector < 2 ^ 23 by decide)
  obtain ⟨cuts, inode⟩ := loaded.sectors_of_inode inodeFlush
  obtain ⟨-, -, sectors⟩ := Cuts.flush bitmapFlush cuts
  have tag : flushed.cache.bufSectors bitmap = inodeBitmapStartSector := by
    obtain rfl := (Prod.mk.inj inodeFlush).2
    exact loaded.bitmapTag
  have bytes : flushed.cache.buffer bitmap = read.cache.buffer bitmap := by
    obtain rfl := (Prod.mk.inj inodeFlush).2
    exact (Function.update_of_ne loaded.apart ..).trans loaded.kept
  simp only [World.withBit, BufCache.bufSectors_poke, BufCache.bufSectors_markDirty, BufCache.buffer_poke,
    Function.update_self, tag, bytes, address] at sectors
  rcases inode with ⟨same, off⟩ | ⟨written, shown⟩
  · rw [if_neg (Nat.not_lt.mpr off), same] at sectors
    exact .inl sectors
  · rw [written, shown] at sectors
    refine .inr ⟨shown, ?_⟩
    split at sectors
    · exact .inr (sectors.trans Contents.created_eq.symm)
    · exact .inl sectors

/-- No buffer is marked dirty. -/
def Clean (world : World) : Prop := ∀ bufNum, world.cache.isDirty bufNum = false

theorem Clean.load {answer : Option BufNum} (clean : Clean world)
    (run : world.readBufSector sector = (answer, after)) : Clean after := fun other =>
  ((World.readBufSector_disk run).2.2.2 other).trans (clean other)

theorem Clean.store {data : Sector} {ended : Except IOError Unit} (clean : Clean world)
    (run : World.flush bufNum ⟨(world.cache.markDirty bufNum).poke bufNum data, world.drive⟩ =
      (ended, after)) : Clean after := by
  intro other
  rw [World.isDirty_of_flush run, clean other, Bool.false_and]

theorem Clean.release (clean : Clean world) (bufNum : BufNum) :
    Clean (world.releaseBuffer bufNum) ∧
      (world.releaseBuffer bufNum).drive.sectors = world.drive.sectors := by
  obtain ⟨sectors, marks⟩ := Stores.sectors_releaseBuffer (clean bufNum)
  exact ⟨fun other => (marks other).trans (clean other), sectors⟩

theorem Clean.sectors_release (clean : Clean world) (first second : BufNum) :
    ((world.releaseBuffer first).releaseBuffer second).drive.sectors = world.drive.sectors :=
  ((clean.release first).1.release second).2.trans (clean.release first).2

/-- What a call can leave on the disk when power is lost during it. -/
theorem CreateOutcome.sectors_of_cut (outcome : CreateOutcome name world result after)
    (powered : Powered k disk world) (same : world.drive.sectors = disk) (clean : Clean world) :
    after.drive.sectors = disk ∨ ∃ i j, firstClear (disk inodeBitmapStartSector) = some (i, j) ∧
      (after.drive.sectors = Contents.recorded name i j disk ∨
        after.drive.sectors = Contents.created name i j disk) := by
  cases outcome with
  | bitmapUnread bitmapRead => exact .inl ((World.readBufSector_disk bitmapRead).1.trans same)
  | full bitmapRead clear =>
    have sectors := (World.readBufSector_disk bitmapRead).1.trans same
    exact .inl (((clean.load bitmapRead).release _).2.trans sectors)
  | inodeUnread bitmapRead clear inodeRead =>
    have sectors := (World.readBufSector_disk bitmapRead).1.trans same
    have sectors' := (World.readBufSector_disk inodeRead).1.trans sectors
    exact .inl ((((clean.load bitmapRead).load inodeRead).release _).2.trans sectors')
  | inodeUnwritten selected inodeFlush =>
    have held := (clean.load selected.bitmapRead).load selected.inodeRead
    rw [(held.store inodeFlush).sectors_release]
    rcases ((powered.loaded same selected).sectors_of_inode inodeFlush).2 with ⟨kept, -⟩ | ⟨written, shown⟩
    · exact .inl kept
    · exact .inr ⟨_, _, shown ▸ selected.clear, .inl written⟩
  | bitmapUnwritten selected inodeFlush bitmapFlush | created selected inodeFlush bitmapFlush =>
    have held := (clean.load selected.bitmapRead).load selected.inodeRead
    rw [((held.store inodeFlush).store bitmapFlush).sectors_release]
    rcases (powered.loaded same selected).sectors_of_bitmap inodeFlush bitmapFlush with
      kept | ⟨shown, written⟩
    · exact .inl kept
    · exact .inr ⟨_, _, shown ▸ selected.clear, written⟩

end Cut

inductive CreateEvent where
  | create (name : List Byte)
  | cut (name : List Byte) (count : Nat) (memory : BufNum → Sector)

/-- The name that is asked for. -/
def CreateEvent.name : CreateEvent → List Byte
  | .create name | .cut name _ _ => name

/-- A run with the names of the calls that set the bits on the disk. -/
structure CreateRun where
  world : World
  names : Nat → Option (List Byte)

namespace CreateRun

def start (memory : BufNum → Sector) (drive : Drive) : CreateRun :=
  ⟨formatted memory drive, fun _ => none⟩

/-- Each bit that is set on the disk now and was not before gets the name. -/
def note (name : List Byte) (after : World) (run : CreateRun) : CreateRun where
  world := after
  names id :=
    if Contents.allocated after.drive.sectors id && !Contents.allocated run.world.drive.sectors id then
      some name
    else run.names id

/-- A call that is cut off leaves the disk as the transfers before have made it. The
run is resumed with an empty cache. -/
def step (run : CreateRun) : CreateEvent → CreateRun
  | .create name =>
    match createFile name run.world with
    | .ok (_, after) => run.note name after
    | .error _ => run
  | .cut name count memory =>
    match createFile name { run.world with drive := cutAfter count run.world.drive } with
    | .ok (_, after) => run.note name
        ⟨.constructed memory, { after.drive with outcomes := run.world.drive.outcomes }⟩
    | .error _ => run

/-- Every bit that is set on the disk belongs to an inode whose record is on the disk,
with the name it was created with. -/
def Consistent (run : CreateRun) : Prop :=
  ∀ id < numINodes, Contents.allocated run.world.drive.sectors id = true →
    ∃ name, run.names id = some name ∧ name.length ≤ INode.nameSize ∧
      Contents.Initialised run.world.drive.sectors id name

section Disk

variable {run : CreateRun} {name : List Byte} {after : World}

theorem Consistent.note_of_same (consistent : Consistent run)
    (same : after.drive.sectors = run.world.drive.sectors) : Consistent (run.note name after) := by
  intro id valid set
  simp only [note, same, Bool.and_not_self, Bool.false_eq_true, if_false] at set ⊢
  exact consistent id valid set

/-- The record of an inode whose bit is clear is written, and its bit may be set. -/
theorem Consistent.note_of_record (consistent : Consistent run) (marks : Bool) (id : Nat)
    (short : name.length ≤ INode.nameSize)
    (bits : ∀ other < numINodes, Contents.allocated after.drive.sectors other =
      (Contents.allocated run.world.drive.sectors other || (marks && decide (other = id))))
    (clear : Contents.allocated run.world.drive.sectors id = false)
    (record : Contents.Initialised after.drive.sectors id name)
    (others : ∀ other ≠ id, Contents.SameRecord run.world.drive.sectors after.drive.sectors other) :
    Consistent (run.note name after) := by
  intro other valid set
  have bit := bits other valid
  change Contents.allocated after.drive.sectors other = true at set
  by_cases new : other = id
  · subst new
    refine ⟨name, ?_, short, record⟩
    simp only [note, set, clear, Bool.not_false, Bool.and_self, if_true]
  · rw [set, decide_eq_false new, Bool.and_false, Bool.or_false] at bit
    obtain ⟨old, named, short', record'⟩ := consistent other valid bit.symm
    refine ⟨old, ?_, short', record'.of_same short' (others other new)⟩
    simp only [note, set, ← bit, Bool.not_true, Bool.and_false, Bool.false_eq_true, if_false, named]

end Disk

/-- A run in which no transfer fails keeps its world coherent and its disk consistent. -/
structure Kept (run : CreateRun) : Prop where
  coherent : Coherent run.world
  consistent : Consistent run

section Steps

variable {run : CreateRun} {name : List Byte} {i : Fin 512} {j : Fin 8} {after : World}

theorem Kept.start (memory : BufNum → Sector) {drive : Drive} (working : drive.Reliable) :
    Kept (start memory drive) := by
  obtain ⟨reliable, -, first⟩ := formatDisk_bitmaps working
  have second : (formatDisk drive).2.sectors (inodeBitmapStartSector + 1) = fun _ => 0 := by
    obtain ⟨-, -, sectors⟩ := writeAll_reliable _ working
    rw [formatDisk, sectors]
    rfl
  refine ⟨Coherent.constructed memory reliable, fun id valid set => ?_⟩
  have place : id / 8 / sectorSize = 0 ∨ id / 8 / sectorSize = 1 := by
    unfold numINodes at valid
    unfold sectorSize
    omega
  change Contents.allocated (formatDisk drive).2.sectors id = true at set
  rcases place with place | place
  · rw [Contents.allocated, place, Nat.add_zero, first] at set
    simp at set
  · rw [Contents.allocated, place, second] at set
    simp at set

theorem clear_of_firstClear
    (clear : firstClear (run.world.drive.sectors inodeBitmapStartSector) = some (i, j)) :
    Contents.allocated run.world.drive.sectors (i.val * 8 + j.val) = false := by
  rw [Contents.allocated_bit, getLsbD_of_firstClear clear]

theorem Consistent.recorded (consistent : Consistent run) (short : name.length ≤ INode.nameSize)
    (clear : firstClear (run.world.drive.sectors inodeBitmapStartSector) = some (i, j))
    (written : after.drive.sectors = Contents.recorded name i j run.world.drive.sectors) :
    Consistent (run.note name after) := by
  refine consistent.note_of_record false (i.val * 8 + j.val) short ?_ (clear_of_firstClear clear) ?_ ?_
  all_goals rw [written]
  · intro other valid
    rw [Contents.allocated_recorded valid, Bool.false_and, Bool.or_false]
  · exact Contents.initialised_recorded short
  · exact fun other different => Contents.sameRecord_of_ne different fun _ _ _ =>
      Contents.recorded_of_outside

theorem Consistent.created (consistent : Consistent run) (short : name.length ≤ INode.nameSize)
    (clear : firstClear (run.world.drive.sectors inodeBitmapStartSector) = some (i, j))
    (written : after.drive.sectors = Contents.created name i j run.world.drive.sectors) :
    Consistent (run.note name after) := by
  have allocates := Contents.allocates_created short clear
  rw [← written] at allocates
  refine consistent.note_of_record true (i.val * 8 + j.val) short ?_ allocates.clear allocates.record ?_
  · intro other valid
    rw [allocates.bits other valid, Bool.true_and]
  · exact fun other different => Contents.sameRecord_of_ne different allocates.others

theorem Kept.create (kept : Kept run) (short : name.length ≤ INode.nameSize) :
    Kept (run.step (.create name)) := by
  obtain ⟨result, after, ran, coherent, made⟩ := kept.coherent.createFile name
  simp only [step, ran]
  refine ⟨coherent, ?_⟩
  rcases made with ⟨-, -, same⟩ | ⟨i, j, clear, -, written⟩
  · exact kept.consistent.note_of_same same
  · exact kept.consistent.created short clear written

/-- A coherent world whose power will be lost. -/
theorem Coherent.powered {world : World} (coherent : Coherent world) (count : Nat) :
    Powered (world.drive.transfers + count) world.drive.sectors
      { world with drive := cutAfter count world.drive } ∧
      Clean { world with drive := cutAfter count world.drive } := by
  refine ⟨⟨cuts_cutAfter coherent.working count, fun _ bufNum small => ?_⟩, fun bufNum => ?_⟩
  · exact coherent.buffered bufNum (ne_noSector small)
  · exact coherent.unheldClean bufNum ((coherent.mask bufNum).mpr (by simp))

theorem Kept.cut (kept : Kept run) (short : name.length ≤ INode.nameSize) (count : Nat)
    (memory : BufNum → Sector) : Kept (run.step (.cut name count memory)) := by
  obtain ⟨powered, clean⟩ := Coherent.powered kept.coherent count
  obtain ⟨result, after, ran, outcome⟩ := createFile_outcome name
    { run.world with drive := cutAfter count run.world.drive }
  simp only [step, ran]
  refine ⟨Coherent.constructed memory kept.coherent.working, ?_⟩
  rcases outcome.sectors_of_cut powered rfl clean with same | ⟨i, j, clear, written | written⟩
  · exact kept.consistent.note_of_same same
  · exact kept.consistent.recorded short clear written
  · exact kept.consistent.created short clear written

theorem Kept.step (kept : Kept run) {event : CreateEvent} (short : event.name.length ≤ INode.nameSize) :
    Kept (run.step event) := by
  cases event with
  | create name => exact kept.create short
  | cut name count memory => exact kept.cut short count memory

end Steps

/-- From a formatted disk on which no transfer fails, at every loss of power and after
it the bitmap refers to records that are on the disk only. -/
theorem crash_consistent (memory : BufNum → Sector) {drive : Drive} (working : drive.Reliable)
    (events : List CreateEvent) (short : ∀ event ∈ events, event.name.length ≤ INode.nameSize) :
    (events.foldl step (start memory drive)).Consistent := by
  have kept (run : CreateRun) (valid : Kept run) : (events.foldl step run).Kept := by
    induction events generalizing run with
    | nil => exact valid
    | cons event rest ih =>
      exact ih (fun event member => short event (List.mem_cons_of_mem _ member)) _
        (valid.step (short event List.mem_cons_self))
  exact (kept _ (Kept.start memory working)).consistent

/-- The second of three calls is cut off after the write of the record, before that of the bitmap. -/
theorem crash_consistent_cut : Consistent ([.create [65], .cut [66] 1 (fun _ _ => 0), .create [67]].foldl step
    (start (fun _ _ => 0) .blank)) :=
  crash_consistent (fun _ _ => 0) (fun _ => rfl) _ (by decide)

/-- The write of the record, the third transfer of the first call, is lost without an
error being reported, and the bitmap is written all the same. -/
theorem lost_record_is_referred_to : ¬ ∀ memory drive (events : List CreateEvent),
    (∀ n error left, drive.outcomes n ≠ .failed (some error) left) →
    (∀ event ∈ events, event.name.length ≤ INode.nameSize) →
    (events.foldl step (start memory drive)).Consistent := by
  intro claim
  have consistent := claim (fun _ _ => 0)
    ⟨fun _ _ => 0, fun n => if n = 20 then .failed none fun _ => 0 else .done, 0⟩ [.create [65]]
    (by intro n error left; dsimp only; split <;> nofun) (by decide)
  obtain ⟨name, named, -, record⟩ := consistent 0 (by decide) (by decide +kernel)
  have same : some name = some [65] := named.symm.trans (by decide +kernel)
  cases same
  exact absurd record.named (by decide +kernel)

end CreateRun

end WalnutOs.Wnfs
