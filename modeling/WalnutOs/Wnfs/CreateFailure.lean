import WalnutOs.Wnfs.CreateFile

/-! What a call of `create_file` that fails leaves of the bitmap, as later calls see it. -/

namespace WalnutOs.Wnfs

open WalnutOs.Klib WalnutOs.Lib

theorem BufCache.bufWithSector_eq_some {cache : BufCache} {sector : Nat} {bufNum : BufNum} :
    cache.bufWithSector sector = some bufNum ↔
      cache.bufSectors bufNum = sector ∧ ∀ other < bufNum, cache.bufSectors other ≠ sector := by
  unfold bufWithSector
  rw [Search.find?_finRange_eq_some]
  simp only [decide_eq_true_eq, decide_eq_false_iff_not]

namespace World

/-- The bitmap of the inodes is in a buffer, with these bytes. -/
structure Shows (bitmap : BufNum) (bytes : Sector) (world : World) : Prop where
  found : world.cache.bufWithSector inodeBitmapStartSector = some bitmap
  bytes : world.cache.buffer bitmap = bytes

section Shows

variable {world after : World} {bitmap bufNum : BufNum} {bytes : Sector} {sector : Nat}

theorem Shows.stored (shows : Shows bitmap bytes world) : world.stored inodeBitmapStartSector = bytes := by
  rw [World.stored, shows.found]
  exact shows.bytes

theorem Shows.of_same (shows : Shows bitmap bytes world)
    (tags : after.cache.bufSectors = world.cache.bufSectors)
    (same : after.cache.buffer bitmap = world.cache.buffer bitmap) : Shows bitmap bytes after := by
  refine ⟨?_, same.trans shows.bytes⟩
  rw [BufCache.bufWithSector, tags]
  exact shows.found

theorem Shows.releaseBuffer (shows : Shows bitmap bytes world) (bufNum : BufNum) :
    Shows bitmap bytes (world.releaseBuffer bufNum) :=
  shows.of_same (world.bufSectors_releaseBuffer bufNum) (congrFun (world.buffer_releaseBuffer bufNum) bitmap)

theorem Shows.flush {result : Except IOError Unit} (shows : Shows bitmap bytes world)
    (run : world.flush bufNum = (result, after)) : Shows bitmap bytes after := by
  obtain rfl := (Prod.mk.inj run).2
  exact shows.of_same rfl rfl

theorem Shows.withINode {inodeNum : Nat} {name : List Byte} (shows : Shows bitmap bytes world)
    (apart : bitmap ≠ bufNum) : Shows bitmap bytes (world.withINode bufNum inodeNum name) :=
  shows.of_same rfl (Function.update_of_ne apart ..)

theorem Shows.withBit {i : Fin 512} {j : Fin 8} {byte : Byte} (shows : Shows bitmap bytes world) :
    Shows bitmap (Function.update bytes i (byte ||| 1#8 <<< j.val)) (world.withBit bitmap i j byte) := by
  refine ⟨shows.found, ?_⟩
  rw [← shows.bytes]
  exact Function.update_self ..

/-- The buffer that is given for a sector is then the one that records it. -/
theorem found_of_read (answer : world.readBufSector sector = (some bufNum, after)) :
    after.cache.bufWithSector sector = some bufNum := by
  rw [BufCache.bufWithSector_eq_some, (readBufSector_some answer).1]
  refine ⟨Function.update_self .., fun other below => ?_⟩
  rw [Function.update_of_ne (Fin.ne_of_lt below)]
  rcases readBufSector_some_cases answer with ⟨found, -⟩ | ⟨-, missing, -, -, -⟩
  · exact (BufCache.bufWithSector_eq_some.mp found).2 other below
  · exact BufCache.bufSectors_of_missing missing other

/-- A read of another sector leaves the bitmap in its buffer. -/
theorem Shows.read {answer : Option BufNum} (shows : Shows bitmap bytes world)
    (busy : world.cache.isFree bitmap = false) (elsewhere : sector ≠ inodeBitmapStartSector)
    (run : world.readBufSector sector = (answer, after)) : Shows bitmap bytes after := by
  have tag := (BufCache.bufWithSector_eq_some.mp shows.found).1
  cases answer with
  | some bufNum =>
    have apart := readBufSector_ne run busy (by rw [tag]; exact elsewhere.symm)
    refine ⟨?_, ((readBufSector_keeps run).2 bitmap apart).trans shows.bytes⟩
    rw [BufCache.bufWithSector_eq_some, (readBufSector_some run).1, Function.update_of_ne apart]
    refine ⟨tag, fun other below => ?_⟩
    rw [Function.update_apply]
    split
    · exact elsewhere
    · exact (BufCache.bufWithSector_eq_some.mp shows.found).2 other below
  | none =>
    rcases world.readBufSector_cases sector with ⟨_, -, ran⟩ | ⟨-, -, ran⟩ | ⟨_, _, -, -, -, ran⟩ |
        ⟨free, _, data, -, unused, -, ran⟩
    · cases (Prod.mk.inj (run.symm.trans ran)).1
    · cases (Prod.mk.inj (run.symm.trans ran)).2
      exact shows
    · cases (Prod.mk.inj (run.symm.trans ran)).1
    · obtain rfl := (Prod.mk.inj (run.symm.trans ran)).2
      have apart : bitmap ≠ free := by
        rintro rfl
        rw [BufCache.isFree_of_found unused] at busy
        cases busy
      exact shows.of_same rfl (Function.update_of_ne apart ..)

/-- A sector that cannot be read is still what it was. -/
theorem stored_of_unread (unread : world.readBufSector sector = (none, after)) :
    after.stored sector = world.stored sector := by
  rcases world.readBufSector_cases sector with ⟨_, -, ran⟩ | ⟨-, -, ran⟩ | ⟨_, _, -, -, -, ran⟩ |
      ⟨free, _, data, missing, -, -, ran⟩
  · cases (Prod.mk.inj (unread.symm.trans ran)).1
  · rw [(Prod.mk.inj (unread.symm.trans ran)).2]
  · cases (Prod.mk.inj (unread.symm.trans ran)).1
  · obtain rfl := (Prod.mk.inj (unread.symm.trans ran)).2
    have missing' : (world.cache.poke free data).bufWithSector sector = none := missing
    rw [World.stored, World.stored, missing, missing']
    rfl

theorem outcome_of_flush_error {error : IOError} (run : world.flush bufNum = (.error error, after)) :
    ∃ left, world.drive.outcome = .failed (some error) left := by
  rcases world.flush_cases bufNum with ⟨-, ran⟩ | ⟨reported, left, failed, result, -⟩
  · cases run.symm.trans ran
  · rw [run] at result
    cases reported with
    | none => cases result
    | some _ =>
      cases result
      exact ⟨left, failed⟩

theorem outcome_of_flush_ok (run : world.flush bufNum = (.ok (), after)) (error : IOError)
    (left : Klib.Sector) : world.drive.outcome ≠ .failed (some error) left := by
  intro failed
  rcases world.flush_cases bufNum with ⟨done, -⟩ | ⟨reported, _, failed', result, -⟩
  · rw [done] at failed
    cases failed
  · cases failed.symm.trans failed'
    rw [run] at result
    cases result

end Shows

/-- The bitmap that a call gets to see: a transfer that fails unreported leaves any bytes. -/
def bitmapSeen (world : World) : Sector :=
  match world.cache.bufWithSector inodeBitmapStartSector, world.drive.outcome with
  | none, .failed none left => left
  | _, _ => world.stored inodeBitmapStartSector

/-- If the bitmap has to be read from the disk, the transfer does not fail unreported. -/
def BitmapLoads (world : World) : Prop :=
  world.cache.bufWithSector inodeBitmapStartSector = none → ∀ left, world.drive.outcome ≠ .failed none left

variable {world read : World} {bitmap : BufNum}

theorem BitmapLoads.bitmapSeen_eq (loads : world.BitmapLoads) :
    world.bitmapSeen = world.stored inodeBitmapStartSector := by
  unfold bitmapSeen
  split
  · rename_i left missing failed
    exact absurd failed (loads missing left)
  · rfl

/-- The bitmap is seen in the buffer that it is read into. -/
theorem shows_bitmapSeen (answer : world.readBufSector inodeBitmapStartSector = (some bitmap, read)) :
    Shows bitmap world.bitmapSeen read ∧ read.cache.isFree bitmap = false := by
  refine ⟨⟨found_of_read answer, ?_⟩, (readBufSector_keeps answer).1⟩
  rcases readBufSector_some_cases answer with ⟨found, rfl⟩ | ⟨data, missing, -, transfer, rfl⟩
  · simp only [bitmapSeen, World.stored, found]
    rfl
  · rcases transfer with ⟨done, rfl⟩ | failed
    · simp only [bitmapSeen, World.stored, missing, done]
      simp [diskSector_of_lt (show inodeBitmapStartSector < 2 ^ 23 by decide)]
    · simp only [bitmapSeen, missing, failed]
      simp

/-- From this cache and this disk a call of `create_file` that succeeds, whatever the
transfers after it do, can return the inode. -/
def Creates (world : World) (id : Nat) : Prop :=
  ∃ name outcomes transfers final,
    World.BitmapLoads ⟨world.cache, world.drive.sectors, outcomes, transfers⟩ ∧
      createFile name ⟨world.cache, world.drive.sectors, outcomes, transfers⟩ = .ok (.ok id, final)

/-- The inodes that are taken for allocated are the same, and so is the next one that
can be created. -/
structure AllocatesNothing (before after : World) : Prop where
  regarded : ∀ id < Contents.searchedINodes,
    Contents.allocated after.stored id = Contents.allocated before.stored id
  next : ∀ id other, after.Creates id → before.Creates other → id = other

/-- The first clear bit of the bitmap is this one, the sector of its inode can be read,
and the write of the inode, which comes next, is not reported to fail. -/
def Marks (world : World) (i : Fin 512) (j : Fin 8) : Prop :=
  ∃ bitmap inodeBuf read later, Selected world bitmap inodeBuf i j read later ∧
    ∀ error left, later.drive.outcome ≠ .failed (some error) left

/-- The bitmap is read, by a transfer that fails unreported and leaves other bytes. -/
def Misreads (world : World) : Prop :=
  (∃ bitmap read, world.readBufSector inodeBitmapStartSector = (some bitmap, read)) ∧
    world.bitmapSeen ≠ world.stored inodeBitmapStartSector

/-- The call fails before it sets a bit, in a bitmap that is not misread; or it is misread
and differs from the stored one in the bit alone that the call sets then. -/
def LeavesBitmap (world : World) : Prop :=
  (∀ i j, ¬ world.Marks i j) ∧ ¬ world.Misreads ∨
    ∃ i j, world.Marks i j ∧ world.stored inodeBitmapStartSector =
      Function.update world.bitmapSeen i (world.bitmapSeen i ||| 1#8 <<< j.val)

end World

section Failure

variable {name : List Byte} {world after read later : World} {bitmap inodeBuf : BufNum}
variable {i : Fin 512} {j : Fin 8} {id : Nat} {error : FileError}

theorem World.Creates.lowest (creates : world.Creates id) :
    ∃ i j, firstClear (world.stored inodeBitmapStartSector) = some (i, j) ∧ id = i.val * 8 + j.val := by
  obtain ⟨name, outcomes, transfers, final, loads, run⟩ := creates
  generalize again_eq : (⟨world.cache, world.drive.sectors, outcomes, transfers⟩ : World) = again at *
  have same : again.stored = world.stored := by
    subst again_eq
    rfl
  cases CreateOutcome.of_run run with
  | created selected =>
    have clear := selected.clear
    rw [(World.shows_bitmapSeen selected.bitmapRead).1.bytes, loads.bitmapSeen_eq, same] at clear
    exact ⟨_, _, clear, rfl⟩

/-- Later calls regard the same inodes as allocated exactly if the first sector of the
bitmap is still the same to them. -/
theorem World.allocatesNothing_iff : World.AllocatesNothing world after ↔
    after.stored inodeBitmapStartSector = world.stored inodeBitmapStartSector := by
  constructor
  · intro nothing
    exact Contents.bitmap_ext nothing.regarded
  · intro same
    constructor
    · intro id searched
      obtain ⟨i, j, -, bit⟩ := Contents.allocated_of_searched searched
      rw [bit, bit, same]
    · intro id other creates creates'
      obtain ⟨i, j, clear, rfl⟩ := creates.lowest
      obtain ⟨i', j', clear', rfl⟩ := creates'.lowest
      rw [same, clear'] at clear
      cases clear
      rfl

/-- The inode's sector is read into another buffer, the bitmap stays in its own. -/
theorem Selected.shows (selected : Selected world bitmap inodeBuf i j read later) :
    World.Shows bitmap world.bitmapSeen later ∧ bitmap ≠ inodeBuf := by
  obtain ⟨shows, busy⟩ := World.shows_bitmapSeen selected.bitmapRead
  have elsewhere := (inodeBitmapStartSector_lt (i.val * 8 + j.val)).ne'
  have tag := (BufCache.bufWithSector_eq_some.mp shows.found).1
  exact ⟨shows.read busy elsewhere selected.inodeRead,
    World.readBufSector_ne selected.inodeRead busy (by rw [tag]; exact elsewhere.symm)⟩

/-- A call that sets no bit leaves the bitmap as it saw it, if it saw it at all. -/
theorem CreateOutcome.stored_of_unmarked (outcome : CreateOutcome name world (.error error) after)
    (unmarked : ∀ i j, ¬ world.Marks i j) :
    (∃ read, world.readBufSector inodeBitmapStartSector = (none, read)) ∧
        after.stored inodeBitmapStartSector = world.stored inodeBitmapStartSector ∨
      (∃ bitmap read, world.readBufSector inodeBitmapStartSector = (some bitmap, read)) ∧
        after.stored inodeBitmapStartSector = world.bitmapSeen := by
  cases outcome with
  | bitmapUnread bitmapRead => exact .inl ⟨⟨_, bitmapRead⟩, World.stored_of_unread bitmapRead⟩
  | full bitmapRead clear =>
    exact .inr ⟨⟨_, _, bitmapRead⟩, ((World.shows_bitmapSeen bitmapRead).1.releaseBuffer _).stored⟩
  | inodeUnread bitmapRead clear inodeRead =>
    obtain ⟨shows, busy⟩ := World.shows_bitmapSeen bitmapRead
    have still := shows.read busy (inodeBitmapStartSector_lt _).ne' inodeRead
    exact .inr ⟨⟨_, _, bitmapRead⟩, (still.releaseBuffer _).stored⟩
  | inodeUnwritten selected inodeFlush =>
    obtain ⟨shows, apart⟩ := selected.shows
    have still := (shows.withINode apart).flush inodeFlush
    exact .inr ⟨⟨_, _, selected.bitmapRead⟩, ((still.releaseBuffer _).releaseBuffer _).stored⟩
  | bitmapUnwritten selected inodeFlush bitmapFlush =>
    have written := World.outcome_of_flush_ok inodeFlush
    exact absurd ⟨_, _, _, _, selected, written⟩ (unmarked _ _)

/-- Once the bit is set in the buffer of the bitmap, later calls find it set. -/
theorem CreateOutcome.stored_of_marked (outcome : CreateOutcome name world (.error error) after)
    (marks : world.Marks i j) : after.stored inodeBitmapStartSector =
      Function.update world.bitmapSeen i (world.bitmapSeen i ||| 1#8 <<< j.val) := by
  obtain ⟨_, _, _, _, selected, written⟩ := marks
  cases outcome with
  | bitmapUnread bitmapRead => cases selected.bitmapRead.symm.trans bitmapRead
  | full bitmapRead clear =>
    cases selected.bitmapRead.symm.trans bitmapRead
    cases selected.clear.symm.trans clear
  | inodeUnread bitmapRead clear inodeRead =>
    cases selected.bitmapRead.symm.trans bitmapRead
    cases selected.clear.symm.trans clear
    cases selected.inodeRead.symm.trans inodeRead
  | inodeUnwritten selected' inodeFlush =>
    cases selected.bitmapRead.symm.trans selected'.bitmapRead
    cases selected.clear.symm.trans selected'.clear
    cases selected.inodeRead.symm.trans selected'.inodeRead
    obtain ⟨left, failed⟩ := World.outcome_of_flush_error inodeFlush
    exact absurd failed (written _ left)
  | bitmapUnwritten selected' inodeFlush bitmapFlush =>
    cases selected.bitmapRead.symm.trans selected'.bitmapRead
    cases selected.clear.symm.trans selected'.clear
    obtain ⟨shows, apart⟩ := selected'.shows
    have marked := ((shows.withINode apart).flush inodeFlush).withBit.flush bitmapFlush
    rw [(World.shows_bitmapSeen selected'.bitmapRead).1.bytes] at marked
    exact ((marked.releaseBuffer _).releaseBuffer _).stored

end Failure

/-- A call that fails allocates nothing exactly when it fails before the bit is set in
the buffer of the bitmap, which it has read as it is stored. After that only the flush
of the bitmap can fail, and later calls find the bit in the buffer. -/
theorem failure_allocates_nothing_iff {name : List Byte} {world after : World} {error : FileError}
    (failed : createFile name world = .ok (.error error, after)) :
    World.AllocatesNothing world after ↔ world.LeavesBitmap := by
  have outcome := CreateOutcome.of_run failed
  rw [World.allocatesNothing_iff]
  constructor
  · intro same
    by_cases marked : ∃ i j, world.Marks i j
    · obtain ⟨i, j, marks⟩ := marked
      exact .inr ⟨i, j, marks, same.symm.trans (outcome.stored_of_marked marks)⟩
    · have unmarked : ∀ i j, ¬ world.Marks i j := fun i j marks => marked ⟨i, j, marks⟩
      refine .inl ⟨unmarked, ?_⟩
      rintro ⟨⟨_, _, answer⟩, differs⟩
      rcases outcome.stored_of_unmarked unmarked with ⟨⟨_, unread⟩, -⟩ | ⟨-, seen⟩
      · cases answer.symm.trans unread
      · exact differs (seen.symm.trans same)
  · rintro (⟨unmarked, loaded⟩ | ⟨i, j, marks, same⟩)
    · rcases outcome.stored_of_unmarked unmarked with ⟨-, kept⟩ | ⟨answer, seen⟩
      · exact kept
      · exact seen.trans (not_ne_iff.mp fun differs => loaded ⟨answer, differs⟩)
    · exact (outcome.stored_of_marked marks).trans same.symm

/-- An empty cache and a disk on which every bit is set. -/
def fullDisk : World := ⟨.constructed fun _ _ => 0, ⟨fun _ _ => 0xFF, fun _ => .done, 0⟩⟩

/-- No bit of the bitmap is clear: the call fails, and nothing is allocated. -/
theorem failure_allocates_nothing_full : ∃ after,
    createFile [] fullDisk = .ok (.error .outOfINodes, after) ∧ World.AllocatesNothing fullDisk after := by
  have set : ∀ bitmap read, fullDisk.readBufSector inodeBitmapStartSector = (some bitmap, read) →
      firstClear (read.cache.buffer bitmap) = none := by
    rintro _ _ ⟨⟩
    decide +kernel
  have unmarked : ∀ i j, ¬ fullDisk.Marks i j := by
    rintro i j ⟨_, _, _, _, selected, -⟩
    cases selected.clear.symm.trans (set _ _ selected.bitmapRead)
  have loads : fullDisk.BitmapLoads := by
    rintro - left ⟨⟩
  obtain ⟨result, after, run, outcome⟩ := createFile_outcome [] fullDisk
  cases outcome with
  | bitmapUnread bitmapRead => cases bitmapRead
  | full =>
    exact ⟨_, run, (failure_allocates_nothing_iff run).mpr
      (.inl ⟨unmarked, fun misread => misread.2 loads.bitmapSeen_eq⟩)⟩
  | inodeUnread bitmapRead clear => cases clear.symm.trans (set _ _ bitmapRead)
  | inodeUnwritten selected | bitmapUnwritten selected | created selected =>
    cases selected.clear.symm.trans (set _ _ selected.bitmapRead)

/-- The first transfer of the first call on a formatted disk is the read of the bitmap. If it
fails, which is not reported, and leaves set bits, every inode is taken for allocated. -/
theorem misread_bitmap_allocates : ¬ ∀ memory drive name error after,
    createFile name (formatted memory drive) = .ok (.error error, after) →
      World.AllocatesNothing (formatted memory drive) after := by
  intro claim
  obtain ⟨result, after, run, -⟩ := createFile_outcome [] (formatted (fun _ _ => 0) ⟨fun _ _ => 0,
    fun n => if n = 18 then .failed none fun _ => 0xFF else .done, 0⟩)
  have set : (match createFile [] (formatted (fun _ _ => 0) ⟨fun _ _ => 0,
      fun n => if n = 18 then .failed none fun _ => 0xFF else .done, 0⟩) with
    | .ok (.error _, after) => Contents.allocated after.stored 0
    | _ => false) = true := by decide +kernel
  rw [run] at set
  cases result with
  | ok id => cases set
  | error error =>
    have same := (claim _ _ _ _ _ run).regarded 0 (by decide)
    exact absurd (same.symm.trans set) (by decide +kernel)

end WalnutOs.Wnfs
