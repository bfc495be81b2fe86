import WalnutOs.Wnfs.INodes

/-! `create_file` on any disk: what a call can do, step by step, and that on a disk
without errors it allocates the lowest free inode. -/

namespace WalnutOs.Wnfs

open WalnutOs.Klib WalnutOs.Lib

namespace World

variable {world after : World} {sector : Nat} {bufNum other : BufNum}

/-- On a disk without errors no flush fails. -/
theorem flush_ne_error {error : IOError} (failed : world.flush bufNum = (.error error, after))
    (working : world.drive.Reliable) : False := by
  rcases world.flush_cases bufNum with ⟨-, run⟩ | ⟨reported, left, lost, -⟩
  · cases failed.symm.trans run
  · rw [working.outcome] at lost
    cases lost

/-- A buffer that was stored in and flushed is clean, and no other mark changes. -/
theorem isDirty_of_flush {ended : Except IOError Unit} {data : Klib.Sector}
    (run : World.flush bufNum ⟨(world.cache.markDirty bufNum).poke bufNum data, world.drive⟩ =
      (ended, after)) (other : BufNum) :
    after.cache.isDirty other = (world.cache.isDirty other && !decide (other = bufNum)) := by
  obtain rfl := (Prod.mk.inj run).2
  by_cases same : other = bufNum <;> simp [same]

/-- A clean buffer is given back without a transfer. -/
theorem releaseBuffer_of_clean (clean : world.cache.isDirty bufNum = false) :
    world.releaseBuffer bufNum = { world with cache := { world.cache with
      bufferFreeMask := world.cache.bufferFreeMask ^^^ 1#8 <<< bufNum.val } } := by
  unfold releaseBuffer
  exact if_neg (Bool.eq_false_iff.mp clean)

/-- A read takes no buffer that is in use for another sector. -/
theorem readBufSector_ne (answer : world.readBufSector sector = (some bufNum, after))
    (busy : world.cache.isFree other = false) (elsewhere : world.cache.bufSectors other ≠ sector) :
    other ≠ bufNum := by
  rintro rfl
  rcases readBufSector_some_cases answer with ⟨hit, -⟩ | ⟨_, -, free, -, -⟩
  · exact elsewhere (BufCache.bufSectors_of_found hit)
  · rw [BufCache.isFree_of_found free] at busy
    cases busy

/-- A read changes no other buffer, and its own is in use then. -/
theorem readBufSector_keeps (answer : world.readBufSector sector = (some bufNum, after)) :
    after.cache.isFree bufNum = false ∧
      ∀ other, other ≠ bufNum → after.cache.buffer other = world.cache.buffer other := by
  rcases readBufSector_some_cases answer with ⟨-, rfl⟩ | ⟨data, -, -, -, rfl⟩
  · exact ⟨by simp, fun other different => rfl⟩
  · exact ⟨by simp, fun other different => by simp [different]⟩

/-- A new inode is stored in a buffer, through the pointer of `as_ptr`. -/
def withINode (inodeBuf : BufNum) (inodeNum : Nat) (name : List Byte) (world : World) : World :=
  ⟨(world.cache.markDirty inodeBuf).poke inodeBuf
    (INode.initial (inodeSectorOffset inodeNum) name (world.cache.buffer inodeBuf)), world.drive⟩

/-- The bit of an inode is set in a buffer, over the byte that was read before. -/
def withBit (bitmap : BufNum) (i : Fin 512) (j : Fin 8) (byte : Byte) (world : World) : World :=
  ⟨(world.cache.markDirty bitmap).poke bitmap
    (Function.update (world.cache.buffer bitmap) i (byte ||| 1#8 <<< j.val)), world.drive⟩

end World

/-- The bitmap was read, `(i, j)` is its first clear bit, and the inode's sector was read. -/
structure Selected (world : World) (bitmap inodeBuf : BufNum) (i : Fin 512) (j : Fin 8)
    (read later : World) : Prop where
  bitmapRead : world.readBufSector inodeBitmapStartSector = (some bitmap, read)
  clear : firstClear (read.cache.buffer bitmap) = some (i, j)
  inodeRead : read.readBufSector (inodeSector (i.val * 8 + j.val)) = (some inodeBuf, later)

/-- The six ways in which a call of `create_file` ends. -/
inductive CreateOutcome (name : List Byte) (world : World) : Except FileError Nat → World → Prop where
  | bitmapUnread {read : World}
      (bitmapRead : world.readBufSector inodeBitmapStartSector = (none, read)) :
      CreateOutcome name world (.error .diskError) read
  | full {bitmap : BufNum} {read : World}
      (bitmapRead : world.readBufSector inodeBitmapStartSector = (some bitmap, read))
      (clear : firstClear (read.cache.buffer bitmap) = none) :
      CreateOutcome name world (.error .outOfINodes) (read.releaseBuffer bitmap)
  | inodeUnread {bitmap : BufNum} {i : Fin 512} {j : Fin 8} {read later : World}
      (bitmapRead : world.readBufSector inodeBitmapStartSector = (some bitmap, read))
      (clear : firstClear (read.cache.buffer bitmap) = some (i, j))
      (inodeRead : read.readBufSector (inodeSector (i.val * 8 + j.val)) = (none, later)) :
      CreateOutcome name world (.error .diskError) (later.releaseBuffer bitmap)
  | inodeUnwritten {bitmap inodeBuf : BufNum} {i : Fin 512} {j : Fin 8} {read later flushed : World}
      {error : IOError} (selected : Selected world bitmap inodeBuf i j read later)
      (inodeFlush : (later.withINode inodeBuf (i.val * 8 + j.val) name).flush inodeBuf =
        (.error error, flushed)) :
      CreateOutcome name world (.error .diskError)
        ((flushed.releaseBuffer inodeBuf).releaseBuffer bitmap)
  | bitmapUnwritten {bitmap inodeBuf : BufNum} {i : Fin 512} {j : Fin 8}
      {read later flushed final : World} {error : IOError}
      (selected : Selected world bitmap inodeBuf i j read later)
      (inodeFlush : (later.withINode inodeBuf (i.val * 8 + j.val) name).flush inodeBuf = (.ok (), flushed))
      (bitmapFlush : (flushed.withBit bitmap i j (read.cache.buffer bitmap i)).flush bitmap =
        (.error error, final)) :
      CreateOutcome name world (.error .diskError) ((final.releaseBuffer inodeBuf).releaseBuffer bitmap)
  | created {bitmap inodeBuf : BufNum} {i : Fin 512} {j : Fin 8} {read later flushed final : World}
      (selected : Selected world bitmap inodeBuf i j read later)
      (inodeFlush : (later.withINode inodeBuf (i.val * 8 + j.val) name).flush inodeBuf = (.ok (), flushed))
      (bitmapFlush : (flushed.withBit bitmap i j (read.cache.buffer bitmap i)).flush bitmap =
        (.ok (), final)) :
      CreateOutcome name world (.ok (i.val * 8 + j.val))
        ((final.releaseBuffer inodeBuf).releaseBuffer bitmap)

theorem createFile_outcome (name : List Byte) (world : World) :
    ∃ result after, createFile name world = .ok (result, after) ∧ CreateOutcome name world result after := by
  unfold createFile
  rw [WnfsM.withBufSector]
  rcases bitmapRead : world.readBufSector inodeBitmapStartSector with ⟨_ | bitmap, read⟩
  · exact ⟨_, _, rfl, .bitmapUnread bitmapRead⟩
  simp only [WnfsM.peek, bind, StateT.bind, Except.bind]
  cases clear : firstClear (read.cache.buffer bitmap) with
  | none => exact ⟨_, _, rfl, .full bitmapRead clear⟩
  | some place =>
    obtain ⟨i, j⟩ := place
    simp only [WnfsM.withBufSector]
    rcases inodeRead : read.readBufSector (inodeSector (i.val * 8 + j.val)) with ⟨_ | inodeBuf, later⟩
    · exact ⟨_, _, rfl, .inodeUnread bitmapRead clear inodeRead⟩
    have selected : Selected world bitmap inodeBuf i j read later := ⟨bitmapRead, clear, inodeRead⟩
    have stored : later.withINode inodeBuf (i.val * 8 + j.val) name =
        ⟨(later.cache.markDirty inodeBuf).poke inodeBuf (INode.initial
          (inodeSectorOffset (i.val * 8 + j.val)) name (later.cache.buffer inodeBuf)), later.drive⟩ := rfl
    simp only [StateT.bind, WnfsM.asPtr, WnfsM.edit, WnfsM.flush, bind, Except.bind,
      BufCache.buffer_markDirty, ← stored]
    rcases inodeFlush : (later.withINode inodeBuf (i.val * 8 + j.val) name).flush inodeBuf with
      ⟨error | ⟨⟩, flushed⟩
    · exact ⟨_, _, rfl, .inodeUnwritten selected inodeFlush⟩
    have set : flushed.withBit bitmap i j (read.cache.buffer bitmap i) =
        ⟨(flushed.cache.markDirty bitmap).poke bitmap (Function.update (flushed.cache.buffer bitmap) i
          (read.cache.buffer bitmap i ||| 1#8 <<< j.val)), flushed.drive⟩ := rfl
    simp only [StateT.bind, WnfsM.write, WnfsM.flush, BufCache.setVal_of_lt, Except.map, bind, Except.bind,
      ← set]
    rcases bitmapFlush : (flushed.withBit bitmap i j (read.cache.buffer bitmap i)).flush bitmap with
      ⟨error | ⟨⟩, final⟩
    · exact ⟨_, _, rfl, .bitmapUnwritten selected inodeFlush bitmapFlush⟩
    · exact ⟨_, _, rfl, .created selected inodeFlush bitmapFlush⟩

theorem CreateOutcome.of_run {name : List Byte} {world after : World} {result : Except FileError Nat}
    (run : createFile name world = .ok (result, after)) : CreateOutcome name world result after := by
  obtain ⟨_, _, ran, outcome⟩ := createFile_outcome name world
  cases ran.symm.trans run
  exact outcome

namespace Stores

variable {world read later : World} {refs : List BufCacheRef} {contents : Contents}
variable {bitmap inodeBuf : BufNum} {i : Fin 512} {j : Fin 8} {held : BufCacheRef}

/-- A flush writes to the disk what the holder of the buffer sees. -/
theorem sectors_flush (stores : Stores world refs contents) (live : held ∈ refs) :
    (world.flush held.bufNum).2.drive.sectors =
      Function.update world.drive.sectors held.sector (contents held.sector) := by
  obtain ⟨small, there⟩ := stores.recorded held live
  rw [world.sectors_flush stores.working, there, diskSector_of_lt small, stores.buffer_held live]

theorem sectors_releaseBuffer {world : World} {bufNum : BufNum}
    (clean : world.cache.isDirty bufNum = false) :
    (world.releaseBuffer bufNum).drive.sectors = world.drive.sectors ∧
      ∀ other, (world.releaseBuffer bufNum).cache.isDirty other = world.cache.isDirty other := by
  rw [World.releaseBuffer_of_clean clean]
  exact ⟨rfl, fun _ => rfl⟩

theorem bitmapRead (stores : Stores world [] contents)
    (answer : world.readBufSector inodeBitmapStartSector = (some bitmap, read)) :
    Stores read [⟨inodeBitmapStartSector, bitmap⟩] contents ∧
      read.cache.buffer bitmap = contents inodeBitmapStartSector ∧
      read.cache.isDirty bitmap = false ∧ read.drive.sectors = world.drive.sectors := by
  have taken := stores.taken (by decide) (by simp) answer
  have clean := stores.unheldClean bitmap ((stores.mask bitmap).mpr (by simp))
  refine ⟨taken, taken.buffer_held List.mem_cons_self, ?_, (World.readBufSector_disk answer).1⟩
  rw [(World.readBufSector_some answer).2, clean]

theorem selected (stores : Stores world [] contents)
    (selected : Selected world bitmap inodeBuf i j read later) :
    Stores later [⟨inodeSector (i.val * 8 + j.val), inodeBuf⟩, ⟨inodeBitmapStartSector, bitmap⟩] contents ∧
      later.drive.sectors = world.drive.sectors := by
  obtain ⟨taken, -, -, sectors⟩ := stores.bitmapRead selected.bitmapRead
  have valid : i.val * 8 + j.val < numINodes := by
    unfold numINodes
    omega
  have apart := (inodeBitmapStartSector_lt (i.val * 8 + j.val)).ne
  refine ⟨taken.taken (Holds.inode_cached valid).1 (by simpa using apart) selected.inodeRead, ?_⟩
  rw [(World.readBufSector_disk selected.inodeRead).1, sectors]

/-- A buffer that its holder has stored a sector in is flushed. -/
theorem store_flush {data : Sector} {after : World} (stores : Stores world refs contents) (live : held ∈ refs)
    (run : World.flush held.bufNum ⟨(world.cache.markDirty held.bufNum).poke held.bufNum data, world.drive⟩ =
      (.ok (), after)) :
    Stores after refs (Function.update contents held.sector data) ∧
      after.drive.sectors = Function.update world.drive.sectors held.sector data ∧
      ∀ other, after.cache.isDirty other = (world.cache.isDirty other && !decide (other = held.bufNum)) := by
  have stored := (stores.markDirty live).poke live (by simp) data
  have flushed := (stored.flush live).2
  have sectors := stored.sectors_flush live
  rw [run] at flushed sectors
  refine ⟨flushed, ?_, World.isDirty_of_flush run⟩
  rw [sectors, Function.update_self]

theorem created {name : List Byte} {flushed final : World} (stores : Stores world [] world.drive.sectors)
    (selected : Selected world bitmap inodeBuf i j read later)
    (inodeFlush : (later.withINode inodeBuf (i.val * 8 + j.val) name).flush inodeBuf = (.ok (), flushed))
    (bitmapFlush : (flushed.withBit bitmap i j (read.cache.buffer bitmap i)).flush bitmap = (.ok (), final)) :
    ((final.releaseBuffer inodeBuf).releaseBuffer bitmap).drive.sectors =
        Contents.created name i j world.drive.sectors ∧
      Stores ((final.releaseBuffer inodeBuf).releaseBuffer bitmap) []
        (Contents.created name i j world.drive.sectors) := by
  obtain ⟨-, bytes, -, -⟩ := stores.bitmapRead selected.bitmapRead
  obtain ⟨taken, sectors⟩ := stores.selected selected
  generalize inode_eq : (⟨inodeSector (i.val * 8 + j.val), inodeBuf⟩ : BufCacheRef) = inode at taken
  generalize map_eq : (⟨inodeBitmapStartSector, bitmap⟩ : BufCacheRef) = map at taken
  have inodeLive : inode ∈ [inode, map] := by simp
  have mapLive : map ∈ [inode, map] := by simp
  have latest : [inode, map][0]? = some inode := rfl
  have apart : map.bufNum ≠ inode.bufNum := taken.alone latest map (by simp)
  have loaded := taken.buffer_held inodeLive
  subst inode_eq map_eq
  rw [World.withINode, loaded] at inodeFlush
  obtain ⟨stored, written, clean⟩ := taken.store_flush inodeLive inodeFlush
  have shown := stored.buffer_held mapLive
  rw [World.withBit, shown, bytes] at bitmapFlush
  obtain ⟨set, rewritten, cleaned⟩ := stored.store_flush mapLive bitmapFlush
  have inodeClean : final.cache.isDirty inodeBuf = false := by simp [cleaned, clean]
  have mapClean : final.cache.isDirty bitmap = false := by simp [cleaned]
  obtain ⟨kept, marks⟩ := sectors_releaseBuffer inodeClean
  refine ⟨?_, set.releaseLatest.releaseLatest⟩
  rw [(sectors_releaseBuffer ((marks bitmap).trans mapClean)).1, kept, rewritten, written, sectors]
  rfl

end Stores

/-- A cache without references that agrees with its disk, which has no errors. -/
def Coherent (world : World) : Prop := Stores world [] world.drive.sectors

theorem Coherent.constructed (memory : BufNum → Sector) {drive : Drive} (working : drive.Reliable) :
    Coherent ⟨.constructed memory, drive⟩ := Stores.start memory working

/-- On a coherent world a call creates the inode of the first clear bit, if there is one. -/
theorem Coherent.createFile {world : World} (coherent : Coherent world) (name : List Byte) :
    ∃ result after, Wnfs.createFile name world = .ok (result, after) ∧ Coherent after ∧
      (firstClear (world.drive.sectors inodeBitmapStartSector) = none ∧ result = .error .outOfINodes ∧
          after.drive.sectors = world.drive.sectors ∨
        ∃ i j, firstClear (world.drive.sectors inodeBitmapStartSector) = some (i, j) ∧
          result = .ok (i.val * 8 + j.val) ∧
          after.drive.sectors = Contents.created name i j world.drive.sectors) := by
  obtain ⟨result, after, run, outcome⟩ := createFile_outcome name world
  refine ⟨result, after, run, ?_⟩
  have refuses {sector : Nat} {read later : World} {refs : List BufCacheRef}
      (stores : Stores read refs world.drive.sectors) (few : refs.length < 8)
      (unread : read.readBufSector sector = (none, later)) : False := by
    obtain ⟨_, _, answer⟩ := stores.room few sector
    cases (Prod.mk.inj (answer.symm.trans unread)).1
  cases outcome with
  | bitmapUnread bitmapRead => exact (refuses coherent (by simp) bitmapRead).elim
  | full bitmapRead clear =>
    obtain ⟨stores, bytes, clean, sectors⟩ := coherent.bitmapRead bitmapRead
    have kept := (Stores.sectors_releaseBuffer clean).1.trans sectors
    rw [bytes] at clear
    refine ⟨?_, .inl ⟨clear, rfl, kept⟩⟩
    rw [Coherent, kept]
    exact stores.releaseLatest
  | inodeUnread bitmapRead clear inodeRead =>
    exact (refuses (coherent.bitmapRead bitmapRead).1 (by simp) inodeRead).elim
  | inodeUnwritten selected inodeFlush =>
    exact (World.flush_ne_error inodeFlush (coherent.selected selected).1.working).elim
  | bitmapUnwritten selected inodeFlush bitmapFlush =>
    have stored := (coherent.selected selected).1.store_flush List.mem_cons_self inodeFlush
    exact (World.flush_ne_error bitmapFlush stored.1.working).elim
  | created selected inodeFlush bitmapFlush =>
    obtain ⟨sectors, stores⟩ := coherent.created selected inodeFlush bitmapFlush
    have clear := selected.clear
    rw [(coherent.bitmapRead selected.bitmapRead).2.1] at clear
    refine ⟨?_, .inr ⟨_, _, clear, rfl, sectors⟩⟩
    rw [Coherent, sectors]
    exact stores

/-- Files are created one after the other; the result are the inodes that were returned. -/
def createAll : List (List Byte) → WnfsM (List Nat)
  | [] => return []
  | name :: rest => do
    let result ← createFile name
    let ids ← createAll rest
    match result with
    | .ok id => return id :: ids
    | .error _ => return ids

theorem createAll_cons {name : List Byte} {rest : List (List Byte)} {world after final : World}
    {result : Except FileError Nat} {ids : List Nat} (first : createFile name world = .ok (result, after))
    (later : createAll rest after = .ok (ids, final)) :
    createAll (name :: rest) world = .ok (result.toOption.toList ++ ids, final) := by
  simp only [createAll, bind, StateT.bind, Except.bind, first, later]
  cases result <;> rfl

/-- The inodes of a run are distinct, because the bit of each is set from then on. -/
theorem Coherent.createAll {world : World} (coherent : Coherent world) (names : List (List Byte)) :
    ∃ ids final, Wnfs.createAll names world = .ok (ids, final) ∧ ids.Nodup ∧
      ∀ id ∈ ids, id < numINodes ∧ Contents.allocated world.drive.sectors id = false := by
  induction names generalizing world with
  | nil => exact ⟨[], world, rfl, List.nodup_nil, by simp⟩
  | cons name rest ih =>
    obtain ⟨result, after, run, coherent', made⟩ := coherent.createFile name
    obtain ⟨ids, final, run', distinct, fresh⟩ := ih coherent'
    refine ⟨_, final, createAll_cons run run', ?_⟩
    rcases made with ⟨-, rfl, same⟩ | ⟨i, j, clear, rfl, changed⟩
    · rw [same] at fresh
      exact ⟨distinct, fresh⟩
    · have valid : i.val * 8 + j.val < numINodes := by
        unfold numINodes
        omega
      have before (id : Nat) (member : id ∈ ids) :
          Contents.allocated world.drive.sectors id = false ∧ id ≠ i.val * 8 + j.val := by
        obtain ⟨inside, unset⟩ := fresh id member
        rw [changed, Contents.allocated_created inside, Bool.or_eq_false_iff,
          decide_eq_false_iff_not] at unset
        exact unset
      refine ⟨List.nodup_cons.mpr ⟨fun member => (before _ member).2 rfl, distinct⟩,
        List.forall_mem_cons.mpr ⟨⟨valid, ?_⟩, fun id member => ⟨(fresh id member).1, (before id member).1⟩⟩⟩
      rw [Contents.allocated_bit, getLsbD_of_firstClear clear]

/-- On any disk `create_file` fails and changes nothing exactly when all bits that it
searches are set; otherwise it creates the inode of the lowest clear one. No inode is
returned twice in a run. -/
theorem createFile_allocates_lowest {world : World} (coherent : Coherent world) :
    (∀ name, name.length ≤ INode.nameSize →
      ∃ result after, createFile name world = .ok (result, after) ∧ Coherent after ∧
        (Contents.Full world.drive.sectors ∧ result = .error .outOfINodes ∧
            after.drive.sectors = world.drive.sectors ∨
          ¬ Contents.Full world.drive.sectors ∧ ∃ id, result = .ok id ∧
            Contents.Allocates name world.drive.sectors after.drive.sectors id)) ∧
    ∀ names, ∃ ids final, createAll names world = .ok (ids, final) ∧ ids.Nodup := by
  refine ⟨fun name short => ?_, fun names => ?_⟩
  · obtain ⟨result, after, run, coherent', made⟩ := coherent.createFile name
    refine ⟨result, after, run, coherent', ?_⟩
    rcases made with ⟨full, failed, same⟩ | ⟨i, j, clear, created, changed⟩
    · exact .inl ⟨fun id searched => Contents.allocated_of_full full searched, failed, same⟩
    · have allocates := Contents.allocates_created short clear
      rw [← changed] at allocates
      exact .inr ⟨fun full => Bool.false_ne_true (allocates.clear.symm.trans (full _ allocates.searched)),
        _, created, allocates⟩
  · obtain ⟨ids, final, run, distinct, -⟩ := coherent.createAll names
    exact ⟨ids, final, run, distinct⟩

theorem createFile_allocates_first :
    ∃ result after, createFile [65] ⟨.constructed fun _ _ => 0, .blank⟩ = .ok (result, after) ∧
      Coherent after ∧
      (Contents.Full Drive.blank.sectors ∧ result = .error .outOfINodes ∧
          after.drive.sectors = Drive.blank.sectors ∨
        ¬ Contents.Full Drive.blank.sectors ∧ ∃ id, result = .ok id ∧
          Contents.Allocates [65] Drive.blank.sectors after.drive.sectors id) :=
  (createFile_allocates_lowest (Coherent.constructed (fun _ _ => 0) fun _ => rfl)).1 [65] (by decide)

end WalnutOs.Wnfs
