import WalnutOs.Vfs.FileHandle
import WalnutOs.Wnfs.FileContents

/-! Bytes that are written through a file handle and read back. -/

namespace WalnutOs.Vfs

open WalnutOs.Klib WalnutOs.Lib WalnutOs.Wnfs

/-- Write the bytes that are left, each time the first of them, until all are
taken or there is no further length to offer. -/
def feed : List Nat → List Byte → FileHandle → WnfsM (List Byte × FileHandle)
  | _, [], handle => return ([], handle)
  | [], left, handle => return (left, handle)
  | offer :: offers, left, handle => do
    match ← handle.write (left.take offer) with
    | (.ok taken, handle) => feed offers (left.drop taken) handle
    | (.error _, handle) => feed offers left handle

theorem feed_nil (offers : List Nat) (handle : FileHandle) :
    feed offers [] handle = pure ([], handle) := by
  cases offers <;> rfl

theorem feed_end (left : List Byte) (handle : FileHandle) :
    feed [] left handle = pure (left, handle) := by
  cases left <;> rfl

theorem feed_cons {left : List Byte} (remains : left ≠ []) (offer : Nat) (offers : List Nat)
    (handle : FileHandle) : feed (offer :: offers) left handle =
      handle.write (left.take offer) >>= fun
        | (.ok taken, handle) => feed offers (left.drop taken) handle
        | (.error _, handle) => feed offers left handle := by
  cases left with
  | nil => exact absurd rfl remains
  | cons byte rest => rfl

/-- Create a file and feed bytes to it; all of them have to be taken. -/
def store (name : List Byte) (offers : List Nat) (bytes : List Byte) : WnfsM (Option FileHandle) := do
  match ← FileHandle.create name with
  | .error _ => return none
  | .ok handle =>
    match ← feed offers bytes handle with
    | ([], handle) => return some handle
    | _ => return none

/-- Read into buffers of the given lengths until the end of the file is
reported, and collect the bytes. -/
def drain : Nat → (Nat → Nat) → FileHandle → WnfsM (Option (List Byte))
  | 0, _, _ => return none
  | fuel + 1, lens, handle => do
    match ← handle.read (lens 0) with
    | (.ok bytes, handle) =>
      let rest ← drain fuel (fun turn => lens (turn + 1)) handle
      return rest.map (bytes ++ ·)
    | (.error .endOfFile, _) => return some []
    | (.error _, handle) => drain fuel (fun turn => lens (turn + 1)) handle

/-- Seek to the beginning and read to the end. -/
def readBack (fuel : Nat) (lens : Nat → Nat) (handle : FileHandle) : WnfsM (Option (List Byte)) := do
  let (_, handle) ← handle.seek 0
  drain fuel lens handle

/-- Reading the file back comes to an end and gives the bytes. -/
def ReadsBack (lens : Nat → Nat) (bytes : List Byte) (handle : FileHandle) (world : World) : Prop :=
  ∃ fuel after, readBack fuel lens handle world = .ok (some bytes, after)

/-- The position after some reads that each get as much as their buffer and the
sector have room for. -/
def cursor : (Nat → Nat) → Nat → Nat → Nat
  | _, position, 0 => position
  | lens, position, turn + 1 =>
    cursor (fun turn => lens (turn + 1)) (position + min (sectorSize - position % sectorSize) (lens 0)) turn

/-- The sector that a byte of the one file on a disk is stored in. -/
def dataSector (place : Nat) : Nat :=
  Contents.sectorAt (allocation (decide (0 < place / sectorSize))) place

def image (contents : Contents) (place : Nat) : Byte :=
  contents (dataSector place) (sectorOffset place)

theorem dataSector_eq (place : Nat) : dataSector place =
    if place < 512 then 2132 else 2134 + place % 1024 / 512 := by
  unfold dataSector Contents.sectorAt allocation blockSize sectorSize
  rw [blockStartSector_eq]
  by_cases low : place < 512
  · simp [low, show ¬ 0 < place / 512 by omega]
    omega
  · simp [low, show 0 < place / 512 by omega]

/-- From the second sector on, places that are two sectors apart are one and the same. -/
theorem image_period {contents : Contents} {place : Nat} (later : 512 ≤ place) :
    image contents (place + 1024) = image contents place := by
  have sector : dataSector (place + 1024) = dataSector place := by
    rw [dataSector_eq, dataSector_eq, if_neg (by omega), if_neg (by omega)]
    omega
  have offset : (place + 1024) % 512 = place % 512 := by omega
  simp only [image, sector, sectorOffset, sectorSize, offset]

/-- The file with all blocks but the first in the same two sectors: of what is
written there, the last 1024 bytes are left. -/
structure Fed (contents : Contents) (used : Bool) (id : Nat) (bytes : List Byte) (size : Nat) :
    Prop where
  valid : id < numINodes
  short : bytes.length ≤ INode.numDirectBlocks * sectorSize
  within : size ≤ bytes.length
  bitmap : contents blockGroupSector = blockBitmap used
  length : contents.fileSize id = size
  blocks : ∀ idx < INode.numDirectBlocks,
    contents.block id idx = 0 ∨ contents.block id idx = allocation (decide (0 < idx))
  there : ∀ idx < INode.numDirectBlocks, idx * sectorSize < size → contents.block id idx ≠ 0
  first : used = decide (contents.block id 0 ≠ 0)
  last : ∀ place < size, (place < 512 ∨ size ≤ place + 1024) →
    bytes[place]? = some (image contents place)

namespace Fed

variable {contents : Contents} {used : Bool} {id size place : Nat} {bytes : List Byte}

theorem direct (fed : Fed contents used id bytes size) (inside : place < INode.numDirectBlocks * sectorSize) :
    contents.Direct id place where
  valid := fed.valid
  inside := inside
  placed := by
    have few : place / sectorSize < INode.numDirectBlocks :=
      Nat.div_lt_of_lt_mul (by simpa only [Nat.mul_comm] using inside)
    rcases fed.blocks _ few with none | some
    · exact .inl none
    · rw [some]
      cases decide (0 < place / sectorSize)
      · exact .inr ⟨by decide, by decide⟩
      · exact .inr ⟨by decide, by decide⟩

theorem target_eq (fed : Fed contents used id bytes size) (left : size < bytes.length) :
    Contents.target id size used contents = dataSector size := by
  have direct := fed.direct (left.trans_le fed.short)
  rw [direct.target_eq, dataSector]
  split
  · rename_i missing
    have first := fed.first
    have there := fed.there 0 (by decide)
    by_cases begins : size / sectorSize = 0
    · rw [begins] at missing ⊢
      rw [first, missing]
      rfl
    · have past : 0 < size := Nat.pos_of_ne_zero fun zero => begins (by rw [zero, Nat.zero_div])
      rw [first, decide_eq_true (there (by omega)), decide_eq_true (Nat.pos_of_ne_zero begins)]
  · rename_i there
    rw [(fed.blocks _ direct.few).resolve_left there]

/-- What a write takes of the bytes that are left. -/
def chunk (bytes : List Byte) (size offer : Nat) : List Byte :=
  ((bytes.drop size).take offer).take (sectorSize - size % sectorSize)

theorem length_chunk (bytes : List Byte) (size offer : Nat) : (chunk bytes size offer).length =
    min (sectorSize - size % sectorSize) (min offer (bytes.length - size)) := by
  simp [chunk]

theorem getElem?_chunk {bytes : List Byte} {size offer turn : Nat}
    (inside : turn < (chunk bytes size offer).length) :
    (chunk bytes size offer)[turn]? = bytes[size + turn]? := by
  rw [length_chunk] at inside
  rw [chunk, List.getElem?_take_of_lt (by omega), List.getElem?_take_of_lt (by omega),
    List.getElem?_drop]

/-- The image after a write: the chunk at its place, and elsewhere what is not
in the same place of the same two sectors. -/
theorem image_written (fed : Fed contents used id bytes size) (left : size < bytes.length) {offer : Nat}
    (before : place < size + (chunk bytes size offer).length)
    (kept : place < 512 ∨ size + (chunk bytes size offer).length ≤ place + 1024) :
    some (image (Contents.written ((bytes.drop size).take offer) id size used contents) place) =
      if size ≤ place then bytes[place]? else some (image contents place) := by
  have direct := fed.direct (left.trans_le fed.short)
  have data : blockStartSector ≤ dataSector place := by
    rw [dataSector_eq, blockStartSector_eq]
    split <;> omega
  have room := length_chunk bytes size offer
  have same : place - size < (chunk bytes size offer).length →
      (chunk bytes size offer)[place - size]? = bytes[size + (place - size)]? := getElem?_chunk
  have place_eq := dataSector_eq place
  have size_eq := dataSector_eq size
  rw [image, Contents.written_data direct data, fed.target_eq left, ← chunk]
  generalize chunk bytes size offer = taken at *
  unfold sectorOffset sectorSize at *
  by_cases later : size ≤ place
  · rw [if_pos later, if_pos (by rw [place_eq, size_eq]; split <;> split <;> omega),
      Window.overwrite_of_inside (place - size) (by simp only; omega) (by omega),
      ← List.getElem?_eq_getElem, same (by omega), Nat.add_sub_cancel' later]
  · rw [if_neg later]
    split
    · rename_i shared
      rw [Window.overwrite_of_outside]
      · rfl
      · rw [place_eq, size_eq] at shared
        simp only
        split at shared <;> split at shared <;> omega
    · rfl

theorem written (fed : Fed contents used id bytes size) (left : size < bytes.length) (offer : Nat) :
    Fed (Contents.written ((bytes.drop size).take offer) id size used contents)
      (used || decide (contents.block id (size / sectorSize) = 0)) id bytes
      (size + (chunk bytes size offer).length) := by
  have direct := fed.direct (left.trans_le fed.short)
  have room := length_chunk bytes size offer
  have new : contents.block id (size / sectorSize) = 0 →
      allocation used = allocation (decide (0 < size / sectorSize)) := by
    intro missing
    have target := fed.target_eq left
    rw [direct.target_eq, if_pos missing, dataSector] at target
    exact Nat.add_right_cancel target
  have blocks : ∀ idx < INode.numDirectBlocks,
      (Contents.written ((bytes.drop size).take offer) id size used contents).block id idx =
        if idx = size / sectorSize ∧ contents.block id (size / sectorSize) = 0
        then allocation (decide (0 < size / sectorSize)) else contents.block id idx := by
    intro idx few
    rw [Contents.block_written direct direct.valid few]
    simp only [true_and]
    split
    · rename_i same
      exact new same.2
    · rfl
  refine ⟨fed.valid, fed.short, ?_, Contents.written_blockGroup direct fed.bitmap, ?_, ?_, ?_, ?_, ?_⟩
  · omega
  · rw [Contents.fileSize_written direct direct.valid, if_pos rfl, fed.length, ← chunk]
    exact Nat.max_eq_right (Nat.le_add_right _ _)
  · intro idx few
    rw [blocks idx few]
    split
    · rename_i same
      exact .inr (by rw [same.1])
    · exact fed.blocks idx few
  · intro idx few reached
    rw [blocks idx few]
    split
    · exact allocation_ne_zero _
    · rename_i other
      by_cases here : idx = size / sectorSize
      · rw [here] at other ⊢
        exact fun missing => other ⟨rfl, missing⟩
      · refine fed.there idx few ?_
        unfold sectorSize at *
        omega
  · have zero : 0 < INode.numDirectBlocks := by decide
    rw [blocks 0 zero, fed.first]
    by_cases missing : contents.block id (size / sectorSize) = 0
    · by_cases begins : size / sectorSize = 0
      · rw [begins] at missing ⊢
        simp only [missing, and_self, if_true, ne_eq, allocation_ne_zero, not_false_eq_true,
          decide_true, Bool.or_true]
      · have past : 0 * sectorSize < size := by
          rw [Nat.zero_mul]
          exact Nat.pos_of_ne_zero fun empty => begins (by rw [empty, Nat.zero_div])
        simp [Ne.symm begins, fed.there 0 zero past]
    · simp [missing]
  · intro place before kept
    rw [fed.image_written left before kept]
    split
    · rfl
    · exact fed.last place (by omega) (by omega)

theorem write (fed : Fed contents used id bytes size) (left : size < bytes.length) (offer : Nat) :
    Yields (Holds [] [] contents)
      (FileHandle.write ((bytes.drop size).take offer) ⟨id, size, 0, inodeSector id⟩)
      (.ok (chunk bytes size offer).length,
        ⟨id, size + (chunk bytes size offer).length, 0, inodeSector id⟩)
      (Holds [] [] (Contents.written ((bytes.drop size).take offer) id size used contents)) := by
  have direct := fed.direct (left.trans_le fed.short)
  have ends : (size + (chunk bytes size offer).length) % 2 ^ 32 = size + (chunk bytes size offer).length :=
    Nat.mod_eq_of_lt (direct.ends _)
  refine (Holds.writeToFile _ direct fed.bitmap).bind ?_
  simp only [FileHandle.advance]
  rw [← chunk, ends]
  exact .pure

/-- Feeding keeps to the bytes, and it takes all of them if it is offered enough. -/
theorem feed (offers : List Nat) (fed : Fed contents used id bytes size) :
    ∃ contents' used' size', Fed contents' used' id bytes size' ∧
      Yields (Holds [] [] contents) (Vfs.feed offers (bytes.drop size) ⟨id, size, 0, inodeSector id⟩)
        (bytes.drop size', ⟨id, size', 0, inodeSector id⟩) (Holds [] [] contents') ∧
      ((∀ offer ∈ offers, 0 < offer) → bytes.length ≤ size + offers.length → size' = bytes.length) := by
  induction offers generalizing contents used size with
  | nil =>
    rw [feed_end]
    exact ⟨contents, used, size, fed, .pure, fun _ enough => Nat.le_antisymm fed.within enough⟩
  | cons offer offers ih =>
    rcases Nat.lt_or_eq_of_le fed.within with left | full
    · obtain ⟨contents', used', size', fed', ran, full⟩ := ih (fed.written left offer)
      rw [← List.drop_drop] at ran
      rw [feed_cons (fun none => absurd (List.drop_eq_nil_iff.mp none) (Nat.not_le.mpr left))]
      refine ⟨contents', used', size', fed', (fed.write left offer).bind ran, ?_⟩
      intro positive enough
      have some := positive offer List.mem_cons_self
      have room := length_chunk bytes size offer
      refine full (fun offer member => positive offer (List.mem_cons_of_mem _ member)) ?_
      rw [List.length_cons] at enough
      unfold sectorSize at room
      omega
    · rw [full, List.drop_length, feed_nil]
      refine ⟨contents, used, size, fed, ?_, fun _ _ => full⟩
      rw [full, List.drop_length]
      exact .pure

/-- A new file on a formatted disk. -/
theorem created {sectors : Contents} (name : List Byte) {i : Fin 512} {j : Fin 8}
    (bitmap : sectors blockGroupSector = blockBitmap false)
    (short : bytes.length ≤ INode.numDirectBlocks * sectorSize) :
    Fed (Contents.created name i j sectors) false (i.val * 8 + j.val) bytes 0 := by
  have empty : ∀ idx < INode.numDirectBlocks,
      (Contents.created name i j sectors).block (i.val * 8 + j.val) idx = 0 := fun idx few => by
    rw [Contents.block_created few, if_pos rfl]
  refine ⟨?_, short, Nat.zero_le _, ?_, ?_, ?_, ?_, ?_, ?_⟩
  · unfold numINodes
    omega
  · rw [Contents.created, Function.update_of_ne (by decide),
      Function.update_of_ne (blockGroupSector_lt _).ne, bitmap]
  · exact Contents.field_created_new List.mem_cons_self
  · exact fun idx few => .inl (empty idx few)
  · intro idx few reached
    omega
  · rw [empty 0 (by decide)]
    rfl
  · intro place before
    omega

end Fed

theorem firstClear_empty : firstClear (fun _ => 0) = some (0, 0) := by decide +kernel

/-- Whatever the lengths that are offered, what has been taken is the beginning of the bytes. -/
theorem store_spec (name : List Byte) (offers : List Nat) (bytes : List Byte)
    (short : bytes.length ≤ INode.numDirectBlocks * sectorSize) (memory : BufNum → Sector) {drive : Drive}
    (working : drive.Reliable) : ∃ contents used size world, Fed contents used 0 bytes size ∧
      Holds [] [] contents world ∧
      store name offers bytes (formatted memory drive) =
        .ok (if size = bytes.length then some ⟨0, size, 0, inodeSector 0⟩ else none, world) ∧
      ((∀ offer ∈ offers, 0 < offer) → bytes.length ≤ offers.length → size = bytes.length) := by
  obtain ⟨-, bitmap, inodes⟩ := formatDisk_bitmaps working
  have clear : firstClear ((formatDisk drive).2.sectors inodeBitmapStartSector) = some (0, 0) := by
    rw [inodes, firstClear_empty]
  obtain ⟨contents, used, size, fed, ran, full⟩ :=
    (Fed.created name (i := 0) (j := 0) bitmap short).feed offers
  have stored : Yields (Holds [] [] (formatDisk drive).2.sectors) (store name offers bytes)
      (if size = bytes.length then some ⟨0, size, 0, inodeSector 0⟩ else none)
      (Holds [] [] contents) := by
    have created : Yields (Holds [] [] (formatDisk drive).2.sectors) (FileHandle.create name)
        (.ok ⟨0, 0, 0, inodeSector 0⟩)
        (Holds [] [] (Contents.created name 0 0 (formatDisk drive).2.sectors)) :=
      (Holds.createFile name clear).bind .pure
    refine created.bind (ran.bind ?_)
    rcases Nat.lt_or_eq_of_le fed.within with left | all
    · rw [if_neg left.ne]
      cases drop : bytes.drop size with
      | nil => exact absurd (List.drop_eq_nil_iff.mp drop) (Nat.not_le.mpr left)
      | cons byte rest => exact .pure
    · rw [if_pos all, all, List.drop_length]
      exact .pure
  obtain ⟨world, ran, holds⟩ := stored _ (Holds.formatted memory working)
  refine ⟨contents, used, size, world, fed, holds, ran, ?_⟩
  simpa using full

/-- Lengths that are not 0 get every byte taken, if there are enough of them. -/
theorem store_total (name : List Byte) (offers : List Nat) (bytes : List Byte)
    (short : bytes.length ≤ INode.numDirectBlocks * sectorSize) (memory : BufNum → Sector) {drive : Drive}
    (working : drive.Reliable) (positive : ∀ offer ∈ offers, 0 < offer)
    (enough : bytes.length ≤ offers.length) : ∃ handle world,
      store name offers bytes (formatted memory drive) = .ok (some handle, world) := by
  obtain ⟨contents, used, size, world, -, -, ran, full⟩ :=
    store_spec name offers bytes short memory working
  rw [if_pos (full positive enough)] at ran
  exact ⟨_, world, ran⟩

/-- The bytes repeat themselves where the blocks after the first share their sectors. -/
def Periodic (bytes : List Byte) : Prop :=
  ∀ place, 512 ≤ place → place + 1024 < bytes.length → bytes[place]? = bytes[place + 1024]?

/-- The stored bytes from a place on. -/
def images (contents : Contents) (place count : Nat) : List Byte :=
  (List.range' place count).map (image contents)

theorem slice_eq_images {contents : Contents} {place count : Nat}
    (within : place % sectorSize + count ≤ sectorSize) :
    Window.slice (contents (dataSector place)) (place % sectorSize) count = images contents place count := by
  have length := Window.length_slice (contents (dataSector place)) within
  refine List.ext_getElem (by simp [length, images]) fun turn before _ => ?_
  rw [length] at before
  have sector : dataSector (place + turn) = dataSector place := by
    unfold sectorSize at within
    rw [dataSector_eq, dataSector_eq]
    split <;> split <;> omega
  have offset : (place + turn) % sectorSize = place % sectorSize + turn := by
    unfold sectorSize at *
    omega
  rw [Window.getElem_slice _ (by unfold sectorSize at *; omega)]
  simp only [images, List.getElem_map, List.getElem_range', Nat.one_mul, image, sector, sectorOffset, offset]

theorem le_cursor (lens : Nat → Nat) (place turn : Nat) : place ≤ cursor lens place turn := by
  induction turn generalizing lens place with
  | zero => exact Nat.le_refl _
  | succ turn ih => exact (Nat.le_add_right _ _).trans (ih _ _)

/-- The reads stop at the end of the file on their way. -/
def Hits (lens : Nat → Nat) (place size : Nat) : Prop := ∃ turn, cursor lens place turn = size

theorem Hits.le {lens : Nat → Nat} {place size : Nat} (hits : Hits lens place size) : place ≤ size := by
  obtain ⟨turn, rfl⟩ := hits
  exact le_cursor lens place turn

theorem hits_next {lens : Nat → Nat} {place size : Nat} (before : place < size) :
    Hits lens place size ↔ Hits (fun turn => lens (turn + 1))
      (place + min (sectorSize - place % sectorSize) (lens 0)) size := by
  constructor
  · rintro ⟨_ | turn, there⟩
    · exact absurd there before.ne
    · exact ⟨turn, there⟩
  · rintro ⟨turn, there⟩
    exact ⟨turn + 1, there⟩

/-- What reading to the end of the file, from a place on, collects: the stored
bytes, or one byte too many. -/
structure Gathered (contents : Contents) (lens : Nat → Nat) (place size : Nat) (out : List Byte) :
    Prop where
  hit : Hits lens place size → out = images contents place (size - place)
  missed : ¬ Hits lens place size → place + out.length = size + 1

theorem Gathered.next {contents : Contents} {lens : Nat → Nat} {place count size : Nat}
    {out : List Byte} (before : place < size)
    (agree : count = min (sectorSize - place % sectorSize) (lens 0) ∨
      size < place + count ∧ size < place + min (sectorSize - place % sectorSize) (lens 0))
    (gathered : Gathered contents (fun turn => lens (turn + 1)) (place + count) size out) :
    Gathered contents lens place size (images contents place count ++ out) := by
  have same : Hits lens place size ↔ Hits (fun turn => lens (turn + 1)) (place + count) size := by
    rw [hits_next before]
    rcases agree with rfl | ⟨beyond, beyond'⟩
    · rfl
    · exact iff_of_false (fun hits => absurd hits.le (Nat.not_le.mpr beyond'))
        (fun hits => absurd hits.le (Nat.not_le.mpr beyond))
  constructor
  · intro hits
    have later := same.mp hits
    have split : size - place = count + (size - (place + count)) := by
      have := later.le
      omega
    rw [gathered.hit later, images, images, images, split, ← List.map_append,
      List.range'_append_1]
  · intro misses
    have longer := gathered.missed (fun hits => misses (same.mpr hits))
    rw [List.length_append, images, List.length_map, List.length_range', ← longer, Nat.add_assoc]

namespace Fed

variable {contents : Contents} {used : Bool} {id place : Nat} {bytes : List Byte} {sector : Nat}
variable (fed : Fed contents used id bytes bytes.length)

include fed

/-- How far into a sector reads go: the offset of the end of the file, and one more. -/
theorem read {len : Nat} (inFile : place < bytes.length)
    (before : place % sectorSize ≤ bytes.length % sectorSize + 1) :
    Yields (Holds [] [] contents) (FileHandle.read len ⟨id, place, 0, sector⟩)
      (.ok (images contents place (min (bytes.length % sectorSize + 1 - place % sectorSize) len)),
        ⟨id, place + min (bytes.length % sectorSize + 1 - place % sectorSize) len, 0, sector⟩)
      (Holds [] [] contents) := by
  have direct := fed.direct (inFile.trans_le fed.short)
  have there := fed.there _ direct.few (by
    rw [Nat.mul_comm]
    exact (Nat.mul_div_le place sectorSize).trans_lt inFile)
  have target : Contents.target id place used contents = dataSector place := by
    rw [direct.target_eq, if_neg there, (fed.blocks _ direct.few).resolve_left there, dataSector]
  have counted : min (bytes.length % sectorSize + 1 - place % sectorSize) len =
      min ((contents.fileSize id % sectorSize + 2 ^ 32 - place % sectorSize + 1) % 2 ^ 32) len := by
    rw [fed.length]
    unfold sectorSize at *
    congr 1
    omega
  have within : place % sectorSize + min (bytes.length % sectorSize + 1 - place % sectorSize) len ≤
      sectorSize := by
    unfold sectorSize at *
    omega
  have ran := Holds.readFromFile used direct (by rwa [fed.length]) there counted within
  rw [target, slice_eq_images within] at ran
  have ends : (place + min (bytes.length % sectorSize + 1 - place % sectorSize) len) % 2 ^ 32 =
      place + min (bytes.length % sectorSize + 1 - place % sectorSize) len := by
    have short := fed.short
    unfold INode.numDirectBlocks sectorSize at *
    omega
  refine ran.bind ?_
  simp only [FileHandle.advance, images, List.length_map, List.length_range', ends]
  exact .pure

theorem read_end {len : Nat} (past : bytes.length ≤ place) :
    Yields (Holds [] [] contents) (FileHandle.read len ⟨id, place, 0, sector⟩)
      (.error .endOfFile, ⟨id, place, 0, sector⟩) (Holds [] [] contents) :=
  (Holds.readFromFile_end fed.valid (by rwa [fed.length])).bind .pure

/-- In a file that fills its first sector but not its last, reading gets stuck in
the first: the offset of the end is taken for its length. -/
theorem drain_stuck (filled : sectorSize ≤ bytes.length)
    (partly : bytes.length % sectorSize + 1 < sectorSize) (fuel : Nat) (lens : Nat → Nat)
    (before : place ≤ bytes.length % sectorSize + 1) :
    Yields (Holds [] [] contents) (drain fuel lens ⟨id, place, 0, sector⟩) none (Holds [] [] contents) := by
  induction fuel generalizing lens place with
  | zero => exact .pure
  | succ fuel ih =>
    have low : place % sectorSize = place := Nat.mod_eq_of_lt (by omega)
    exact (fed.read (by omega) (by omega)).bind ((ih _ (by omega)).bind .pure)

/-- Otherwise reading comes to the end. It gets the stored bytes if it stops at
the end on its way, and one byte too many if it does not. -/
theorem drain_whole (sector : Nat)
    (whole : bytes.length < sectorSize ∨ bytes.length % sectorSize + 1 = sectorSize)
    (fuel : Nat) (lens : Nat → Nat) (positive : ∀ turn, 0 < lens turn)
    (before : place ≤ bytes.length + 1) :
    ∃ result, Yields (Holds [] [] contents) (drain fuel lens ⟨id, place, 0, sector⟩) result
        (Holds [] [] contents) ∧
      (bytes.length + 2 ≤ fuel + place → result ≠ none) ∧
      ∀ out, result = some out → Gathered contents lens place bytes.length out := by
  induction fuel generalizing lens place with
  | zero => exact ⟨none, .pure, fun enough => absurd enough (by omega), fun _ none => nomatch none⟩
  | succ fuel ih =>
    rcases Nat.lt_or_ge place bytes.length with inFile | past
    · have low : place % sectorSize ≤ bytes.length % sectorSize := by
        unfold sectorSize at *
        omega
      generalize count_eq : min (bytes.length % sectorSize + 1 - place % sectorSize) (lens 0) = count
      have some := positive 0
      have bound : place + count ≤ bytes.length + 1 := by
        unfold sectorSize at *
        omega
      obtain ⟨result, ran, enough, gathered⟩ := ih (fun turn => lens (turn + 1))
        (fun turn => positive (turn + 1)) bound
      refine ⟨result.map (images contents place count ++ ·), ?_, ?_, ?_⟩
      · subst count_eq
        exact (fed.read inFile (by omega)).bind (ran.bind .pure)
      · intro fuelled
        rw [Ne, Option.map_eq_none_iff]
        exact enough (by omega)
      · intro out gathers
        obtain ⟨rest, there, rfl⟩ := Option.map_eq_some_iff.mp gathers
        refine (gathered rest there).next inFile ?_
        rcases whole with first | last
        · unfold sectorSize at *
          omega
        · rw [← count_eq, last]
          exact .inl rfl
    · refine ⟨some [], (fed.read_end past).bind .pure, fun _ => Option.some_ne_none _, ?_⟩
      rintro out ⟨⟩
      refine ⟨fun hits => ?_, fun misses => ?_⟩
      · rw [Nat.sub_eq_zero_of_le past]
        rfl
      · have beyond : place ≠ bytes.length := fun here => misses ⟨0, here⟩
        rw [List.length_nil]
        omega

/-- The stored bytes are the ones that were fed if these repeat, from the second
sector on, what is two sectors later. -/
theorem images_eq_iff : images contents 0 bytes.length = bytes ↔ Periodic bytes := by
  have pointwise : images contents 0 bytes.length = bytes ↔
      ∀ place < bytes.length, bytes[place]? = some (image contents place) := by
    have length : (images contents 0 bytes.length).length = bytes.length := by simp [images]
    constructor
    · intro same place inside
      have here : bytes[place]? = (images contents 0 bytes.length)[place]? := by rw [same]
      rw [here, List.getElem?_eq_getElem (by rwa [length])]
      simp [images]
    · intro every
      refine List.ext_getElem length fun place _ inside => ?_
      have here := every place inside
      rw [List.getElem?_eq_getElem inside] at here
      simpa [images] using (Option.some.inj here).symm
  rw [pointwise]
  constructor
  · intro every place later inside
    rw [every place (by omega), every (place + 1024) inside, image_period later]
  · intro periodic place inside
    -- Downwards from the last 1024 bytes, in steps of 1024.
    induction left : bytes.length - place using Nat.strong_induction_on generalizing place with
    | _ left ih =>
      by_cases kept : place < 512 ∨ bytes.length ≤ place + 1024
      · exact fed.last place inside kept
      · have above := ih (bytes.length - (place + 1024)) (by omega) (place + 1024) (by omega) rfl
        rw [periodic place (by omega) (by omega), above, image_period (by omega)]

theorem seek_start (sector position : Nat) : ∃ result, Yields (Holds [] [] contents)
    (FileHandle.seek 0 ⟨id, position, 0, sector⟩) (result, ⟨id, 0, 0, sector⟩) (Holds [] [] contents) := by
  have size := Holds.vfsMetadata contents fed.valid
  rw [fed.length] at size
  rcases Nat.eq_zero_or_pos bytes.length with empty | some
  · rw [empty] at size
    exact ⟨_, size.bind .pure⟩
  · refine ⟨.ok (), size.bind ?_⟩
    simp only [if_pos some]
    exact .pure

theorem readsBack_iff {lens : Nat → Nat} (positive : ∀ turn, 0 < lens turn) {world : World}
    (holds : Holds [] [] contents world) {position : Nat} :
    ReadsBack lens bytes ⟨id, position, 0, sector⟩ world ↔
      (bytes.length < sectorSize ∨ bytes.length % sectorSize + 1 = sectorSize) ∧
        Hits lens 0 bytes.length ∧ Periodic bytes := by
  obtain ⟨result, seek⟩ := fed.seek_start sector position
  have run : ∀ {fuel out}, Yields (Holds [] [] contents) (drain fuel lens ⟨id, 0, 0, sector⟩) out
      (Holds [] [] contents) → ∃ after, readBack fuel lens ⟨id, position, 0, sector⟩ world =
        .ok (out, after) := by
    intro fuel out drained
    have both : Yields (Holds [] [] contents) (readBack fuel lens ⟨id, position, 0, sector⟩) out
        (Holds [] [] contents) := seek.bind drained
    obtain ⟨after, ran, -⟩ := both world holds
    exact ⟨after, ran⟩
  constructor
  · rintro ⟨fuel, after, back⟩
    have whole : bytes.length < sectorSize ∨ bytes.length % sectorSize + 1 = sectorSize := by
      by_contra partly
      obtain ⟨after', stuck⟩ := run (fed.drain_stuck (by unfold sectorSize at *; omega)
        (by unfold sectorSize at *; omega) fuel lens (Nat.zero_le _))
      cases back.symm.trans stuck
    obtain ⟨out, ran, -, gathered⟩ := fed.drain_whole sector whole fuel lens positive
      (Nat.zero_le _)
    obtain ⟨after', ran⟩ := run ran
    cases back.symm.trans ran
    obtain ⟨hit, missed⟩ := gathered bytes rfl
    have hits : Hits lens 0 bytes.length := by
      by_contra misses
      have := missed misses
      omega
    exact ⟨whole, hits, fed.images_eq_iff.mp (hit hits).symm⟩
  · rintro ⟨whole, hits, periodic⟩
    obtain ⟨out, ran, enough, gathered⟩ := fed.drain_whole sector whole
      (bytes.length + 2) lens positive (Nat.zero_le _)
    obtain ⟨out, rfl⟩ := Option.ne_none_iff_exists'.mp (enough (Nat.le_refl _))
    obtain ⟨after, ran⟩ := run ran
    refine ⟨bytes.length + 2, after, ?_⟩
    rw [ran, (gathered out rfl).hit hits, Nat.sub_zero, fed.images_eq_iff.mpr periodic]

end Fed

/-- The bytes are read back exactly if the file ends in its first sector or one
byte before the end of a sector, the reads stop at its end on their way, and the
bytes repeat what the blocks after the first do not keep apart. -/
theorem stream_roundTrip_iff {name : List Byte} {offers : List Nat} {bytes : List Byte}
    {memory : BufNum → Sector} {drive : Drive} {handle : FileHandle} {world : World} {lens : Nat → Nat}
    (short : bytes.length ≤ INode.numDirectBlocks * sectorSize) (working : drive.Reliable)
    (stored : store name offers bytes (formatted memory drive) = .ok (some handle, world))
    (positive : ∀ turn, 0 < lens turn) :
    ReadsBack lens bytes handle world ↔
      (bytes.length < sectorSize ∨ bytes.length % sectorSize + 1 = sectorSize) ∧
        Hits lens 0 bytes.length ∧ Periodic bytes := by
  obtain ⟨contents, used, size, world, fed, holds, ran, -⟩ :=
    store_spec name offers bytes short memory working
  rw [stored] at ran
  split at ran
  · rename_i all
    subst all
    cases ran
    exact fed.readsBack_iff positive holds
  · cases ran

/-- Three bytes are read back one by one. -/
theorem stream_roundTrip_three : ∃ handle world,
    store [] [2, 2, 2] [1, 2, 3] (formatted (fun _ _ => 0) .blank) = .ok (some handle, world) ∧
      ReadsBack (fun _ => 1) [1, 2, 3] handle world := by
  obtain ⟨handle, world, stored⟩ := store_total [] [2, 2, 2] [1, 2, 3] (by decide)
    (fun _ _ => 0) (show Drive.blank.Reliable from fun _ => rfl) (by decide) (by decide)
  refine ⟨handle, world, stored, ?_⟩
  refine (stream_roundTrip_iff (by decide) (fun _ => rfl) stored (fun _ => Nat.one_pos)).mpr ?_
  exact ⟨by decide, ⟨3, rfl⟩, fun place _ inside => absurd inside (by simp)⟩

/-- A file of one byte is read into a buffer of a sector's size: two bytes are reported. -/
theorem one_byte_reads_two : ¬ ∀ (name : List Byte) (offers : List Nat) (bytes : List Byte)
    (memory : BufNum → Sector) (drive : Drive) (handle : FileHandle) (world : World) (lens : Nat → Nat),
    bytes.length ≤ INode.numDirectBlocks * sectorSize → drive.Reliable →
    store name offers bytes (formatted memory drive) = .ok (some handle, world) →
    (∀ turn, 0 < lens turn) → ReadsBack lens bytes handle world := by
  intro claim
  obtain ⟨contents, used, size, world, fed, holds, stored, full⟩ := store_spec [] [1] [7] (by decide)
    (fun _ _ => 0) (show Drive.blank.Reliable from fun _ => rfl)
  have all : size = [(7 : Byte)].length := full (by decide) (by decide)
  subst all
  have back := claim _ _ _ _ _ _ world (fun _ => 512) (by decide) (fun _ => rfl) stored (fun _ => by decide)
  obtain ⟨-, ⟨_ | turn, there⟩, -⟩ := (fed.readsBack_iff (fun _ => by decide) holds).mp back
  · cases there
  · have beyond := le_cursor (fun _ => 512) (0 + min (sectorSize - 0 % sectorSize) 512) turn
    exact absurd (beyond.trans there.le) (by decide)

end WalnutOs.Vfs
