import WalnutOs.Wnfs.FileContents
import WalnutOs.Wnfs.SectorAccess

/-! `read_from_file` on any inode: when what it reports to have read is in the
file, in the sector and in the caller's buffer. -/

namespace WalnutOs.Wnfs

open WalnutOs.Klib WalnutOs.Lib

variable {contents : Contents} {id position len : Nat} {world later final : World}
variable {inodeBuf block : BufNum}

namespace Contents

/-- The sector that a place of a file is in, by the entry for it. -/
def fileSector (contents : Contents) (id position : Nat) : Nat :=
  sectorAt (contents.block id (position / sectorSize)) position

/-- The sector number that the code comes to for a place, in 32 bits. -/
def sectorNumber (contents : Contents) (id position : Nat) : Nat :=
  contents.fileSector id position % 2 ^ 32

/-- The byte of a file at a place. -/
def storedByte (contents : Contents) (id position : Nat) : Byte :=
  contents (contents.fileSector id position) (sectorOffset position)

/-- The bytes that `read_from_file` reports for a place are the file's there, they end before the
end of the file, of the sector and of the caller's buffer, and the place is in a direct block. -/
structure ReadInside (contents : Contents) (len id position : Nat) (bytes : List Byte) : Prop where
  inFile : position + bytes.length ≤ contents.fileSize id
  inBuffer : bytes.length ≤ len
  inSector : position % sectorSize + bytes.length ≤ sectorSize
  direct : position / sectorSize < INode.numDirectBlocks
  stored : ∀ turn (inside : turn < bytes.length), bytes[turn] = contents.storedByte id (position + turn)

/-- Whatever the cache has, a call comes to an end, and if it succeeds it stays inside. -/
def ReadsInside (contents : Contents) (len id position : Nat) : Prop :=
  ∀ world : World, world.AtRest → world.drive.sectors = contents →
    ∃ result after, readFromFile len id position world = .ok (result, after) ∧
      ∀ bytes, result = .ok bytes → contents.ReadInside len id position bytes

/-- A place to read that has a block: the block is a direct one, the buffer ends before the file
does or before the sector does, except that a sector before the last is read up to one byte past
the offset of the end of the file. The sector is one that a transfer addresses, or the places read
have the file's bytes in the sector that the transfer addresses instead, and its number is not that
of an empty buffer. -/
structure Readable (contents : Contents) (len id position : Nat) : Prop where
  direct : position / sectorSize < INode.numDirectBlocks
  fits : if position / sectorSize = contents.fileSize id / sectorSize then
      position + len ≤ contents.fileSize id
    else position % sectorSize ≤ contents.fileSize id % sectorSize + 1 ∨
      position % sectorSize + len ≤ sectorSize
  addressed : contents.fileSector id position < 2 ^ 23 ∨ ∀ turn < len,
    (position % sectorSize + turn ≤ contents.fileSize id % sectorSize ∨
      contents.fileSize id % sectorSize + 1 < position % sectorSize) →
    contents.sectorNumber id position ≠ noSector ∧
      contents (diskSector (contents.sectorNumber id position)) (sectorOffset (position + turn)) =
        contents.storedByte id (position + turn)

/-- A place that is not read: past the end of the file, past what a direct block may have, or
where there is no block. -/
def Refused (contents : Contents) (id position : Nat) : Prop :=
  contents.fileSize id ≤ position ∨ INode.numDirectBlocks < position / sectorSize ∨
    contents.block id (position / sectorSize) = 0

instance (contents : Contents) (id position : Nat) : Decidable (contents.Refused id position) :=
  inferInstanceAs (Decidable (_ ∨ _))

end Contents

open Contents

theorem readBytes_length {world later : World} {block : BufNum} {start count : Nat} {bytes : List Byte}
    (ran : readBytes block start count world = .ok (bytes, later)) : bytes.length = count := by
  induction count generalizing start world bytes with
  | zero =>
    cases ran
    rfl
  | succ count ih =>
    simp only [readBytes, Bind.bind, StateT.bind, Except.bind] at ran
    split at ran
    · cases ran
    · split at ran
      · cases ran
      · rename_i rest more
        cases ran
        rw [List.length_cons, ih more]

/-- How many bytes a call copies. -/
def bytesToRead (contents : Contents) (len id position : Nat) : Nat :=
  min ((contents.fileSize id % sectorSize + 2 ^ 32 - position % sectorSize + 1) % 2 ^ 32) len

theorem bytesToRead_inside_iff (inFile : position < contents.fileSize id) :
    position + bytesToRead contents len id position ≤ contents.fileSize id ∧
        position % sectorSize + bytesToRead contents len id position ≤ sectorSize ↔
      if position / sectorSize = contents.fileSize id / sectorSize then
        position + len ≤ contents.fileSize id
      else position % sectorSize ≤ contents.fileSize id % sectorSize + 1 ∨
        position % sectorSize + len ≤ sectorSize := by
  unfold bytesToRead sectorSize
  split <;> omega

/-- The places copied, of a buffer that does not end too late. -/
theorem lt_bytesToRead_iff {turn : Nat} (inFile : position < contents.fileSize id)
    (fits : if position / sectorSize = contents.fileSize id / sectorSize then
        position + len ≤ contents.fileSize id
      else position % sectorSize ≤ contents.fileSize id % sectorSize + 1 ∨
        position % sectorSize + len ≤ sectorSize) :
    turn < bytesToRead contents len id position ↔ turn < len ∧
      (position % sectorSize + turn ≤ contents.fileSize id % sectorSize ∨
        contents.fileSize id % sectorSize + 1 < position % sectorSize) := by
  unfold bytesToRead sectorSize at *
  split at fits <;> omega

section Call

variable (opens : world.readBufSector (inodeSector id) = (some inodeBuf, later))
variable (inode : later.cache.buffer inodeBuf = contents (inodeSector id))

include opens inode

theorem readFromFile_refused (refused : contents.Refused id position) :
    ∃ error after, readFromFile len id position world = .ok (.error error, after) := by
  rw [readFromFile, withBufSector_eq opens]
  simp only [Bind.bind, StateT.bind, Except.bind, WnfsM.peek, inode]
  split
  · exact ⟨_, _, rfl⟩
  · split
    · exact ⟨_, _, rfl⟩
    · split
      · exact ⟨_, _, rfl⟩
      · rename_i inFile few there
        rcases refused with past | beyond | missing
        · exact absurd past inFile
        · exact absurd beyond few
        · exact absurd missing there

theorem readFromFile_found (found : ¬contents.Refused id position)
    (takes : later.readBufSector (contents.sectorNumber id position) = (some block, final)) :
    readFromFile len id position world =
      (readBytes block (position % sectorSize) (bytesToRead contents len id position) final).map
        fun (bytes, world) => (.ok bytes, (world.releaseBuffer block).releaseBuffer inodeBuf) := by
  simp only [Refused, not_or] at found
  obtain ⟨inFile, few, there⟩ := found
  rw [readFromFile, withBufSector_eq opens]
  simp only [Bind.bind, StateT.bind, Except.bind, WnfsM.peek, inode]
  change Except.map _ ((if contents.fileSize id ≤ position then _
    else if INode.numDirectBlocks < position / sectorSize then _
    else if contents.block id (position / sectorSize) = 0 then _
    else WnfsM.withBufSector (contents.sectorNumber id position) _ fun block =>
      StateT.bind (readBytes block (position % sectorSize) (bytesToRead contents len id position)) _)
        later) = _
  rw [if_neg inFile, if_neg few, if_neg there, withBufSector_eq takes, StateT.bind]
  cases readBytes block (position % sectorSize) (bytesToRead contents len id position) final <;> rfl

end Call

/-- The places of one sector. -/
theorem sectorOffset_add {turn : Nat} (within : position % sectorSize + turn < 512) :
    sectorOffset (position + turn) = ⟨position % sectorSize + turn, within⟩ := by
  apply Fin.ext
  simp only [sectorOffset, sectorSize] at within ⊢
  omega

theorem storedByte_add {turn : Nat} (within : position % sectorSize + turn < 512) :
    contents.storedByte id (position + turn) =
      contents (contents.fileSector id position) ⟨position % sectorSize + turn, within⟩ := by
  have sector : (position + turn) / sectorSize = position / sectorSize := by
    unfold sectorSize at *
    omega
  have inBlock : (position + turn) % blockSize / sectorSize = position % blockSize / sectorSize := by
    unfold blockSize sectorSize at *
    omega
  rw [storedByte, fileSector, fileSector, sectorAt, sectorAt, sector, inBlock, sectorOffset_add within]

/-- A sector with a small number is the one that its number addresses. -/
theorem addressed_of_lt (small : contents.fileSector id position < 2 ^ 23) :
    contents.sectorNumber id position ≠ noSector ∧
      diskSector (contents.sectorNumber id position) = contents.fileSector id position := by
  have whole : contents.sectorNumber id position = contents.fileSector id position :=
    Nat.mod_eq_of_lt (by omega)
  rw [whole]
  exact ⟨by unfold noSector; omega, diskSector_of_lt small⟩

/-- Any number but that of an empty buffer gives the bytes of the sector that it addresses. -/
theorem Takes.buffer_block {inode sector : Nat}
    (takes : Takes contents later final inodeBuf block inode sector)
    (opened : Opened inodeBuf inode (contents inode) contents contents later) (numbered : sector ≠ noSector) :
    final.cache.buffer block = contents (diskSector sector) := by
  by_cases same : sector = inode
  · rw [takes.same same, takes.buffer, opened.buffer, same, diskSector_of_lt opened.small]
  · rw [takes.filled same numbered (by rw [opened.onDisk]), opened.onDisk]

theorem Contents.Readable.readInside (readable : contents.Readable len id position)
    (found : ¬contents.Refused id position) {buffer : Sector}
    (filled : contents.sectorNumber id position ≠ noSector →
      buffer = contents (diskSector (contents.sectorNumber id position))) :
    contents.ReadInside len id position
      (Window.slice buffer (position % sectorSize) (bytesToRead contents len id position)) := by
  simp only [Refused, not_or, Nat.not_le] at found
  obtain ⟨inFile, inSector⟩ := (bytesToRead_inside_iff found.1).mpr readable.fits
  have length := Window.length_slice buffer inSector
  refine ⟨by rwa [length], ?_, by rwa [length], readable.direct, fun turn inside => ?_⟩
  · rw [length]
    exact Nat.min_le_right _ _
  · have within : position % sectorSize + turn < 512 := by
      rw [length] at inside
      unfold sectorSize at *
      omega
    rw [length, lt_bytesToRead_iff found.1 readable.fits] at inside
    rw [Window.getElem_slice _ within, ← sectorOffset_add within]
    rcases readable.addressed with small | same
    · obtain ⟨numbered, here⟩ := addressed_of_lt small
      rw [filled numbered, here, storedByte_add within, sectorOffset_add within]
    · obtain ⟨numbered, alike⟩ := same turn inside.1 inside.2
      rw [filled numbered, alike]

/-- A place that a call reads, and stays inside, is one to read. -/
theorem Contents.ReadsInside.readable (inside : contents.ReadsInside len id position) (valid : id < numINodes)
    (found : ¬contents.Refused id position) : contents.Readable len id position := by
  have small := (Holds.inode_cached valid).1
  -- The bytes of the buffers that were never set differ from those of the file.
  have rest := World.atRest_constructed
    (fun _ i => contents (contents.fileSector id position) i + 1) contents
  obtain ⟨result, after, ran, inside⟩ := inside _ rest rfl
  obtain ⟨inodeBuf, later, opens, opened⟩ := rest.opens small
  obtain ⟨block, final, takes, taken⟩ := opened.takes (contents.sectorNumber id position)
  rw [readFromFile_found opens opened.buffer found takes] at ran
  cases copied : readBytes block (position % sectorSize) (bytesToRead contents len id position) final with
  | error fault =>
    rw [copied] at ran
    cases ran
  | ok answer =>
    obtain ⟨bytes, last⟩ := answer
    rw [copied] at ran
    cases ran
    have read := inside bytes rfl
    have length := readBytes_length copied
    have inFile := read.inFile
    have inSector := read.inSector
    rw [length] at inFile inSector
    simp only [Refused, not_or, Nat.not_le] at found
    have fits := (bytesToRead_inside_iff found.1).mp ⟨inFile, inSector⟩
    refine ⟨read.direct, fits, .inr fun turn below copies => ?_⟩
    have counted := (lt_bytesToRead_iff found.1 fits).mpr ⟨below, copies⟩
    have within : position % sectorSize + turn < 512 := by
      unfold sectorSize at inSector ⊢
      omega
    rw [readBytes_inside inSector] at copied
    cases copied
    have same := read.stored turn (by rwa [length])
    rw [Window.getElem_slice _ within] at same
    have numbered : contents.sectorNumber id position ≠ noSector := by
      intro empty
      rw [empty] at takes
      rw [(World.empty_opens (fun _ => rfl) small opens).takes takes, storedByte_add within] at same
      exact absurd same (by simp)
    rw [taken.buffer_block opened numbered, ← sectorOffset_add within] at same
    exact ⟨numbered, same⟩

/-- A call stays inside the file, the sector, the buffer and the direct blocks, and reads the bytes
of the file, if and only if the place is one that is refused or one to read. -/
theorem readFromFile_inside_iff (valid : id < numINodes) :
    contents.ReadsInside len id position ↔
      contents.Refused id position ∨ contents.Readable len id position := by
  have small := (Holds.inode_cached valid).1
  constructor
  · exact fun inside => or_iff_not_imp_left.mpr fun found => inside.readable valid found
  · intro allowed world rest held
    obtain ⟨inodeBuf, later, opens, opened⟩ := rest.opens small
    rw [held] at opened
    by_cases refused : contents.Refused id position
    · obtain ⟨error, after, ran⟩ := readFromFile_refused opens opened.buffer refused
      exact ⟨_, after, ran, nofun⟩
    · have readable := allowed.resolve_left refused
      obtain ⟨block, final, takes, taken⟩ := opened.takes (contents.sectorNumber id position)
      have read := readable.readInside refused (taken.buffer_block opened)
      rw [readFromFile_found opens opened.buffer refused takes, readBytes_inside]
      · refine ⟨_, _, rfl, ?_⟩
        rintro bytes ⟨⟩
        exact read
      · simp only [Refused, not_or, Nat.not_le] at refused
        exact ((bytesToRead_inside_iff refused.1).mpr readable.fits).2

/-- A file of 100 bytes in the first block, the first of the inodes. -/
def hundredBytes : Contents := fun sector =>
  if sector = inodeSector 0 then
    putU32 (INode.directBlock 0) blockStartSector (putU32 INode.sizeLower32 100 fun _ => 0)
  else fun _ => 0

/-- Twenty bytes from the tenth on. -/
theorem readFromFile_inside_twenty : hundredBytes.ReadsInside 20 0 10 :=
  (readFromFile_inside_iff (by decide)).mpr (.inr ⟨by decide, by decide, .inl (by decide)⟩)

/-- A buffer of a sector's size gets one byte more than the file has. -/
theorem not_readFromFile_inside : ¬∀ (contents : Contents) (len id position : Nat), id < numINodes →
    contents.ReadsInside len id position := by
  intro claim
  have readable := (claim hundredBytes 512 0 0 (by decide)).readable (by decide) (by decide)
  exact absurd readable.fits (by decide)

end WalnutOs.Wnfs
