import WalnutOs.Vfs.FileHandle
import WalnutOs.Wnfs.CreateFile
import Mathlib.Data.Set.Function
import Mathlib.Data.Set.Pairwise.Basic

/-! Where the records of the inodes that files are opened by are on the disk. -/

namespace WalnutOs.Wnfs

open WalnutOs.Klib

/-- The byte of the disk at which the record of an inode begins for the sector cache. -/
def recordStart (inodeNum : Nat) : Nat := byteOffset (inodeSector inodeNum) + inodeSectorOffset inodeNum

/-- The records are numbered from the start of the disk, and the numbers wrap. -/
theorem recordStart_eq (inodeNum : Nat) :
    recordStart inodeNum = (inodeNum + inodesStart / sizeofINode) % 2 ^ 25 * sizeofINode := by
  have first : inodesStart / sizeofINode = 336 := rfl
  rw [recordStart, byteOffset, inodeSector_eq, inodeSectorOffset_eq, first]
  unfold sectorSize sizeofINode
  omega

/-- The record of an inode is in the table that `wnfs.hh` lays out. -/
def InTable (inodeNum : Nat) : Prop :=
  inodesStart ≤ recordStart inodeNum ∧ recordStart inodeNum + sizeofINode ≤ blocksStart

def RecordsApart (inodeNum other : Nat) : Prop :=
  recordStart inodeNum + sizeofINode ≤ recordStart other ∨
    recordStart other + sizeofINode ≤ recordStart inodeNum

theorem inTable_iff (inodeNum : Nat) : InTable inodeNum ↔ inodeNum % 2 ^ 25 < numINodes := by
  have first : inodesStart / sizeofINode = 336 := rfl
  have start : inodesStart = 336 * 128 := rfl
  have past : blocksStart = 8528 * 128 := rfl
  rw [InTable, recordStart_eq, first, start, past]
  unfold sizeofINode numINodes
  omega

theorem recordsApart_iff (inodeNum other : Nat) :
    RecordsApart inodeNum other ↔ inodeNum % 2 ^ 25 ≠ other % 2 ^ 25 := by
  have first : inodesStart / sizeofINode = 336 := rfl
  rw [RecordsApart, recordStart_eq, recordStart_eq, first]
  unfold sizeofINode
  omega

/-- The number that a disk has in the four bytes from a place on. -/
def Contents.u32At (disk : Contents) (place : Nat) : Nat :=
  getU32 (disk (place / sectorSize)) (place % sectorSize)

theorem u32At_recordStart (disk : Contents) (inodeNum field : Nat) (within : field < sizeofINode) :
    disk.u32At (recordStart inodeNum + field) =
      getU32 (disk (diskSector (inodeSector inodeNum))) (inodeSectorOffset inodeNum + field) := by
  have offset := inodeSectorOffset_eq inodeNum
  unfold sizeofINode at within
  have sector : (recordStart inodeNum + field) / sectorSize = diskSector (inodeSector inodeNum) := by
    unfold recordStart diskSector byteOffset sectorSize
    omega
  have place : (recordStart inodeNum + field) % sectorSize = inodeSectorOffset inodeNum + field := by
    unfold recordStart byteOffset sectorSize
    omega
  rw [Contents.u32At, sector, place]

end WalnutOs.Wnfs

namespace WalnutOs.Vfs

open WalnutOs.Klib WalnutOs.Wnfs

/-- A file can be opened by the id in this world. -/
def Opens (world : World) (id : BitVec 32) : Prop :=
  ∃ handle after, FileHandle.openFile id.toNat world = .ok (.ok handle, after)

/-- The records of all the ids are in the table of the inodes, and no two of them overlap. -/
structure Confined (ids : Set (BitVec 32)) : Prop where
  inside : ∀ id ∈ ids, InTable id.toNat
  apart : ids.Pairwise fun id other => RecordsApart id.toNat other.toNat

theorem confined_iff (ids : Set (BitVec 32)) : Confined ids ↔
    (∀ id ∈ ids, id.toNat % 2 ^ 25 < numINodes) ∧ ids.InjOn fun id => id.toNat % 2 ^ 25 := by
  constructor
  · rintro ⟨inside, apart⟩
    refine ⟨fun id member => (inTable_iff _).mp (inside id member), fun id member other member' same => ?_⟩
    by_contra different
    exact (recordsApart_iff ..).mp (apart member member' different) same
  · rintro ⟨small, distinct⟩
    exact ⟨fun id member => (inTable_iff _).mpr (small id member), fun id member other member' different =>
      (recordsApart_iff ..).mpr fun same => different (distinct member member' same)⟩

/-- On a disk without errors a file can be opened by any id, if a buffer is free, and its
size is read where its record is. -/
theorem openFile_of_free {world : World} {id : BitVec 32} (working : world.drive.Reliable)
    (missing : world.cache.bufWithSector (inodeSector id.toNat) = none)
    (room : world.cache.freeBuffer ≠ none) :
    ∃ handle after, FileHandle.openFile id.toNat world = .ok (.ok handle, after) ∧
      handle.size = Contents.u32At world.drive.sectors (recordStart id.toNat + INode.sizeLower32) := by
  rw [u32At_recordStart _ _ _ (by decide)]
  unfold FileHandle.openFile
  rw [WnfsM.withBufSector]
  rcases world.readBufSector_cases (inodeSector id.toNat) with ⟨_, found, -⟩ | ⟨-, full, -⟩ |
      ⟨bufNum, data, -, -, read, answer⟩ | ⟨_, _, _, -, -, failed, -⟩
  · cases missing.symm.trans found
  · exact absurd full room
  · rw [answer]
    refine ⟨_, _, rfl, ?_⟩
    rcases read with ⟨-, rfl⟩ | failed
    · simp
    · cases working.outcome.symm.trans failed
  · cases working.outcome.symm.trans failed

/-- By any id a file can be opened if a buffer is free. The records of the ids are in the
table, each in its own place, exactly if the ids are below 8192 and distinct modulo
`2 ^ 25`, which is where the 32-bit offsets of their sectors wrap. -/
theorem opened_confined_iff {world : World} (working : world.drive.Reliable) (ids : Set (BitVec 32)) :
    (∀ id ∈ ids, world.cache.bufWithSector (inodeSector id.toNat) = none → world.cache.freeBuffer ≠ none →
      ∃ handle after, FileHandle.openFile id.toNat world = .ok (.ok handle, after) ∧
        handle.size = Contents.u32At world.drive.sectors (recordStart id.toNat + INode.sizeLower32)) ∧
    (Confined {id ∈ ids | Opens world id} ↔
      (∀ id ∈ {id ∈ ids | Opens world id}, id.toNat % 2 ^ 25 < numINodes) ∧
        {id ∈ ids | Opens world id}.InjOn fun id => id.toNat % 2 ^ 25) :=
  ⟨fun _ _ missing room => openFile_of_free working missing room, confined_iff _⟩

theorem opened_confined_two :
    Confined {id ∈ ({0#32, 5#32} : Set (BitVec 32)) | Opens ⟨.constructed fun _ _ => 0, .blank⟩ id} := by
  refine (opened_confined_iff (fun _ => rfl) _).2.mpr ⟨?_, ?_⟩
  · rintro id ⟨rfl | rfl, -⟩ <;> decide
  · rintro id ⟨rfl | rfl, -⟩ other ⟨rfl | rfl, -⟩ same <;> first | rfl | exact absurd same (by decide)

/-- A file can be opened by the id 8192, whose record is in the first data block. -/
theorem opened_reaches_blocks : ¬ ∀ world : World, world.drive.Reliable → Confined {id | Opens world id} := by
  intro claim
  have working : (formatted (fun _ _ => 0) .blank).drive.Reliable :=
    (formatDisk_bitmaps fun _ => rfl).1
  have missing :
      (formatted (fun _ _ => 0) .blank).cache.bufWithSector (inodeSector (8192#32).toNat) = none := by decide
  obtain ⟨handle, after, opened, -⟩ := openFile_of_free working missing (by decide)
  have inside := (claim _ working).inside 8192#32 ⟨handle, after, opened⟩
  revert inside
  rw [inTable_iff]
  decide

end WalnutOs.Vfs
