import WalnutOs.Klib.Drive
import WalnutOs.Lib.Bits
import Mathlib.Algebra.Group.Nat.Defs
import Mathlib.Data.List.FinRange

/-! The buffer cache of the AHCI driver, `klib/ahci/cache.hh`, and the calls of
`AHCIState` on it. A buffer is known by its number. -/

namespace WalnutOs.Klib

open WalnutOs.Lib

abbrev BufferNum := Fin 8

structure BufferCache where
  cache : BufferNum → Sector
  bufferLocations : BufferNum → Nat
  takenMap : BitVec 8
  dirtyMap : BitVec 8

namespace BufferCache

/-- A cache as it is constructed, over uninitialised memory. -/
def constructed (memory : BufferNum → Sector) : BufferCache := ⟨memory, fun _ => 0, 0, 0⟩

def isDirty (cache : BufferCache) (bufNum : BufferNum) : Bool := cache.dirtyMap.getLsbD bufNum

def isTaken (cache : BufferCache) (bufNum : BufferNum) : Bool := cache.takenMap.getLsbD bufNum

def makeDirty (cache : BufferCache) (bufNum : BufferNum) : BufferCache :=
  { cache with dirtyMap := cache.dirtyMap ||| 1#8 <<< bufNum.val }

def makeClean (cache : BufferCache) (bufNum : BufferNum) : BufferCache :=
  { cache with dirtyMap := cache.dirtyMap &&& ~~~(1#8 <<< bufNum.val) }

def setLocation (cache : BufferCache) (bufNum : BufferNum) (offset : Nat) : BufferCache :=
  { cache with bufferLocations := Function.update cache.bufferLocations bufNum offset }

def release (cache : BufferCache) (bufNum : BufferNum) : BufferCache :=
  { cache with takenMap := cache.takenMap &&& ~~~(1#8 <<< bufNum.val) }

def markDirty (cache : BufferCache) (bufNum : BufferNum) : BufferCache := cache.makeDirty bufNum

def bufferWithOffset (cache : BufferCache) (offset : Nat) : Option BufferNum :=
  (List.finRange 8).find? fun i => cache.bufferLocations i = offset

/-- The first buffer whose taken bit is clear. -/
def untaken (cache : BufferCache) : Option BufferNum :=
  (List.finRange 8).find? fun i => !cache.isTaken i

/-- The bytes of a buffer are changed in place. -/
def fill (cache : BufferCache) (bufNum : BufferNum) (data : Sector) : BufferCache :=
  { cache with cache := Function.update cache.cache bufNum data }

def take (cache : BufferCache) (bufNum : BufferNum) : BufferCache :=
  { cache with takenMap := cache.takenMap ||| 1#8 <<< bufNum.val }

section Fields

variable {cache : BufferCache} {bufNum other : BufferNum} {offset : Nat}

@[simp] theorem isDirty_makeDirty : (cache.makeDirty bufNum).isDirty other =
    (cache.isDirty other || decide (other = bufNum)) := by
  simp only [isDirty, makeDirty, Bits.getLsbD_set other.isLt, Fin.ext_iff]

@[simp] theorem isDirty_makeClean : (cache.makeClean bufNum).isDirty other =
    (cache.isDirty other && !decide (other = bufNum)) := by
  simp only [isDirty, makeClean, Bits.getLsbD_clear other.isLt, Fin.ext_iff]

@[simp] theorem bufferLocations_setLocation : (cache.setLocation bufNum offset).bufferLocations =
    Function.update cache.bufferLocations bufNum offset := rfl

@[simp] theorem cache_fill {data : Sector} :
    (cache.fill bufNum data).cache = Function.update cache.cache bufNum data := rfl

theorem location_of_found (found : cache.bufferWithOffset offset = some bufNum) :
    cache.bufferLocations bufNum = offset := by
  simpa using List.find?_some found

theorem location_of_missing (missing : cache.bufferWithOffset offset = none) (bufNum : BufferNum) :
    cache.bufferLocations bufNum ≠ offset := by
  simpa using List.find?_eq_none.mp missing bufNum (List.mem_finRange bufNum)

end Fields

end BufferCache

/-- `sector * SECTOR_SIZE`, in 32 bits. -/
def locationOf (sector : Nat) : Nat := sector * sectorSize % 2 ^ 32

/-- The part of `AHCIState` that reads and writes through the cache. -/
structure CachedDrive where
  cache : BufferCache
  drive : Drive

namespace CachedDrive

/-- The buffer is marked clean whether or not the write succeeds. -/
def sync (bufNum : BufferNum) (disk : CachedDrive) : Except IOError Unit × CachedDrive :=
  let cache := disk.cache.makeClean bufNum
  let (result, drive) := disk.drive.write (cache.cache bufNum) (cache.bufferLocations bufNum)
  (result, ⟨cache, drive⟩)

/-- An error of the write-back is ignored. -/
def takeBuffer (bufNum : BufferNum) (disk : CachedDrive) : CachedDrive :=
  let synced := if disk.cache.isDirty bufNum then (disk.sync bufNum).2 else disk
  { synced with cache := synced.cache.take bufNum }

/-- A buffer that is found by its location is returned as it is, and not taken. -/
def getBuffer (readOffset : Nat) (disk : CachedDrive) : Option BufferNum × CachedDrive :=
  match disk.cache.bufferWithOffset readOffset with
  | some bufNum => (some bufNum, disk)
  | none =>
    match disk.cache.untaken with
    | some bufNum =>
      let taken := disk.takeBuffer bufNum
      (some bufNum, { taken with cache := taken.cache.setLocation bufNum readOffset })
    | none => (none, disk)

/-- The disk is read into the buffer also when the buffer was found in the cache. -/
def readSector (sector : Nat) (disk : CachedDrive) : Except IOError BufferNum × CachedDrive :=
  match disk.getBuffer (locationOf sector) with
  | (none, disk) => (.error .cacheFull, disk)
  | (some bufNum, disk) =>
    match disk.drive.read (locationOf sector) with
    | (.error error, data, drive) => (.error error, ⟨disk.cache.fill bufNum data, drive⟩)
    | (.ok (), data, drive) => (.ok bufNum, ⟨disk.cache.fill bufNum data, drive⟩)

def release (bufNum : BufferNum) (disk : CachedDrive) : CachedDrive :=
  { disk with cache := disk.cache.release bufNum }

def markDirty (bufNum : BufferNum) (disk : CachedDrive) : CachedDrive :=
  { disk with cache := disk.cache.markDirty bufNum }

def flush (bufNum : BufferNum) (disk : CachedDrive) : Except IOError Unit × CachedDrive :=
  (disk.release bufNum).sync bufNum

def flushDirty (bufNum : BufferNum) (disk : CachedDrive) : Except IOError Unit × CachedDrive :=
  if disk.cache.isDirty bufNum then disk.flush bufNum else (.ok (), disk.release bufNum)

@[simp] theorem bufferLocations_flushDirty {disk : CachedDrive} {bufNum : BufferNum} :
    (disk.flushDirty bufNum).2.cache.bufferLocations = disk.cache.bufferLocations := by
  unfold flushDirty
  split <;> rfl

@[simp] theorem bufferLocations_takeBuffer {disk : CachedDrive} {bufNum : BufferNum} :
    (disk.takeBuffer bufNum).cache.bufferLocations = disk.cache.bufferLocations := by
  unfold takeBuffer
  dsimp only
  split <;> rfl

/-- A buffer is found by its location, or the first untaken one is moved to it. -/
theorem getBuffer_cases (disk : CachedDrive) (offset : Nat) :
    (∃ bufNum, disk.cache.bufferWithOffset offset = some bufNum ∧
      disk.getBuffer offset = (some bufNum, disk)) ∨
    (∃ bufNum, disk.cache.bufferWithOffset offset = none ∧ disk.cache.untaken = some bufNum ∧
      disk.getBuffer offset = (some bufNum, { disk.takeBuffer bufNum with
        cache := (disk.takeBuffer bufNum).cache.setLocation bufNum offset })) ∨
    (disk.cache.bufferWithOffset offset = none ∧ disk.cache.untaken = none ∧
      disk.getBuffer offset = (none, disk)) := by
  unfold getBuffer
  cases found : disk.cache.bufferWithOffset offset with
  | some bufNum => exact .inl ⟨bufNum, rfl, rfl⟩
  | none =>
    cases free : disk.cache.untaken with
    | some bufNum => exact .inr (.inl ⟨bufNum, rfl, rfl, rfl⟩)
    | none => exact .inr (.inr ⟨rfl, rfl, rfl⟩)

end CachedDrive

end WalnutOs.Klib
