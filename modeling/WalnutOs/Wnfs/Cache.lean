import WalnutOs.Klib.Drive
import WalnutOs.Lib.Bits
import WalnutOs.Lib.Live
import WalnutOs.Lib.Run
import Mathlib.Algebra.Group.Nat.Defs
import Mathlib.Data.Fin.Basic
import Mathlib.Data.List.FinRange

/-! The sector cache of WNFS, `wnfs/cache.hh`: eight buffers, each with the
number of the sector it holds, a dirty bit and a free bit. -/

namespace WalnutOs.Wnfs

open WalnutOs.Klib WalnutOs.Lib

abbrev BufNum := Fin 8

/-- `u32(-1)`, the number of a buffer that holds no sector. -/
def noSector : Nat := 2 ^ 32 - 1

structure BufCache where
  bufSectors : BufNum → Nat
  buffer : BufNum → Sector
  bufferDirtyMask : BitVec 8
  bufferFreeMask : BitVec 8

/-- A cache and the disk behind it, `sata_disk0`. -/
structure World where
  cache : BufCache
  drive : Drive

namespace BufCache

/-- A cache as it is constructed, over uninitialised memory. -/
def constructed (memory : BufNum → Sector) : BufCache :=
  ⟨fun _ => noSector, memory, 0, 0xFF⟩

/-- `_buffer` is one array of 4096 bytes: an index past a buffer's end goes on
into the next buffer. -/
def locate (idx : Nat) (bufNum : BufNum) : Except Fault (BufNum × Fin 512) :=
  if inside : bufNum.val * 512 + idx < 4096 then
    .ok (⟨(bufNum.val * 512 + idx) / 512, by omega⟩, ⟨(bufNum.val * 512 + idx) % 512, by omega⟩)
  else .error .outOfBounds

def getValConst (cache : BufCache) (idx : Nat) (bufNum : BufNum) : Except Fault Byte :=
  (locate idx bufNum).map fun place => cache.buffer place.1 place.2

def markDirty (cache : BufCache) (bufNum : BufNum) : BufCache :=
  { cache with bufferDirtyMask := cache.bufferDirtyMask ||| 1#8 <<< bufNum.val }

def clearDirty (cache : BufCache) (bufNum : BufNum) : BufCache :=
  { cache with bufferDirtyMask := cache.bufferDirtyMask &&& ~~~(1#8 <<< bufNum.val) }

/-- The buffer's bytes are changed through a pointer that was taken earlier. -/
def poke (cache : BufCache) (bufNum : BufNum) (sector : Sector) : BufCache :=
  { cache with buffer := Function.update cache.buffer bufNum sector }

/-- `get_val(idx, buf_num) = data`. -/
def setVal (cache : BufCache) (idx : Nat) (bufNum : BufNum) (data : Byte) : Except Fault BufCache :=
  (locate idx bufNum).map fun place =>
    (cache.markDirty bufNum).poke place.1 (Function.update (cache.buffer place.1) place.2 data)

def grabBuffer (cache : BufCache) (bufNum : BufNum) : BufCache :=
  { cache with bufferFreeMask := cache.bufferFreeMask &&& ~~~(1#8 <<< bufNum.val) }

/-- The constructor of `BufCacheRef`. -/
def attach (cache : BufCache) (sector : Nat) (bufNum : BufNum) : BufCache :=
  { cache with bufSectors := Function.update cache.bufSectors bufNum sector }.grabBuffer bufNum

def bufWithSector (cache : BufCache) (sector : Nat) : Option BufNum :=
  (List.finRange 8).find? fun i => cache.bufSectors i = sector

/-- The first buffer whose free bit is set. -/
def freeBuffer (cache : BufCache) : Option BufNum :=
  (List.finRange 8).find? fun i => cache.bufferFreeMask.getLsbD i

def isDirty (cache : BufCache) (bufNum : BufNum) : Bool :=
  cache.bufferDirtyMask.getLsbD bufNum

def isFree (cache : BufCache) (bufNum : BufNum) : Bool :=
  cache.bufferFreeMask.getLsbD bufNum

section Fields

variable {cache : BufCache} {sector : Nat} {bufNum other : BufNum} {data : Sector}

theorem locate_of_lt (idx : Fin 512) (bufNum : BufNum) : locate idx bufNum = .ok (bufNum, idx) := by
  have inside : bufNum.val * 512 + idx.val < 4096 := by omega
  rw [locate, dif_pos inside]
  congr 2
  · ext
    simp only
    omega
  · ext
    simp only
    omega

@[simp] theorem getValConst_of_lt (idx : Fin 512) :
    cache.getValConst idx bufNum = .ok (cache.buffer bufNum idx) := by
  simp [getValConst, locate_of_lt, Except.map]

@[simp] theorem setVal_of_lt (idx : Fin 512) (byte : Byte) :
    cache.setVal idx bufNum byte = .ok ((cache.markDirty bufNum).poke bufNum
      (Function.update (cache.buffer bufNum) idx byte)) := by
  simp [setVal, locate_of_lt, Except.map]

@[simp] theorem isFree_attach : (cache.attach sector bufNum).isFree other =
    (cache.isFree other && !decide (other = bufNum)) := by
  simp only [isFree, attach, grabBuffer, Bits.getLsbD_clear other.isLt, Fin.ext_iff]

@[simp] theorem isDirty_attach :
    (cache.attach sector bufNum).isDirty other = cache.isDirty other := rfl

@[simp] theorem buffer_attach : (cache.attach sector bufNum).buffer = cache.buffer := rfl

@[simp] theorem bufSectors_attach : (cache.attach sector bufNum).bufSectors =
    Function.update cache.bufSectors bufNum sector := rfl

@[simp] theorem isFree_poke : (cache.poke bufNum data).isFree other = cache.isFree other := rfl

@[simp] theorem isDirty_poke : (cache.poke bufNum data).isDirty other = cache.isDirty other := rfl

@[simp] theorem bufSectors_poke : (cache.poke bufNum data).bufSectors = cache.bufSectors := rfl

@[simp] theorem buffer_poke :
    (cache.poke bufNum data).buffer = Function.update cache.buffer bufNum data := rfl

@[simp] theorem isDirty_markDirty : (cache.markDirty bufNum).isDirty other =
    (cache.isDirty other || decide (other = bufNum)) := by
  simp only [isDirty, markDirty, Bits.getLsbD_set other.isLt, Fin.ext_iff]

@[simp] theorem isFree_markDirty :
    (cache.markDirty bufNum).isFree other = cache.isFree other := rfl

@[simp] theorem bufSectors_markDirty : (cache.markDirty bufNum).bufSectors = cache.bufSectors := rfl

@[simp] theorem buffer_markDirty : (cache.markDirty bufNum).buffer = cache.buffer := rfl

@[simp] theorem isDirty_clearDirty : (cache.clearDirty bufNum).isDirty other =
    (cache.isDirty other && !decide (other = bufNum)) := by
  simp only [isDirty, clearDirty, Bits.getLsbD_clear other.isLt, Fin.ext_iff]

@[simp] theorem isFree_clearDirty :
    (cache.clearDirty bufNum).isFree other = cache.isFree other := rfl

@[simp] theorem bufSectors_clearDirty :
    (cache.clearDirty bufNum).bufSectors = cache.bufSectors := rfl

@[simp] theorem buffer_clearDirty : (cache.clearDirty bufNum).buffer = cache.buffer := rfl

/-- `_buffer_free_mask ^= 1 << buf_num`. -/
@[simp] theorem isFree_toggle :
    isFree { cache with bufferFreeMask := cache.bufferFreeMask ^^^ 1#8 <<< bufNum.val } other =
      (cache.isFree other ^^ decide (other = bufNum)) := by
  simp only [isFree, Bits.getLsbD_toggle other.isLt, Fin.ext_iff]

theorem bufSectors_of_found (found : cache.bufWithSector sector = some bufNum) :
    cache.bufSectors bufNum = sector := by
  simpa using List.find?_some found

theorem bufSectors_of_missing (missing : cache.bufWithSector sector = none) (bufNum : BufNum) :
    cache.bufSectors bufNum ≠ sector := by
  simpa using List.find?_eq_none.mp missing bufNum (List.mem_finRange bufNum)

theorem isFree_of_found (found : cache.freeBuffer = some bufNum) : cache.isFree bufNum = true := by
  simpa [isFree] using List.find?_some found

theorem isFree_of_missing (missing : cache.freeBuffer = none) (bufNum : BufNum) :
    cache.isFree bufNum = false := by
  simpa [isFree] using List.find?_eq_none.mp missing bufNum (List.mem_finRange bufNum)

end Fields

end BufCache

/-- `sector * BUF_SIZE`, in 32 bits. -/
def byteOffset (sector : Nat) : Nat := sector * sectorSize % 2 ^ 32

/-- The sector of the disk that a transfer for this sector number addresses. -/
def diskSector (sector : Nat) : Nat := byteOffset sector / sectorSize

theorem diskSector_of_lt {sector : Nat} (small : sector < 2 ^ 23) : diskSector sector = sector := by
  simp only [diskSector, byteOffset, sectorSize]
  omega

namespace World

/-- `none` is `Err`. -/
def readBufSector (sector : Nat) (world : World) : Option BufNum × World :=
  match world.cache.bufWithSector sector with
  | some bufNum => (some bufNum, { world with cache := world.cache.attach sector bufNum })
  | none =>
    match world.cache.freeBuffer with
    | none => (none, world)
    | some bufNum =>
      match world.drive.read (byteOffset sector) with
      | (.ok (), data, drive) =>
        (some bufNum, ⟨(world.cache.poke bufNum data).attach sector bufNum, drive⟩)
      | (.error _, data, drive) => (none, ⟨world.cache.poke bufNum data, drive⟩)

/-- The dirty bit, which `get_val` sets on the way, is cleared before the write. -/
def flush (bufNum : BufNum) (world : World) : Except IOError Unit × World :=
  let cache := (world.cache.markDirty bufNum).clearDirty bufNum
  let (result, drive) :=
    world.drive.write (cache.buffer bufNum) (byteOffset (cache.bufSectors bufNum))
  (result, ⟨cache, drive⟩)

/-- The destructor of `BufCacheRef`; an error of the flush is dropped. -/
def releaseBuffer (bufNum : BufNum) (world : World) : World :=
  let cache := { world.cache with
    bufferFreeMask := world.cache.bufferFreeMask ^^^ 1#8 <<< bufNum.val }
  if cache.isDirty bufNum then (flush bufNum { world with cache }).2 else { world with cache }

section Cases

variable {world after : World} {sector : Nat} {bufNum : BufNum}

/-- A sector is found in a buffer, or read into the first free one if there is one. -/
theorem readBufSector_cases (world : World) (sector : Nat) :
    (∃ bufNum, world.cache.bufWithSector sector = some bufNum ∧
      world.readBufSector sector = (some bufNum, { world with cache := world.cache.attach sector bufNum })) ∨
    (world.cache.bufWithSector sector = none ∧ world.cache.freeBuffer = none ∧
      world.readBufSector sector = (none, world)) ∨
    (∃ bufNum data, world.cache.bufWithSector sector = none ∧ world.cache.freeBuffer = some bufNum ∧
      (world.drive.outcome = .done ∧ data = world.drive.sectors (diskSector sector) ∨
        world.drive.outcome = .failed none data) ∧
      world.readBufSector sector =
        (some bufNum, ⟨(world.cache.poke bufNum data).attach sector bufNum, world.drive.tick⟩)) ∨
    ∃ bufNum error data, world.cache.bufWithSector sector = none ∧
      world.cache.freeBuffer = some bufNum ∧ world.drive.outcome = .failed (some error) data ∧
      world.readBufSector sector = (none, ⟨world.cache.poke bufNum data, world.drive.tick⟩) := by
  unfold readBufSector Drive.read
  cases found : world.cache.bufWithSector sector with
  | some bufNum => exact .inl ⟨bufNum, rfl, rfl⟩
  | none =>
    cases free : world.cache.freeBuffer with
    | none => exact .inr (.inl ⟨rfl, rfl, rfl⟩)
    | some bufNum =>
      refine .inr (.inr ?_)
      cases outcome : world.drive.outcome with
      | done => exact .inl ⟨bufNum, _, rfl, rfl, .inl ⟨rfl, rfl⟩, rfl⟩
      | failed reported left =>
        cases reported with
        | none => exact .inl ⟨bufNum, left, rfl, rfl, .inr rfl, rfl⟩
        | some error => exact .inr ⟨bufNum, error, left, rfl, rfl, rfl, rfl⟩

/-- A read that gives a buffer found it, or filled a free one. -/
theorem readBufSector_some_cases (answer : world.readBufSector sector = (some bufNum, after)) :
    (world.cache.bufWithSector sector = some bufNum ∧
      after = { world with cache := world.cache.attach sector bufNum }) ∨
    ∃ data, world.cache.bufWithSector sector = none ∧ world.cache.freeBuffer = some bufNum ∧
      (world.drive.outcome = .done ∧ data = world.drive.sectors (diskSector sector) ∨
        world.drive.outcome = .failed none data) ∧
      after = ⟨(world.cache.poke bufNum data).attach sector bufNum, world.drive.tick⟩ := by
  rcases world.readBufSector_cases sector with ⟨_, found, run⟩ | ⟨-, -, run⟩ |
      ⟨_, data, missing, free, read, run⟩ | ⟨_, _, _, -, -, -, run⟩
  · obtain ⟨same, rfl⟩ := Prod.mk.inj (answer.symm.trans run)
    cases same
    exact .inl ⟨found, rfl⟩
  · cases (Prod.mk.inj (answer.symm.trans run)).1
  · obtain ⟨same, rfl⟩ := Prod.mk.inj (answer.symm.trans run)
    cases same
    exact .inr ⟨data, missing, free, read, rfl⟩
  · cases (Prod.mk.inj (answer.symm.trans run)).1

theorem readBufSector_some (answer : world.readBufSector sector = (some bufNum, after)) :
    after.cache.bufSectors = Function.update world.cache.bufSectors bufNum sector ∧
      ∀ other, after.cache.isDirty other = world.cache.isDirty other := by
  rcases readBufSector_some_cases answer with ⟨-, rfl⟩ | ⟨_, -, -, -, rfl⟩
  · exact ⟨rfl, fun _ => rfl⟩
  · exact ⟨rfl, fun _ => rfl⟩

/-- Whatever a read answers, nothing is changed on the disk and no buffer is marked. -/
theorem readBufSector_disk {answer : Option BufNum} (run : world.readBufSector sector = (answer, after)) :
    after.drive.sectors = world.drive.sectors ∧ after.drive.outcomes = world.drive.outcomes ∧
      world.drive.transfers ≤ after.drive.transfers ∧
      ∀ other, after.cache.isDirty other = world.cache.isDirty other := by
  rcases world.readBufSector_cases sector with ⟨_, -, ran⟩ | ⟨-, -, ran⟩ | ⟨_, _, -, -, -, ran⟩ |
      ⟨_, _, _, -, -, -, ran⟩
  · obtain rfl := (Prod.mk.inj (run.symm.trans ran)).2
    exact ⟨rfl, rfl, Nat.le_refl _, fun _ => rfl⟩
  · obtain rfl := (Prod.mk.inj (run.symm.trans ran)).2
    exact ⟨rfl, rfl, Nat.le_refl _, fun _ => rfl⟩
  · obtain rfl := (Prod.mk.inj (run.symm.trans ran)).2
    exact ⟨rfl, rfl, Nat.le_succ _, fun _ => rfl⟩
  · obtain rfl := (Prod.mk.inj (run.symm.trans ran)).2
    exact ⟨rfl, rfl, Nat.le_succ _, fun _ => rfl⟩

/-- Whatever a flush answers, the buffer is clean, and the disk changed if the transfer is done. -/
theorem flush_cases (world : World) (bufNum : BufNum) :
    (world.drive.outcome = .done ∧ world.flush bufNum =
      (.ok (), ⟨(world.cache.markDirty bufNum).clearDirty bufNum, { world.drive.tick with
        sectors := Function.update world.drive.sectors (diskSector (world.cache.bufSectors bufNum))
          (world.cache.buffer bufNum) }⟩)) ∨
    ∃ reported left, world.drive.outcome = .failed reported left ∧
      (world.flush bufNum).1 = (match reported with | none => .ok () | some error => .error error) ∧
      (world.flush bufNum).2 = ⟨(world.cache.markDirty bufNum).clearDirty bufNum, world.drive.tick⟩ := by
  unfold flush Drive.write
  cases outcome : world.drive.outcome with
  | done => exact .inl ⟨rfl, rfl⟩
  | failed reported left =>
    refine .inr ⟨reported, left, rfl, ?_⟩
    cases reported with
    | none => exact ⟨rfl, rfl⟩
    | some error => exact ⟨rfl, rfl⟩

theorem sectors_flush (world : World) (working : world.drive.Reliable) (bufNum : BufNum) :
    (world.flush bufNum).2.drive.sectors = Function.update world.drive.sectors
      (diskSector (world.cache.bufSectors bufNum)) (world.cache.buffer bufNum) := by
  rcases world.flush_cases bufNum with ⟨-, run⟩ | ⟨_, _, failed, -⟩
  · rw [run]
  · cases working.outcome.symm.trans failed

end Cases

end World

/-- A live `BufCacheRef`, and the sector it was asked for. -/
structure BufCacheRef where
  sector : Nat
  bufNum : BufNum
  deriving DecidableEq

/-- The cache with the references that are live, the latest first. -/
structure CacheRun where
  world : World
  refs : List BufCacheRef

/-- A call by the holders of references; `ref` is a place in the list of live ones. -/
inductive CacheCall where
  | readBufSector (sector : Nat)
  | read (ref : Nat) (idx : Fin 512)
  | write (ref : Nat) (idx : Fin 512) (data : Byte)
  | flush (ref : Nat)
  | release (ref : Nat)

namespace CacheRun

/-- A cache as constructed, with no reference taken. -/
def start (memory : BufNum → Sector) (drive : Drive) : CacheRun :=
  ⟨⟨.constructed memory, drive⟩, []⟩

/-- The byte that `BufCacheRef::read` returns. -/
def readByte (run : CacheRun) (ref : Nat) (idx : Fin 512) : Option (Except Fault Byte) :=
  run.refs[ref]?.map fun held => run.world.cache.getValConst idx held.bufNum

def step (run : CacheRun) : CacheCall → CacheRun
  | .readBufSector sector =>
    match run.world.readBufSector sector with
    | (some bufNum, world) => ⟨world, ⟨sector, bufNum⟩ :: run.refs⟩
    | (none, world) => { run with world }
  | .read _ _ => run
  | .write ref idx data =>
    match run.refs[ref]? with
    | none => run
    | some held =>
      match run.world.cache.setVal idx held.bufNum data with
      | .ok cache => { run with world.cache := cache }
      | .error _ => run
  | .flush ref =>
    match run.refs[ref]? with
    | none => run
    | some held => { run with world := (run.world.flush held.bufNum).2 }
  | .release ref =>
    match run.refs[ref]? with
    | none => run
    | some held => ⟨run.world.releaseBuffer held.bufNum, run.refs.eraseIdx ref⟩

theorem step_taken {run : CacheRun} {sector : Nat} {bufNum : BufNum} {world : World}
    (answer : run.world.readBufSector sector = (some bufNum, world)) :
    run.step (.readBufSector sector) = ⟨world, ⟨sector, bufNum⟩ :: run.refs⟩ := by
  simp only [step, answer]

theorem step_refused {run : CacheRun} {sector : Nat} {world : World}
    (answer : run.world.readBufSector sector = (none, world)) :
    run.step (.readBufSector sector) = { run with world } := by
  simp only [step, answer]

end CacheRun

end WalnutOs.Wnfs
