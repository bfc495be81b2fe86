import WalnutOs.Wnfs.Cache

/-! The buffers of the sector cache against the disk when transfers fail. -/

namespace WalnutOs.Wnfs

open WalnutOs.Klib WalnutOs.Lib

/-- No transfer addresses the number of an empty buffer. -/
theorem ne_noSector_of_diskSector (sector : Nat) : diskSector sector ≠ noSector := by
  unfold diskSector byteOffset sectorSize noSector
  omega

namespace World

variable {world : World}

/-- The bytes that the disk has for the sector that a buffer records. -/
def onDisk (world : World) (bufNum : BufNum) : Sector :=
  world.drive.sectors (world.cache.bufSectors bufNum)

/-- Every buffer that records a sector is marked dirty or holds what the disk has. -/
def Coherent (world : World) : Prop :=
  ∀ bufNum, world.cache.bufSectors bufNum ≠ noSector →
    world.cache.isDirty bufNum = true ∨ world.cache.buffer bufNum = world.onDisk bufNum

/-- The sector that a buffer records after the read that was to fill it: the new
one unless a failure was reported. -/
def tagAfter (world : World) (sector : Nat) (bufNum : BufNum) : Nat :=
  match world.drive.outcome with
  | .failed (some _) _ => world.cache.bufSectors bufNum
  | _ => sector

/-- What the read leaves in the buffer. -/
def loaded (world : World) (sector : Nat) : Sector :=
  match world.drive.outcome with
  | .done => world.drive.sectors (diskSector sector)
  | .failed _ left => left

/-- What the read of a missing sector leaves in the buffer that it was to fill does
not matter or is what the disk has for the sector recorded. -/
def ReadSafe (world : World) (sector : Nat) : Prop :=
  ∀ bufNum, world.cache.bufWithSector sector = none → world.cache.freeBuffer = some bufNum →
    world.tagAfter sector bufNum ≠ noSector →
    world.cache.isDirty bufNum = true ∨
      world.loaded sector = world.drive.sectors (world.tagAfter sector bufNum)

/-- A write that does not reach the sector recorded, because it fails or the number
is too large, has nothing unsaved to write; one that reaches a sector does not
change that of another clean buffer with other bytes. -/
def FlushSafe (world : World) (bufNum : BufNum) : Prop :=
  match world.drive.outcome with
  | .done =>
    (world.cache.bufSectors bufNum ≠ noSector →
      diskSector (world.cache.bufSectors bufNum) = world.cache.bufSectors bufNum ∨
        world.cache.buffer bufNum = world.onDisk bufNum) ∧
    ∀ other, other ≠ bufNum →
      world.cache.bufSectors other = diskSector (world.cache.bufSectors bufNum) →
      world.cache.isDirty other = true ∨ world.cache.buffer other = world.cache.buffer bufNum
  | .failed _ _ => world.cache.bufSectors bufNum ≠ noSector →
      world.cache.buffer bufNum = world.onDisk bufNum

/-- A read that fills the buffer as described leaves the cache coherent exactly when it is safe. -/
theorem Coherent.loaded_iff (coherent : Coherent world) {sector : Nat} {target : BufNum} {after : World}
    (missing : world.cache.bufWithSector sector = none) (free : world.cache.freeBuffer = some target)
    (sectors : after.drive.sectors = world.drive.sectors)
    (dirty : ∀ bufNum, after.cache.isDirty bufNum = world.cache.isDirty bufNum)
    (buffer : after.cache.buffer = Function.update world.cache.buffer target (world.loaded sector))
    (tags : after.cache.bufSectors =
      Function.update world.cache.bufSectors target (world.tagAfter sector target)) :
    Coherent after ↔ ReadSafe world sector := by
  simp only [Coherent, onDisk, sectors, dirty, buffer, tags]
  constructor
  · rintro whole bufNum - found
    cases free.symm.trans found
    intro recorded
    simpa using whole target (by simpa using recorded)
  · intro safe bufNum recorded
    by_cases same : bufNum = target
    · subst same
      simpa using safe bufNum missing free (by simpa using recorded)
    · rw [Function.update_of_ne same, Function.update_of_ne same]
      exact coherent bufNum (by simpa [same] using recorded)

theorem Coherent.readBufSector_iff (coherent : Coherent world) (sector : Nat) :
    Coherent (world.readBufSector sector).2 ↔ ReadSafe world sector := by
  rcases world.readBufSector_cases sector with ⟨found, hit, run⟩ | ⟨-, full, run⟩ |
      ⟨target, data, missing, free, read, run⟩ | ⟨target, error, data, missing, free, failed, run⟩
  · have same : Function.update world.cache.bufSectors found sector = world.cache.bufSectors := by
      rw [← BufCache.bufSectors_of_found hit, Function.update_eq_self]
    rw [run]
    refine iff_of_true ?_ fun bufNum missing => by cases hit.symm.trans missing
    simpa [Coherent, onDisk, same] using coherent
  · rw [run]
    exact iff_of_true coherent fun bufNum _ free => by cases full.symm.trans free
  · have loads : world.loaded sector = data ∧ world.tagAfter sector target = sector := by
      rcases read with ⟨done, rfl⟩ | failed
      · simp [loaded, tagAfter, done]
      · simp [loaded, tagAfter, failed]
    rw [run]
    refine coherent.loaded_iff missing free rfl (fun _ => rfl) ?_ ?_
    · rw [loads.1, BufCache.buffer_attach, BufCache.buffer_poke]
    · rw [loads.2, BufCache.bufSectors_attach, BufCache.bufSectors_poke]
  · have loads : world.loaded sector = data ∧
        world.tagAfter sector target = world.cache.bufSectors target := by
      simp [loaded, tagAfter, failed]
    rw [run]
    refine coherent.loaded_iff missing free rfl (fun _ => rfl) ?_ ?_
    · rw [loads.1, BufCache.buffer_poke]
    · rw [loads.2, BufCache.bufSectors_poke, Function.update_eq_self]

theorem Coherent.flush_iff (coherent : Coherent world) (bufNum : BufNum) :
    Coherent (world.flush bufNum).2 ↔ FlushSafe world bufNum := by
  rcases world.flush_cases bufNum with ⟨done, run⟩ | ⟨reported, left, failed, -, run⟩
  · rw [run]
    simp only [FlushSafe, done]
    constructor
    · intro after
      refine ⟨fun recorded => ?_, fun other apart aliased => ?_⟩
      · by_cases address : diskSector (world.cache.bufSectors bufNum) = world.cache.bufSectors bufNum
        · exact .inl address
        · have now := after bufNum (by simpa using recorded)
          exact .inr (by simpa [onDisk, Ne.symm address] using now)
      · have recorded : world.cache.bufSectors other ≠ noSector := by
          rw [aliased]
          exact ne_noSector_of_diskSector _
        simpa [onDisk, apart, aliased] using after other (by simpa using recorded)
    · rintro ⟨own, others⟩ other recorded
      by_cases same : other = bufNum
      · subst same
        rcases own (by simpa using recorded) with address | saved
        · simp [onDisk, address]
        · by_cases address : world.cache.bufSectors other = diskSector (world.cache.bufSectors other)
          · simp [onDisk, ← address]
          · simpa [onDisk, address] using saved
      · by_cases aliased : world.cache.bufSectors other = diskSector (world.cache.bufSectors bufNum)
        · simpa [onDisk, same, aliased] using others other same aliased
        · simpa [onDisk, same, aliased] using coherent other (by simpa using recorded)
  · rw [run]
    simp only [FlushSafe, failed]
    constructor
    · intro after recorded
      simpa [onDisk, Drive.tick] using after bufNum (by simpa using recorded)
    · intro safe other recorded
      by_cases same : other = bufNum
      · subst same
        right
        simpa [onDisk, Drive.tick] using safe recorded
      · simpa [onDisk, same, Drive.tick] using coherent other recorded

end World

namespace CacheRun

/-- No transfer makes the cache forget bytes or mistake them. -/
def TransferSafe (run : CacheRun) : CacheCall → Prop
  | .readBufSector sector => run.world.ReadSafe sector
  | .flush ref => ∀ held, run.refs[ref]? = some held → run.world.FlushSafe held.bufNum
  | .release ref => ∀ held, run.refs[ref]? = some held →
      run.world.cache.isDirty held.bufNum = true → run.world.FlushSafe held.bufNum
  | _ => True

/-- The buffers are coherent after the call. -/
def StaysCoherent (run : CacheRun) (call : CacheCall) : Prop :=
  (run.step call).world.Coherent

theorem stepCoherent_iff {run : CacheRun} (coherent : run.world.Coherent) (call : CacheCall) :
    StaysCoherent run call ↔ TransferSafe run call := by
  unfold StaysCoherent
  cases call with
  | readBufSector sector =>
    rw [TransferSafe, ← coherent.readBufSector_iff sector]
    rcases answer : run.world.readBufSector sector with ⟨_ | bufNum, world⟩
    · rw [step_refused answer]
    · rw [step_taken answer]
  | read ref idx => exact iff_of_true coherent trivial
  | write ref idx data =>
    refine iff_of_true ?_ trivial
    simp only [step]
    cases run.refs[ref]? with
    | none => exact coherent
    | some held =>
      simp only [BufCache.setVal_of_lt]
      intro bufNum recorded
      by_cases same : bufNum = held.bufNum
      · simp [same]
      · simpa [World.onDisk, same] using coherent bufNum recorded
  | flush ref =>
    simp only [step, TransferSafe]
    cases found : run.refs[ref]? with
    | none => simpa using coherent
    | some held => simpa using coherent.flush_iff held.bufNum
  | release ref =>
    simp only [step, TransferSafe]
    cases found : run.refs[ref]? with
    | none => simpa using coherent
    | some held =>
      have toggled : World.Coherent { run.world with cache := { run.world.cache with
          bufferFreeMask := run.world.cache.bufferFreeMask ^^^ 1#8 <<< held.bufNum.val } } := coherent
      simp only [World.releaseBuffer]
      split
      · rename_i dirty
        rw [toggled.flush_iff held.bufNum]
        constructor
        · rintro safe _ ⟨⟩ -
          exact safe
        · exact fun safe => safe held rfl dirty
      · rename_i clean
        refine iff_of_true toggled ?_
        rintro _ ⟨⟩ dirty
        exact absurd dirty clean

/-- Along a run from the constructed cache, with failing transfers anywhere, the
buffers stay coherent exactly when every failing transfer is harmless. -/
theorem coherent_iff_transferSafe (memory : BufNum → Sector) (drive : Drive)
    (calls : List CacheCall) :
    EveryStep step StaysCoherent (start memory drive) calls ↔
      EveryStep step TransferSafe (start memory drive) calls :=
  EveryStep.iff_of_invariant (fun run => run.world.Coherent)
    (fun _ call coherent safe => (stepCoherent_iff coherent call).mpr safe)
    (fun _ call coherent => stepCoherent_iff coherent call)
    (fun _ recorded => absurd rfl recorded) calls

/-- A byte is written into a buffer and the write-back fails: the buffer is
clean and holds a byte that the disk does not have. -/
theorem failed_flush_forgets : ¬ EveryStep step StaysCoherent
    (start (fun _ _ => 0) ⟨fun _ _ => 0,
      fun n => if n = 1 then .failed none (fun _ => 0) else .done, 0⟩)
    [.readBufSector 100, .write 0 0 1, .flush 0] := by
  rintro ⟨-, -, after, -⟩
  rcases after 0 (by decide +kernel) with dirty | same
  · revert dirty
    decide +kernel
  · have byte := congrFun same 0
    revert byte
    decide +kernel

end CacheRun

end WalnutOs.Wnfs
