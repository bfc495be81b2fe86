import WalnutOs.Wnfs.CacheRefinement

/-! Which sectors of the disk the cache reads and writes for the sectors it is asked for. -/

namespace WalnutOs.Wnfs

open WalnutOs.Klib WalnutOs.Lib

/-- Numbers of sectors from `2 ^ 23` on wrap when they are multiplied by 512. -/
theorem diskSector_eq_iff {sector : Nat} : diskSector sector = sector ↔ sector < 2 ^ 23 := by
  unfold diskSector byteOffset sectorSize
  omega

namespace StorageRun

/-- Whatever the holder of a reference stores in its buffer, a flush writes it to exactly
the sector that the holder asked for. -/
def FlushesTo (world : World) (held : BufCacheRef) : Prop :=
  ∀ data, (World.flush held.bufNum ⟨world.cache.poke held.bufNum data, world.drive⟩).2.drive.sectors =
    Function.update world.drive.sectors held.sector data

/-- Every live reference has the contents of the sector it was made for, and writes there. -/
structure Addresses (state : StorageRun) : Prop where
  holds : ∀ held ∈ state.run.refs, state.run.world.cache.buffer held.bufNum = state.contents held.sector
  flushes : ∀ held ∈ state.run.refs, FlushesTo state.run.world held

/-- A read of a sector that is in no buffer gives what the disk has there, and all live
references have their sectors after the call. -/
structure Addressed (state : StorageRun) (call : CacheCall) : Prop where
  loads : ∀ sector bufNum after, call = .readBufSector sector →
    state.run.world.readBufSector sector = (some bufNum, after) →
    state.run.world.cache.bufWithSector sector = none →
    after.cache.buffer bufNum = state.run.world.drive.sectors sector
  after : Addresses (state.step call)

theorem flushesTo_iff {world : World} {held : BufCacheRef} (working : world.drive.Reliable) :
    FlushesTo world held ↔ diskSector (world.cache.bufSectors held.bufNum) = held.sector := by
  have written (data : Sector) :
      (World.flush held.bufNum ⟨world.cache.poke held.bufNum data, world.drive⟩).2.drive.sectors =
        Function.update world.drive.sectors (diskSector (world.cache.bufSectors held.bufNum)) data := by
    rw [World.sectors_flush ⟨world.cache.poke held.bufNum data, world.drive⟩ working]
    simp
  constructor
  · intro flushes
    by_contra other
    -- The complement of what is there is told apart from it.
    have there := congrFun (flushes fun i => ~~~world.drive.sectors held.sector i) held.sector
    rw [written, Function.update_self, Function.update_of_ne (Ne.symm other)] at there
    have byte := congrArg (·.getLsbD 0) (congrFun there 0)
    simp at byte
  · intro address data
    rw [written, address]

variable {state : StorageRun}

theorem Tracked.addresses (tracked : Tracked state) : Addresses state where
  holds := fun _ live => Tracks.buffer_held tracked live
  flushes := fun held live => by
    obtain ⟨small, there⟩ := tracked.recorded held live
    rw [flushesTo_iff tracked.working, there]
    exact diskSector_of_lt small

/-- The sector of the disk that is read is the one asked for if a later flush goes there. -/
theorem Addressed.addressable (tracked : Tracked state) {sector : Nat}
    (addressed : state.Addressed (.readBufSector sector)) : state.Addressable (.readBufSector sector) := by
  rcases answer : state.run.world.readBufSector sector with ⟨_ | bufNum, after⟩
  · rcases state.run.world.readBufSector_cases sector with ⟨_, -, run⟩ | ⟨missing, full, -⟩ |
        ⟨_, _, -, -, -, run⟩ | ⟨_, _, _, -, -, failed, -⟩
    · cases answer.symm.trans run
    · simp [Addressable, missing, full]
    · cases answer.symm.trans run
    · cases tracked.working.outcome.symm.trans failed
  · have taken := addressed.after.flushes
    simp only [StorageRun.step, CacheRun.step_taken answer] at taken
    have works : after.drive.Reliable := by
      intro n
      rw [(World.readBufSector_disk answer).2.1]
      exact tracked.working n
    have tags := (World.readBufSector_some answer).1
    have address := (flushesTo_iff works).mp (taken ⟨sector, bufNum⟩ List.mem_cons_self)
    rw [tags, Function.update_self] at address
    refine ⟨fun _ => diskSector_eq_iff.mp address, fun free missing found held live same => ?_⟩
    subst same
    have address' := (flushesTo_iff works).mp (taken held (List.mem_cons_of_mem _ live))
    rcases World.readBufSector_some_cases answer with ⟨hit, -⟩ | ⟨_, -, found', -, -⟩
    · cases missing.symm.trans hit
    · cases found.symm.trans found'
      rw [tags, Function.update_self, address] at address'
      exact BufCache.bufSectors_of_missing missing held.bufNum
        ((tracked.recorded held live).2.trans address'.symm)

theorem Tracked.addressed_iff (tracked : Tracked state) (call : CacheCall) :
    state.Addressed call ↔ state.Addressable call := by
  constructor
  · intro addressed
    cases call with
    | readBufSector sector => exact addressed.addressable tracked
    | _ => trivial
  · intro addressable
    refine ⟨?_, (tracked.step call addressable).addresses⟩
    rintro sector bufNum after rfl answer missing
    rcases World.readBufSector_some_cases answer with ⟨hit, -⟩ | ⟨data, -, free, read, rfl⟩
    · cases missing.symm.trans hit
    · have small := addressable.1 (.inr (by simp [free]))
      rcases read with ⟨-, rfl⟩ | failed
      · simp [diskSector_of_lt small]
      · cases tracked.working.outcome.symm.trans failed

/-- Along every run of the cache on a disk without errors, the sectors that are asked for
are the ones that are read and written exactly when no read that gives a buffer is of a
sector from `2 ^ 23` on, and none takes the buffer of a live reference. -/
theorem addressed_iff_addressable (memory : BufNum → Sector) {drive : Drive} (working : drive.Reliable)
    (calls : List CacheCall) :
    EveryStep step Addressed (start memory drive) calls ↔
      EveryStep step Addressable (start memory drive) calls := by
  have initial : Tracked (start memory drive) := Tracks.start memory working
  exact EveryStep.iff_of_invariant Tracked (fun _ call tracked => tracked.step call)
    (fun _ call tracked => tracked.addressed_iff call) initial calls

theorem addressed_again : EveryStep step Addressed (start (fun _ _ => 0) .blank)
    [.readBufSector 100, .readBufSector 100, .write 0 3 7, .flush 1, .readBufSector (2 ^ 23 - 1)] :=
  (addressed_iff_addressable _ (fun _ => rfl) _).mpr (by decide +kernel)

/-- The first sector is read for the sector `2 ^ 23`. -/
theorem far_sector_misread : ¬ ∀ memory drive, drive.Reliable → ∀ calls,
    EveryStep step Addressed (start memory drive) calls := by
  intro claim
  have every := claim (fun _ _ => 0) ⟨fun sector _ => if sector = 0 then 1 else 0, fun _ => .done, 0⟩
    (fun _ => rfl) [.readBufSector (2 ^ 23)]
  have byte := congrFun (every.1.loads _ _ _ rfl rfl (by decide +kernel)) 0
  revert byte
  decide +kernel

end StorageRun

end WalnutOs.Wnfs
