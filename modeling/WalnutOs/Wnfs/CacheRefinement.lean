import WalnutOs.Wnfs.CacheStores

/-! The sector cache against plain sector storage, along runs that never hold
two references to one sector. -/

namespace WalnutOs.Wnfs

open WalnutOs.Klib WalnutOs.Lib

/-- A run of the cache beside the plain storage that it stands for. -/
structure StorageRun where
  run : CacheRun
  contents : Nat → Sector

namespace StorageRun

def start (memory : BufNum → Sector) (drive : Drive) : StorageRun :=
  ⟨.start memory drive, drive.sectors⟩

/-- The plain storage keeps the bytes that are written, and nothing else changes it. -/
def written (contents : Nat → Sector) (refs : List BufCacheRef) : CacheCall → Nat → Sector
  | .write ref idx data =>
    match refs[ref]? with
    | none => contents
    | some held =>
      Function.update contents held.sector (Function.update (contents held.sector) idx data)
  | _ => contents

def step (state : StorageRun) (call : CacheCall) : StorageRun :=
  ⟨state.run.step call, written state.contents state.run.refs call⟩

/-- Sectors are asked for below `2 ^ 23` and only while no reference to them is live. -/
def Disciplined (state : StorageRun) : CacheCall → Prop
  | .readBufSector sector => sector < 2 ^ 23 ∧ ∀ held ∈ state.run.refs, held.sector ≠ sector
  | _ => True

instance (state : StorageRun) (call : CacheCall) : Decidable (state.Disciplined call) := by
  cases call <;> unfold Disciplined <;> infer_instance

/-- What the holders of references and the disk see is the plain storage, every
sector is in at most one buffer, the free mask is right, and as long as fewer than
eight references are live, a sector that nobody holds is handed out. -/
structure RefinesStorage (state : StorageRun) : Prop where
  reads : ∀ ref held idx, state.run.refs[ref]? = some held →
    state.run.readByte ref idx = some (.ok (state.contents held.sector idx))
  saved : ∀ sector < 2 ^ 23, (∀ held ∈ state.run.refs, held.sector ≠ sector) →
    state.run.world.drive.sectors sector = state.contents sector
  unique : ∀ first second, state.run.world.cache.bufSectors first ≠ noSector →
    state.run.world.cache.bufSectors first = state.run.world.cache.bufSectors second →
    first = second
  mask : state.run.MaskLaw
  serves : ∀ sector, state.Disciplined (.readBufSector sector) → state.run.refs.length < 8 →
    ∃ bufNum after, state.run.world.readBufSector sector = (some bufNum, after) ∧
      after.cache.buffer bufNum = state.contents sector

/-- A read that gives a buffer is of a sector below `2 ^ 23`, and does not load it over
what a live reference has. -/
def Addressable (state : StorageRun) : CacheCall → Prop
  | .readBufSector sector =>
    (state.run.world.cache.bufWithSector sector ≠ none ∨ state.run.world.cache.freeBuffer ≠ none →
      sector < 2 ^ 23) ∧
    ∀ free, state.run.world.cache.bufWithSector sector = none →
      state.run.world.cache.freeBuffer = some free → ∀ held ∈ state.run.refs, held.bufNum ≠ free
  | _ => True

instance (state : StorageRun) (call : CacheCall) : Decidable (state.Addressable call) := by
  cases call <;> unfold Addressable <;> infer_instance

def Tracked (state : StorageRun) : Prop :=
  Tracks state.run.world state.run.refs state.contents

def Stored (state : StorageRun) : Prop :=
  Stores state.run.world state.run.refs state.contents

theorem Tracked.step {state : StorageRun} (tracked : Tracked state) (call : CacheCall)
    (addressable : state.Addressable call) : Tracked (state.step call) := by
  cases call with
  | readBufSector sector =>
    rcases answer : state.run.world.readBufSector sector with ⟨_ | bufNum, after⟩
    · simp only [Tracked, StorageRun.step, CacheRun.step_refused answer, written]
      rw [Tracks.refused tracked answer]
      exact tracked
    · simp only [Tracked, StorageRun.step, CacheRun.step_taken answer, written]
      obtain ⟨small, unheld⟩ := addressable
      refine Tracks.taken tracked (small ?_) unheld answer
      rcases World.readBufSector_some_cases answer with ⟨hit, -⟩ | ⟨_, -, free, -, -⟩
      · exact .inl (by simp [hit])
      · exact .inr (by simp [free])
  | read ref idx => exact tracked
  | write ref idx data =>
    simp only [Tracked, StorageRun.step, CacheRun.step, written]
    cases found : state.run.refs[ref]? with
    | none => exact tracked
    | some held =>
      have live : held ∈ state.run.refs := List.mem_of_getElem? found
      have marked := Tracks.markDirty tracked live
      simpa [Tracks.buffer_held tracked live] using marked.poke live (by simp)
        (Function.update (state.run.world.cache.buffer held.bufNum) idx data)
  | flush ref =>
    simp only [Tracked, StorageRun.step, CacheRun.step, written]
    cases found : state.run.refs[ref]? with
    | none => exact tracked
    | some held => exact Tracks.flush tracked (List.mem_of_getElem? found)
  | release ref =>
    simp only [Tracked, StorageRun.step, CacheRun.step, written]
    cases found : state.run.refs[ref]? with
    | none => exact tracked
    | some held => exact Tracks.release tracked found

section Stored

variable {state : StorageRun} (stored : Stored state) (call : CacheCall)
  (disciplined : state.Disciplined call)

include stored disciplined

theorem Stored.addressable : state.Addressable call := by
  cases call with
  | readBufSector sector =>
    exact ⟨fun _ => disciplined.1, fun free _ found =>
      (stored.mask free).mp (BufCache.isFree_of_found found)⟩
  | _ => trivial

theorem Stored.apart_step : (state.run.step call).refs.Pairwise
    fun first second => first.sector ≠ second.sector := by
  cases call with
  | readBufSector sector =>
    rcases answer : state.run.world.readBufSector sector with ⟨_ | bufNum, after⟩
    · rw [CacheRun.step_refused answer]
      exact stored.apart
    · rw [CacheRun.step_taken answer]
      exact List.pairwise_cons.mpr ⟨fun held live => (disciplined.2 held live).symm, stored.apart⟩
  | read ref idx => exact stored.apart
  | write ref idx data =>
    simp only [CacheRun.step, BufCache.setVal_of_lt]
    split <;> exact stored.apart
  | flush ref =>
    simp only [CacheRun.step]
    split <;> exact stored.apart
  | release ref =>
    simp only [CacheRun.step]
    split
    · exact stored.apart
    · exact stored.apart.sublist (List.eraseIdx_sublist ..)

end Stored

theorem Stored.step {state : StorageRun} (stored : Stored state) (call : CacheCall)
    (disciplined : state.Disciplined call) : Stored (state.step call) := by
  have sole : state.run.SoleRelease call := by
    cases call with
    | release ref => exact fun held found => Stores.alone stored found
    | _ => trivial
  have tracked : Tracked state := Stores.tracks stored
  exact .of_tracks (tracked.step call (stored.addressable call disciplined))
    (stored.apart_step call disciplined) ((stored.maskLaw.keeps_iff call).mpr sole).1

theorem Stored.refines {state : StorageRun} (stored : Stored state) : RefinesStorage state where
  reads := by
    intro ref held idx found
    simp [CacheRun.readByte, found, Stores.buffer_held stored (List.mem_of_getElem? found)]
  saved := by
    intro sector small unheld
    by_cases recorded : ∃ bufNum, state.run.world.cache.bufSectors bufNum = sector
    · obtain ⟨bufNum, rfl⟩ := recorded
      have unused := (stored.mask bufNum).mpr fun held live same =>
        unheld held live (by rw [← same, (stored.recorded held live).2])
      exact stored.saved bufNum (ne_noSector small) (stored.unheldClean bufNum unused)
    · exact stored.uncached sector small (by simpa using recorded)
  unique := stored.unique
  mask := stored.mask
  serves := by
    rintro sector ⟨small, unheld⟩ few
    obtain ⟨bufNum, after, answer⟩ := Stores.room stored few sector
    have taken := Stores.taken stored small unheld answer
    exact ⟨bufNum, after, answer, taken.buffer_held List.mem_cons_self⟩

/-- Every state that a disciplined run reaches on a disk without errors refines
plain sector storage. -/
theorem refines_storage (memory : BufNum → Sector) (drive : Drive) (working : drive.Reliable)
    (calls : List CacheCall)
    (disciplined : EveryStep step Disciplined (start memory drive) calls) :
    RefinesStorage (calls.foldl step (start memory drive)) := by
  have initial : Stored (start memory drive) := Stores.start memory working
  exact (disciplined.final (fun _ call stored => stored.step call) initial).refines

/-- A sector is written, given back and asked for again while two others are held. -/
theorem refines_storage_again : RefinesStorage
    ([.readBufSector 100, .write 0 3 7, .release 0, .readBufSector 101, .readBufSector 102,
      .flush 0, .readBufSector 100].foldl step
        (start (fun _ _ => 0) ⟨fun _ _ => 0, fun _ => .done, 0⟩)) :=
  refines_storage _ _ (fun _ => rfl) _ (by decide +kernel)

end StorageRun

end WalnutOs.Wnfs
