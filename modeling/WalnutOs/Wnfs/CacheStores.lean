import WalnutOs.Wnfs.CacheMask
import Mathlib.Data.Fintype.Card

/-! The sector cache on a disk without errors, as plain storage: what the cache
and the disk hold together for the contents that the holders of references see. -/

namespace WalnutOs.Wnfs

open WalnutOs.Klib WalnutOs.Lib

theorem ne_noSector {sector : Nat} (small : sector < 2 ^ 23) : sector ≠ noSector := by
  unfold noSector
  omega

/-- The buffers and the disk have `contents` between them: a clean buffer has what is on
the disk, and only a buffer that a live reference has is not clean. -/
structure Tracks (world : World) (refs : List BufCacheRef) (contents : Nat → Sector) : Prop where
  working : world.drive.Reliable
  recorded : ∀ held ∈ refs, held.sector < 2 ^ 23 ∧ world.cache.bufSectors held.bufNum = held.sector
  small : ∀ bufNum, world.cache.bufSectors bufNum ≠ noSector →
    world.cache.bufSectors bufNum < 2 ^ 23
  unique : ∀ first second, world.cache.bufSectors first ≠ noSector →
    world.cache.bufSectors first = world.cache.bufSectors second → first = second
  unheldClean : ∀ bufNum, (∀ held ∈ refs, held.bufNum ≠ bufNum) → world.cache.isDirty bufNum = false
  buffered : ∀ bufNum, world.cache.bufSectors bufNum ≠ noSector →
    world.cache.buffer bufNum = contents (world.cache.bufSectors bufNum)
  saved : ∀ bufNum, world.cache.bufSectors bufNum ≠ noSector → world.cache.isDirty bufNum = false →
    world.drive.sectors (world.cache.bufSectors bufNum) = contents (world.cache.bufSectors bufNum)
  uncached : ∀ sector < 2 ^ 23, (∀ bufNum, world.cache.bufSectors bufNum ≠ sector) →
    world.drive.sectors sector = contents sector

namespace Tracks

variable {world after : World} {refs : List BufCacheRef} {contents : Nat → Sector}
variable {held : BufCacheRef} {bufNum : BufNum} {sector ref : Nat}

theorem start (memory : BufNum → Sector) {drive : Drive} (working : drive.Reliable) :
    Tracks ⟨.constructed memory, drive⟩ [] drive.sectors where
  working := working
  recorded := by simp
  small := fun _ recorded => absurd rfl recorded
  unique := fun _ _ recorded => absurd rfl recorded
  unheldClean := fun bufNum _ => by simp [BufCache.isDirty, BufCache.constructed]
  buffered := fun _ recorded => absurd rfl recorded
  saved := fun _ recorded => absurd rfl recorded
  uncached := fun _ _ _ => rfl

section Held

variable (tracks : Tracks world refs contents) (live : held ∈ refs)

include tracks live

theorem recorded_ne : world.cache.bufSectors held.bufNum ≠ noSector := by
  rw [(tracks.recorded held live).2]
  exact ne_noSector (tracks.recorded held live).1

/-- A held buffer has the contents of the sector that its holder asked for. -/
theorem buffer_held : world.cache.buffer held.bufNum = contents held.sector := by
  rw [tracks.buffered _ (tracks.recorded_ne live), (tracks.recorded held live).2]

/-- No other buffer records the sector of a live reference. -/
theorem elsewhere (recorded : world.cache.bufSectors bufNum ≠ noSector) (other : bufNum ≠ held.bufNum) :
    world.cache.bufSectors bufNum ≠ held.sector := fun same =>
  other (tracks.unique bufNum held.bufNum recorded (same.trans (tracks.recorded held live).2.symm))

theorem markDirty : Tracks { world with cache := world.cache.markDirty held.bufNum } refs contents :=
  { tracks with
    unheldClean := by
      intro bufNum unheld
      simpa [(unheld held live).symm] using tracks.unheldClean bufNum unheld
    saved := fun bufNum recorded clean =>
      tracks.saved bufNum recorded (by simp at clean; exact clean.1) }

/-- The holder changes the bytes of a buffer that is marked dirty. -/
theorem poke (dirty : world.cache.isDirty held.bufNum = true) (data : Sector) :
    Tracks { world with cache := world.cache.poke held.bufNum data } refs
      (Function.update contents held.sector data) := by
  have there := (tracks.recorded held live).2
  exact { tracks with
    buffered := by
      intro bufNum recorded
      by_cases same : bufNum = held.bufNum
      · subst same
        simp [there]
      · simpa [same, tracks.elsewhere live recorded same] using tracks.buffered bufNum recorded
    saved := by
      intro bufNum recorded clean
      have other : bufNum ≠ held.bufNum := by
        rintro rfl
        exact absurd clean (by simp [dirty])
      simpa [tracks.elsewhere live recorded other] using tracks.saved bufNum recorded clean
    uncached := by
      intro sector small unrecorded
      have other : sector ≠ held.sector := fun same => unrecorded held.bufNum (there.trans same.symm)
      simpa [other] using tracks.uncached sector small unrecorded }

theorem flush : Tracks (world.flush held.bufNum).2 refs contents := by
  obtain ⟨small, there⟩ := tracks.recorded held live
  have address := diskSector_of_lt small
  simp only [diskSector] at address
  simp only [World.flush, Drive.write, tracks.working.outcome]
  exact { tracks with
    working := tracks.working
    unheldClean := by
      intro bufNum unheld
      simp [tracks.unheldClean bufNum unheld]
    saved := by
      intro bufNum recorded clean
      by_cases same : bufNum = held.bufNum
      · subst same
        simp [there, address, tracks.buffer_held live]
      · simp [same] at clean
        simpa [there, address, tracks.elsewhere live recorded same] using tracks.saved bufNum recorded clean
    uncached := by
      intro sector below unrecorded
      have other : sector ≠ held.sector := fun same => unrecorded held.bufNum (there.trans same.symm)
      simpa [there, address, other] using tracks.uncached sector below unrecorded }

end Held

/-- A reference to a clean buffer is given up; the free mask does not matter here. -/
theorem toggle (tracks : Tracks world refs contents) (found : refs[ref]? = some held)
    (clean : world.cache.isDirty held.bufNum = false) (mask : BitVec 8) :
    Tracks { world with cache := { world.cache with bufferFreeMask := mask } } (refs.eraseIdx ref)
      contents :=
  { tracks with
    recorded := fun other member => tracks.recorded other ((Live.mem_iff found other).mpr (.inr member))
    unheldClean := by
      intro bufNum unheld
      by_cases same : bufNum = held.bufNum
      · subst same
        exact clean
      · refine tracks.unheldClean bufNum fun other live => ?_
        rcases (Live.mem_iff found other).mp live with rfl | member
        · exact Ne.symm same
        · exact unheld other member }

/-- The destructor writes a dirty buffer back before the buffer can be reused. -/
theorem release (tracks : Tracks world refs contents) (found : refs[ref]? = some held) :
    Tracks (world.releaseBuffer held.bufNum) (refs.eraseIdx ref) contents := by
  have live : held ∈ refs := List.mem_of_getElem? found
  unfold World.releaseBuffer
  simp only
  split
  · refine (tracks.flush live).toggle found ?_ _
    simp [World.flush, Drive.write, tracks.working.outcome]
  · rename_i clean
    exact tracks.toggle found (Bool.eq_false_iff.mpr clean) _

/-- A reference is made to a buffer that records its sector already. -/
theorem hold (tracks : Tracks world refs contents) (small : sector < 2 ^ 23)
    (there : world.cache.bufSectors bufNum = sector) :
    Tracks { world with cache := world.cache.attach sector bufNum } (⟨sector, bufNum⟩ :: refs)
      contents := by
  have same : Function.update world.cache.bufSectors bufNum sector = world.cache.bufSectors := by
    rw [← there, Function.update_eq_self]
  exact {
    working := tracks.working
    recorded := List.forall_mem_cons.mpr
      ⟨⟨small, by simp⟩, by simpa only [BufCache.bufSectors_attach, same] using tracks.recorded⟩
    small := by simpa [same] using tracks.small
    unique := by simpa [same] using tracks.unique
    unheldClean := fun other unheld => tracks.unheldClean other (List.forall_mem_cons.mp unheld).2
    buffered := by simpa [same] using tracks.buffered
    saved := by simpa [same] using tracks.saved
    uncached := by simpa [same] using tracks.uncached }

/-- A buffer that no live reference has is filled with a sector that no buffer records. -/
theorem fill (tracks : Tracks world refs contents) (small : sector < 2 ^ 23)
    (missing : ∀ bufNum, world.cache.bufSectors bufNum ≠ sector)
    (unheld : ∀ held ∈ refs, held.bufNum ≠ bufNum) :
    Tracks ⟨{ world.cache.poke bufNum (world.drive.sectors sector) with
      bufSectors := Function.update world.cache.bufSectors bufNum sector }, world.drive.tick⟩
      refs contents := by
  have clean := tracks.unheldClean bufNum unheld
  have onDisk := tracks.uncached sector small missing
  refine { tracks with
    working := tracks.working
    recorded := ?_
    small := ?_
    unique := ?_
    buffered := ?_
    saved := ?_
    uncached := ?_ }
  · intro held live
    simpa [unheld held live] using tracks.recorded held live
  · intro other recorded
    by_cases same : other = bufNum
    · simpa [same] using small
    · simpa [same] using tracks.small other (by simpa [same] using recorded)
  · intro first second recorded tags
    by_cases here : first = bufNum <;> by_cases there : second = bufNum
    · exact here.trans there.symm
    · simp [here, there] at tags
      exact absurd tags.symm (missing second)
    · simp [here, there] at tags
      exact absurd tags (missing first)
    · exact tracks.unique first second (by simpa [here] using recorded)
        (by simpa [here, there] using tags)
  · intro other recorded
    by_cases same : other = bufNum
    · subst same
      simpa using onDisk
    · simpa [same] using tracks.buffered other (by simpa [same] using recorded)
  · intro other recorded unset
    by_cases same : other = bufNum
    · subst same
      simpa [Drive.tick] using onDisk
    · simpa [Drive.tick, same] using tracks.saved other (by simpa [same] using recorded) unset
  · intro other below unrecorded
    by_cases old : world.cache.bufSectors bufNum = other
    · have recorded := old.trans_ne (ne_noSector below)
      simpa [Drive.tick, old] using tracks.saved bufNum recorded clean
    · refine tracks.uncached other below fun place tag => ?_
      by_cases same : place = bufNum
      · exact old (same ▸ tag)
      · exact unrecorded place (by simpa [same] using tag)

/-- A sector is found in a buffer or read into one that no live reference has. -/
theorem taken (tracks : Tracks world refs contents) (small : sector < 2 ^ 23)
    (unheld : ∀ free, world.cache.bufWithSector sector = none → world.cache.freeBuffer = some free →
      ∀ held ∈ refs, held.bufNum ≠ free)
    (answer : world.readBufSector sector = (some bufNum, after)) :
    Tracks after (⟨sector, bufNum⟩ :: refs) contents := by
  rcases World.readBufSector_some_cases answer with ⟨hit, rfl⟩ | ⟨data, missing, free, read, rfl⟩
  · exact tracks.hold small (BufCache.bufSectors_of_found hit)
  · rcases read with ⟨-, rfl⟩ | failed
    · rw [diskSector_of_lt small]
      have filled := tracks.fill small (BufCache.bufSectors_of_missing missing) (unheld bufNum missing free)
      have there : Function.update world.cache.bufSectors bufNum sector bufNum = sector :=
        Function.update_self ..
      simpa [BufCache.attach, BufCache.grabBuffer] using filled.hold small there
    · cases tracks.working.outcome.symm.trans failed

theorem refused (tracks : Tracks world refs contents)
    (answer : world.readBufSector sector = (none, after)) : after = world := by
  rcases world.readBufSector_cases sector with ⟨_, -, run⟩ | ⟨-, -, run⟩ | ⟨_, _, -, -, -, run⟩ |
      ⟨_, _, _, -, -, failed, -⟩
  · cases answer.symm.trans run
  · exact (Prod.mk.inj (answer.symm.trans run)).2
  · cases answer.symm.trans run
  · cases tracks.working.outcome.symm.trans failed

end Tracks

/-- The world stores `contents` while exactly `refs` are live, no two of them
to one sector. -/
structure Stores (world : World) (refs : List BufCacheRef) (contents : Nat → Sector) : Prop where
  working : world.drive.Reliable
  recorded : ∀ held ∈ refs, held.sector < 2 ^ 23 ∧ world.cache.bufSectors held.bufNum = held.sector
  apart : refs.Pairwise fun first second => first.sector ≠ second.sector
  small : ∀ bufNum, world.cache.bufSectors bufNum ≠ noSector →
    world.cache.bufSectors bufNum < 2 ^ 23
  unique : ∀ first second, world.cache.bufSectors first ≠ noSector →
    world.cache.bufSectors first = world.cache.bufSectors second → first = second
  mask : ∀ bufNum, world.cache.isFree bufNum = true ↔ ∀ held ∈ refs, held.bufNum ≠ bufNum
  unheldClean : ∀ bufNum, world.cache.isFree bufNum = true → world.cache.isDirty bufNum = false
  buffered : ∀ bufNum, world.cache.bufSectors bufNum ≠ noSector →
    world.cache.buffer bufNum = contents (world.cache.bufSectors bufNum)
  saved : ∀ bufNum, world.cache.bufSectors bufNum ≠ noSector → world.cache.isDirty bufNum = false →
    world.drive.sectors (world.cache.bufSectors bufNum) = contents (world.cache.bufSectors bufNum)
  uncached : ∀ sector < 2 ^ 23, (∀ bufNum, world.cache.bufSectors bufNum ≠ sector) →
    world.drive.sectors sector = contents sector

namespace Stores

variable {world : World} {refs : List BufCacheRef} {contents : Nat → Sector}
variable {held : BufCacheRef} {bufNum : BufNum} {sector : Nat}

theorem tracks (stores : Stores world refs contents) : Tracks world refs contents :=
  { stores with
    unheldClean := fun bufNum unheld => stores.unheldClean bufNum ((stores.mask bufNum).mpr unheld) }

theorem of_tracks (tracks : Tracks world refs contents)
    (apart : refs.Pairwise fun first second => first.sector ≠ second.sector)
    (mask : CacheRun.MaskLaw ⟨world, refs⟩) : Stores world refs contents :=
  { tracks with
    apart
    mask
    unheldClean := fun bufNum free => tracks.unheldClean bufNum ((mask bufNum).mp free) }

theorem maskLaw (stores : Stores world refs contents) : CacheRun.MaskLaw ⟨world, refs⟩ := stores.mask

theorem start (memory : BufNum → Sector) {drive : Drive} (working : drive.Reliable) :
    Stores ⟨.constructed memory, drive⟩ [] drive.sectors :=
  .of_tracks (.start memory working) .nil (CacheRun.MaskLaw.start memory drive)

section Held

variable (stores : Stores world refs contents) (live : held ∈ refs)

include stores live

theorem busy : world.cache.isFree held.bufNum = false := by
  rw [Bool.eq_false_iff, Ne, stores.mask]
  exact fun none => none held live rfl

theorem buffer_held : world.cache.buffer held.bufNum = contents held.sector :=
  stores.tracks.buffer_held live

theorem markDirty : Stores { world with cache := world.cache.markDirty held.bufNum } refs contents :=
  .of_tracks (stores.tracks.markDirty live) stores.apart stores.mask

theorem poke (dirty : world.cache.isDirty held.bufNum = true) (data : Sector) :
    Stores { world with cache := world.cache.poke held.bufNum data } refs
      (Function.update contents held.sector data) :=
  .of_tracks (stores.tracks.poke live dirty data) stores.apart stores.mask

theorem flush : (world.flush held.bufNum).1 = .ok () ∧
    Stores (world.flush held.bufNum).2 refs contents := by
  refine ⟨?_, .of_tracks (stores.tracks.flush live) stores.apart stores.mask⟩
  simp [World.flush, Drive.write, stores.working.outcome]

end Held

/-- The other live references have other sectors, and so other buffers. -/
theorem alone {ref : Nat} (stores : Stores world refs contents) (found : refs[ref]? = some held) :
    ∀ other ∈ refs.eraseIdx ref, other.bufNum ≠ held.bufNum := by
  intro other member same
  apply Live.key_ne_of_mem_eraseIdx stores.apart found member
  rw [← (stores.recorded other ((Live.mem_iff found _).mpr (.inr member))).2, same,
    (stores.recorded held (List.mem_of_getElem? found)).2]

theorem release {ref : Nat} (stores : Stores world refs contents) (found : refs[ref]? = some held) :
    Stores (world.releaseBuffer held.bufNum) (refs.eraseIdx ref) contents := by
  have sole : CacheRun.SoleRelease ⟨world, refs⟩ (.release ref) := by
    intro other same
    cases same.symm.trans found
    exact stores.alone found
  have mask := (stores.maskLaw.release_iff ref).mpr sole
  simp only [CacheRun.step, found] at mask
  exact .of_tracks (stores.tracks.release found)
    (stores.apart.sublist (List.eraseIdx_sublist refs ref)) mask

/-- The reference that was taken last is released. -/
theorem releaseLatest (stores : Stores world (held :: refs) contents) :
    Stores (world.releaseBuffer held.bufNum) refs contents := by
  have latest : (held :: refs)[0]? = some held := rfl
  exact stores.release latest

/-- A sector that nobody holds is found in a buffer or read into a free one. -/
theorem taken {after : World} (stores : Stores world refs contents) (small : sector < 2 ^ 23)
    (unheld : ∀ held ∈ refs, held.sector ≠ sector)
    (answer : world.readBufSector sector = (some bufNum, after)) :
    Stores after (⟨sector, bufNum⟩ :: refs) contents := by
  have unused (free : BufNum) (_ : world.cache.bufWithSector sector = none)
      (found : world.cache.freeBuffer = some free) : ∀ held ∈ refs, held.bufNum ≠ free :=
    (stores.mask free).mp (BufCache.isFree_of_found found)
  have mask := stores.maskLaw.readBufSector sector
  rw [CacheRun.step_taken answer] at mask
  exact .of_tracks (stores.tracks.taken small unused answer)
    (List.pairwise_cons.mpr ⟨fun held live => (unheld held live).symm, stores.apart⟩) mask

/-- With fewer than eight live references there is a buffer for another sector. -/
theorem room (stores : Stores world refs contents) (few : refs.length < 8) (sector : Nat) :
    ∃ bufNum after, world.readBufSector sector = (some bufNum, after) := by
  rcases answer : world.readBufSector sector with ⟨_ | bufNum, after⟩
  · have full := ((World.readBufSector_mask world sector).2 (by rw [answer])).2 stores.working.outcome
    have every : ∀ bufNum : BufNum, bufNum ∈ (refs.map (·.bufNum)).toFinset := by
      intro bufNum
      by_contra missing
      have free := (stores.mask bufNum).mpr (by simpa using missing)
      rw [full bufNum] at free
      cases free
    have card := (refs.map (·.bufNum)).toFinset_card_le
    rw [Finset.eq_univ_of_forall every] at card
    simp at card
    omega
  · exact ⟨bufNum, after, rfl⟩

end Stores

end WalnutOs.Wnfs
