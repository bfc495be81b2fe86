import WalnutOs.Wnfs.FileEffects

/-! Two sectors taken from the cache at once, an inode's and one of any number:
what the buffer of the second has. -/

namespace WalnutOs.Wnfs

open WalnutOs.Klib WalnutOs.Lib

variable {world later : World} {sector inode : Nat} {bufNum inodeBuf : BufNum} {data : Sector}
variable {cached sectors : Nat → Sector}

/-- No reference is held, and the buffers have what the disk has. -/
def World.AtRest (world : World) : Prop := Stores world [] world.drive.sectors

/-- A cache as it is constructed is at rest, over any disk. -/
theorem World.atRest_constructed (memory : BufNum → Sector) (sectors : Nat → Sector) :
    World.AtRest ⟨.constructed memory, ⟨sectors, fun _ => .done, 0⟩⟩ :=
  Stores.start memory fun _ => rfl

theorem World.readBufSector_found (found : world.cache.bufWithSector sector = some bufNum) :
    world.readBufSector sector = (some bufNum, { world with cache := world.cache.attach sector bufNum }) := by
  rw [readBufSector, found]

/-- A sector that is in no buffer is read into the first free one. -/
theorem World.readBufSector_missing (working : world.drive.Reliable)
    (missing : world.cache.bufWithSector sector = none) (free : world.cache.freeBuffer = some bufNum) :
    world.readBufSector sector = (some bufNum, ⟨(world.cache.poke bufNum
      (world.drive.sectors (diskSector sector))).attach sector bufNum, world.drive.tick⟩) := by
  simp only [readBufSector, missing, free, Drive.read, working.outcome, diskSector]

theorem withBufSector_eq {Value : Type} {failed : Value} {body : BufNum → WnfsM Value}
    (answer : world.readBufSector sector = (some bufNum, later)) :
    WnfsM.withBufSector sector failed body world =
      (body bufNum later).map fun (value, world) => (value, world.releaseBuffer bufNum) := by
  simp only [WnfsM.withBufSector, answer]

/-- The sector of an inode is taken and has `data`, the disk has `sectors`, and every other buffer
that records a sector has what `cached` has there. -/
structure Opened (inodeBuf : BufNum) (inode : Nat) (data : Sector) (cached sectors : Nat → Sector)
    (world : World) : Prop where
  small : inode < 2 ^ 23
  working : world.drive.Reliable
  onDisk : world.drive.sectors = sectors
  tag : world.cache.bufSectors inodeBuf = inode
  buffer : world.cache.buffer inodeBuf = data
  busy : world.cache.isFree inodeBuf = false
  room : ∃ bufNum, world.cache.isFree bufNum = true
  others : ∀ bufNum, bufNum ≠ inodeBuf → world.cache.bufSectors bufNum ≠ noSector →
    world.cache.bufSectors bufNum < 2 ^ 23 ∧ world.cache.bufSectors bufNum ≠ inode ∧
      world.cache.buffer bufNum = cached (world.cache.bufSectors bufNum)

theorem World.AtRest.opens (rest : world.AtRest) (small : inode < 2 ^ 23) :
    ∃ inodeBuf later, world.readBufSector inode = (some inodeBuf, later) ∧
      Opened inodeBuf inode (world.drive.sectors inode) world.drive.sectors world.drive.sectors later := by
  obtain ⟨inodeBuf, later, answer⟩ := Stores.room rest (by simp) inode
  have stores := Stores.taken rest small (by simp) answer
  have live : (⟨inode, inodeBuf⟩ : BufCacheRef) ∈ [⟨inode, inodeBuf⟩] := List.mem_singleton_self _
  obtain ⟨other, different⟩ := exists_ne inodeBuf
  have tag := (stores.recorded _ live).2
  have sectors : later.drive.sectors = world.drive.sectors := by
    cases found : world.cache.bufWithSector inode with
    | some bufNum =>
      cases answer.symm.trans (readBufSector_found found)
      rfl
    | none =>
      cases free : world.cache.freeBuffer with
      | some bufNum =>
        cases answer.symm.trans (readBufSector_missing rest.working found free)
        rfl
      | none => simp [readBufSector, found, free] at answer
  refine ⟨inodeBuf, later, answer, small, stores.working, sectors, tag, stores.buffer_held live,
    stores.busy live, ⟨other, (stores.mask other).mpr (by simpa using different.symm)⟩, ?_⟩
  intro bufNum another recorded
  refine ⟨stores.small bufNum recorded, fun same => another ?_, stores.buffered bufNum recorded⟩
  exact stores.unique bufNum inodeBuf recorded (same.trans tag.symm)

/-- What the world has when a second sector is taken, besides its masks. -/
structure Takes (cached : Nat → Sector) (world later : World) (inodeBuf bufNum : BufNum)
    (inode sector : Nat) : Prop where
  working : later.drive.Reliable
  onDisk : later.drive.sectors = world.drive.sectors
  tag : later.cache.bufSectors inodeBuf = inode
  buffer : later.cache.buffer inodeBuf = world.cache.buffer inodeBuf
  dirty : later.cache.isDirty = world.cache.isDirty
  taken : later.cache.bufSectors bufNum = sector
  same : sector = inode → bufNum = inodeBuf
  apart : sector ≠ inode → bufNum ≠ inodeBuf
  filled : sector ≠ inode → sector ≠ noSector →
    cached (diskSector sector) = world.drive.sectors (diskSector sector) →
    later.cache.buffer bufNum = world.drive.sectors (diskSector sector)

/-- Another sector is taken, of any number. -/
theorem Opened.takes (opened : Opened inodeBuf inode data cached sectors world) (sector : Nat) :
    ∃ bufNum later, world.readBufSector sector = (some bufNum, later) ∧
      Takes cached world later inodeBuf bufNum inode sector := by
  cases found : world.cache.bufWithSector sector with
  | some bufNum =>
    have tag := BufCache.bufSectors_of_found found
    refine ⟨bufNum, _, World.readBufSector_found found, opened.working, rfl, ?_, rfl, rfl, by simp, ?_,
      ?_, ?_⟩
    · by_cases here : bufNum = inodeBuf
      · rw [BufCache.bufSectors_attach, ← tag, Function.update_eq_self, opened.tag]
      · rw [BufCache.bufSectors_attach, Function.update_of_ne (Ne.symm here), opened.tag]
    · rintro rfl
      by_contra another
      have recorded : world.cache.bufSectors bufNum ≠ noSector := by
        rw [tag]
        exact ne_noSector opened.small
      exact (opened.others bufNum another recorded).2.1 tag
    · rintro different rfl
      exact different (tag.symm.trans opened.tag)
    · intro different recorded agrees
      have another : bufNum ≠ inodeBuf := by
        rintro rfl
        exact different (tag.symm.trans opened.tag)
      obtain ⟨small, -, buffer⟩ := opened.others bufNum another (by rwa [tag])
      rw [tag] at small buffer
      rw [← agrees, diskSector_of_lt small]
      exact buffer
  | none =>
    obtain ⟨bufNum, free⟩ : ∃ bufNum, world.cache.freeBuffer = some bufNum := by
      obtain ⟨other, unused⟩ := opened.room
      refine Option.ne_none_iff_exists'.mp fun full => ?_
      rw [BufCache.isFree_of_missing full] at unused
      cases unused
    have another : bufNum ≠ inodeBuf := by
      rintro rfl
      have unused := BufCache.isFree_of_found free
      rw [opened.busy] at unused
      cases unused
    have different : sector ≠ inode := by
      rintro rfl
      exact BufCache.bufSectors_of_missing found inodeBuf opened.tag
    refine ⟨bufNum, _, World.readBufSector_missing opened.working found free, opened.working, rfl, ?_, ?_,
      rfl, by simp, fun same => absurd same different, fun _ => another, fun _ _ _ => by simp⟩
    · simp [Ne.symm another, opened.tag]
    · simp [Ne.symm another]

/-- The other buffers are empty: they record no sector, and their bytes were never set. -/
structure Empty (memory : Sector) (inodeBuf : BufNum) (world : World) : Prop where
  recorded : world.cache.bufSectors inodeBuf ≠ noSector
  unset : ∀ other, other ≠ inodeBuf →
    world.cache.bufSectors other = noSector ∧ world.cache.buffer other = memory

/-- In a cache that is just constructed only the sector that is taken is recorded. -/
theorem World.empty_opens {memory : Sector} {drive : Drive} (working : drive.Reliable)
    (small : inode < 2 ^ 23)
    (opens : World.readBufSector inode ⟨.constructed fun _ => memory, drive⟩ = (some inodeBuf, world)) :
    Empty memory inodeBuf world := by
  have fresh := ne_noSector small
  have missing : (BufCache.constructed fun _ => memory).bufWithSector inode = none := by
    refine Option.eq_none_iff_forall_ne_some.mpr fun found hit => fresh ?_
    exact (BufCache.bufSectors_of_found hit).symm
  cases free : (BufCache.constructed fun _ => memory).freeBuffer with
  | none => simp [readBufSector, missing, free] at opens
  | some first =>
    obtain ⟨same, made⟩ := Prod.mk.inj (opens.symm.trans (readBufSector_missing working missing free))
    cases Option.some.inj same
    refine ⟨?_, fun other different => ⟨?_, ?_⟩⟩
    · simpa [made] using fresh
    · simp [made, different, BufCache.constructed]
    · simp [made, different, BufCache.constructed]

/-- The number of an empty buffer is found in one. -/
theorem Empty.takes {memory : Sector} (empty : Empty memory inodeBuf world)
    (takes : world.readBufSector noSector = (some bufNum, later)) : later.cache.buffer bufNum = memory := by
  cases hit : world.cache.bufWithSector noSector with
  | none =>
    obtain ⟨other, different⟩ := exists_ne inodeBuf
    exact absurd (empty.unset other different).1 (BufCache.bufSectors_of_missing hit other)
  | some found =>
    obtain ⟨same, taken⟩ := Prod.mk.inj (takes.symm.trans (World.readBufSector_found hit))
    cases Option.some.inj same
    have another : bufNum ≠ inodeBuf := by
      rintro rfl
      exact empty.recorded (BufCache.bufSectors_of_found hit)
    rw [taken]
    exact (empty.unset bufNum another).2

end WalnutOs.Wnfs
