import WalnutOs.Klib.BufferCache
import WalnutOs.Lib.Run
import WalnutOs.Lib.Search

/-! What the buffers say about the contents of the sectors, and what is lost when a
dirty buffer is read again. -/

namespace WalnutOs.Klib

open WalnutOs.Lib

namespace BufferCache

variable {cache : BufferCache} {bufNum : BufferNum} {offset : Nat}

theorem bufferWithOffset_eq_some_iff : cache.bufferWithOffset offset = some bufNum ↔
    cache.bufferLocations bufNum = offset ∧
      ∀ other, other < bufNum → cache.bufferLocations other ≠ offset := by
  unfold bufferWithOffset
  rw [Search.find?_finRange_eq_some]
  simp only [decide_eq_true_eq, decide_eq_false_iff_not]

/-- A buffer that is moved to a new location does not hide another. -/
theorem bufferWithOffset_setLocation {other : BufferNum} {recorded : Nat}
    (found : cache.bufferWithOffset recorded = some other) (different : other ≠ bufNum)
    (fresh : offset ≠ recorded) :
    (cache.setLocation bufNum offset).bufferWithOffset recorded = some other := by
  rw [bufferWithOffset_eq_some_iff] at found ⊢
  obtain ⟨location, earlier⟩ := found
  constructor
  · rw [bufferLocations_setLocation, Function.update_of_ne different, location]
  · intro before below
    rw [bufferLocations_setLocation, Function.update_apply]
    split
    · exact fresh
    · exact earlier before below

theorem bufferWithOffset_setLocation_self (missing : cache.bufferWithOffset offset = none) :
    (cache.setLocation bufNum offset).bufferWithOffset offset = some bufNum := by
  refine bufferWithOffset_eq_some_iff.mpr ⟨Function.update_self .., fun before below => ?_⟩
  rw [bufferLocations_setLocation, Function.update_of_ne (Fin.ne_of_lt below)]
  exact location_of_missing missing before

end BufferCache

namespace CachedDrive

/-- The buffer is the one that is found for its location, and its bytes are the
contents of the sector there. -/
structure Current (contents : Nat → Sector) (cache : BufferCache) (bufNum : BufferNum) : Prop where
  found : cache.bufferWithOffset (cache.bufferLocations bufNum) = some bufNum
  latest : cache.cache bufNum = contents (cache.bufferLocations bufNum / sectorSize)

/-- The contents of a sector are in a dirty buffer with its location, or on the disk.
The buffers of `known`, which were returned, are current too. -/
structure Latest (contents : Nat → Sector) (known : BufferNum → Prop) (disk : CachedDrive) : Prop where
  working : disk.drive.Reliable
  aligned : ∀ bufNum, ∃ sector, sector < 2 ^ 23 ∧
    disk.cache.bufferLocations bufNum = sector * sectorSize
  known : ∀ bufNum, known bufNum → Current contents disk.cache bufNum
  dirty : ∀ bufNum, disk.cache.isDirty bufNum = true → Current contents disk.cache bufNum
  saved : ∀ sector, (∀ bufNum, disk.cache.bufferLocations bufNum = sector * sectorSize →
    disk.cache.isDirty bufNum = false) → disk.drive.sectors sector = contents sector

/-- The bytes of a buffer are modified and the buffer is marked dirty. -/
def modify (bufNum : BufferNum) (data : Sector) (disk : CachedDrive) : CachedDrive :=
  { disk with cache := disk.cache.fill bufNum data }.markDirty bufNum

section Steps

variable {contents : Nat → Sector} {known : BufferNum → Prop} {disk : CachedDrive}
variable {bufNum : BufferNum} {sector : Nat}

theorem Current.unique {other : BufferNum} (first : Current contents disk.cache bufNum)
    (second : Current contents disk.cache other)
    (same : disk.cache.bufferLocations bufNum = disk.cache.bufferLocations other) : bufNum = other := by
  have found := first.found
  rw [same] at found
  exact Option.some.inj (found.symm.trans second.found)

theorem sync_eq (working : disk.drive.Reliable) :
    disk.sync bufNum = (.ok (), ⟨disk.cache.makeClean bufNum, { disk.drive.tick with
      sectors := Function.update disk.drive.sectors
        (disk.cache.bufferLocations bufNum / sectorSize) (disk.cache.cache bufNum) }⟩) := by
  simp only [CachedDrive.sync, Drive.write, working.outcome, BufferCache.makeClean, Drive.tick]

theorem Latest.sync (latest : Latest contents known disk) (current : Current contents disk.cache bufNum) :
    Latest contents known (disk.sync bufNum).2 := by
  rw [sync_eq latest.working]
  refine ⟨latest.working, latest.aligned, fun other knows => ?_, fun other dirty => ?_,
    fun sector clean => ?_⟩
  · have before := latest.known other knows
    exact ⟨before.found, before.latest⟩
  · rw [BufferCache.isDirty_makeClean, Bool.and_eq_true] at dirty
    have before := latest.dirty other dirty.1
    exact ⟨before.found, before.latest⟩
  · change Function.update disk.drive.sectors _ _ sector = _
    rw [Function.update_apply]
    split
    · rename_i same
      rw [same, current.latest]
    · rename_i different
      refine latest.saved sector fun other recorded => ?_
      have clean := clean other recorded
      rw [BufferCache.isDirty_makeClean, Bool.and_eq_false_iff] at clean
      rcases clean with clean | same
      · exact clean
      · have same : other = bufNum := by simpa using same
        refine absurd ?_ different
        rw [← same, recorded, Nat.mul_div_cancel _ (by decide)]

/-- Which buffers are taken says nothing about their contents. -/
theorem Latest.withTakenMap (latest : Latest contents known disk) (takenMap : BitVec 8) :
    Latest contents known { disk with cache := { disk.cache with takenMap } } := by
  obtain ⟨working, aligned, known, dirty, saved⟩ := latest
  exact ⟨working, aligned, fun other knows => ⟨(known other knows).found, (known other knows).latest⟩,
    fun other set => ⟨(dirty other set).found, (dirty other set).latest⟩, saved⟩

theorem Latest.release (latest : Latest contents known disk) :
    Latest contents known (disk.release bufNum) := latest.withTakenMap _

theorem Latest.flush (latest : Latest contents known disk) (knows : known bufNum) :
    Latest contents known (disk.flush bufNum).2 :=
  latest.release.sync (latest.release.known bufNum knows)

theorem Latest.flushDirty (latest : Latest contents known disk) (knows : known bufNum) :
    Latest contents known (disk.flushDirty bufNum).2 := by
  unfold CachedDrive.flushDirty
  split
  · exact latest.flush knows
  · exact latest.release

theorem Latest.modify {data : Sector} (latest : Latest contents known disk) (knows : known bufNum)
    (recorded : disk.cache.bufferLocations bufNum = sector * sectorSize) :
    Latest (Function.update contents sector data) known (disk.modify bufNum data) := by
  have current := latest.known bufNum knows
  have modified : Current (Function.update contents sector data) (disk.modify bufNum data).cache bufNum := by
    refine ⟨current.found, ?_⟩
    change Function.update disk.cache.cache bufNum data bufNum =
      Function.update contents sector data (disk.cache.bufferLocations bufNum / sectorSize)
    rw [recorded, Nat.mul_div_cancel _ (by decide), Function.update_self, Function.update_self]
  have kept (other : BufferNum) (before : Current contents disk.cache other) :
      Current (Function.update contents sector data) (disk.modify bufNum data).cache other := by
    by_cases same : other = bufNum
    · exact same ▸ modified
    · refine ⟨before.found, ?_⟩
      obtain ⟨place, -, location⟩ := latest.aligned other
      have elsewhere : place ≠ sector := by
        rintro rfl
        exact same (before.unique current (location.trans recorded.symm))
      have bytes := before.latest
      change Function.update disk.cache.cache bufNum data other =
        Function.update contents sector data (disk.cache.bufferLocations other / sectorSize)
      rw [location, Nat.mul_div_cancel _ (by decide)] at bytes ⊢
      rw [Function.update_of_ne same, Function.update_of_ne elsewhere, bytes]
  refine ⟨latest.working, latest.aligned, fun other knows => kept other (latest.known other knows),
    fun other dirty => ?_, fun place clean => ?_⟩
  · change (BufferCache.makeDirty _ bufNum).isDirty other = true at dirty
    rw [BufferCache.isDirty_makeDirty, Bool.or_eq_true, decide_eq_true_eq] at dirty
    rcases dirty with dirty | rfl
    · exact kept other (latest.dirty other dirty)
    · exact modified
  · have clean (other : BufferNum) (location : disk.cache.bufferLocations other = place * sectorSize) :
        disk.cache.isDirty other = false ∧ other ≠ bufNum := by
      have unset : (BufferCache.makeDirty _ bufNum).isDirty other = false := clean other location
      rw [BufferCache.isDirty_makeDirty, Bool.or_eq_false_iff, decide_eq_false_iff_not] at unset
      exact unset
    have elsewhere : place ≠ sector := by
      rintro rfl
      exact (clean bufNum recorded).2 rfl
    rw [Function.update_of_ne elsewhere]
    exact latest.saved place fun other location => (clean other location).1

theorem isDirty_takeBuffer (working : disk.drive.Reliable) :
    (disk.takeBuffer bufNum).cache.isDirty bufNum = false := by
  unfold CachedDrive.takeBuffer
  dsimp only
  split
  · rw [sync_eq working]
    change (disk.cache.makeClean bufNum).isDirty bufNum = false
    simp
  · rename_i clean
    exact Bool.eq_false_iff.mpr clean

theorem Latest.takeBuffer (latest : Latest contents known disk) (bufNum : BufferNum) :
    Latest contents known (disk.takeBuffer bufNum) := by
  unfold CachedDrive.takeBuffer
  dsimp only
  split
  · rename_i dirty
    exact (latest.sync (latest.dirty bufNum dirty)).withTakenMap _
  · exact latest.withTakenMap _

theorem Latest.setLocation (latest : Latest contents known disk)
    (clean : disk.cache.isDirty bufNum = false) (small : sector < 2 ^ 23)
    (missing : disk.cache.bufferWithOffset (sector * sectorSize) = none) :
    Latest contents (fun other => known other ∧ other ≠ bufNum)
      { disk with cache := disk.cache.setLocation bufNum (sector * sectorSize) } := by
  have kept (other : BufferNum) (before : Current contents disk.cache other) (different : other ≠ bufNum) :
      Current contents (disk.cache.setLocation bufNum (sector * sectorSize)) other := by
    have still : (disk.cache.setLocation bufNum (sector * sectorSize)).bufferLocations other =
        disk.cache.bufferLocations other := Function.update_of_ne different ..
    constructor
    · rw [still]
      exact BufferCache.bufferWithOffset_setLocation before.found different
        (BufferCache.location_of_missing missing other).symm
    · rw [still]
      exact before.latest
  refine ⟨latest.working, fun other => ?_, fun other knows => kept other (latest.known other knows.1) knows.2,
    fun other dirty => kept other (latest.dirty other dirty) ?_, fun place unset => ?_⟩
  · rw [BufferCache.bufferLocations_setLocation, Function.update_apply]
    split
    · exact ⟨sector, small, rfl⟩
    · exact latest.aligned other
  · rintro rfl
    exact absurd clean (Bool.eq_false_iff.not_left.mpr dirty)
  · refine latest.saved place fun other location => ?_
    by_cases same : other = bufNum
    · exact same ▸ clean
    · refine unset other ?_
      rw [BufferCache.bufferLocations_setLocation, Function.update_of_ne same, location]

/-- A clean buffer that is found for a sector takes the contents of the sector from the disk. -/
theorem Latest.read (latest : Latest contents known disk)
    (found : disk.cache.bufferWithOffset (sector * sectorSize) = some bufNum)
    (clean : disk.cache.isDirty bufNum = false) : disk.drive.sectors sector = contents sector ∧
    Latest contents (fun other => known other ∨ other = bufNum)
      ⟨disk.cache.fill bufNum (disk.drive.sectors sector), disk.drive.tick⟩ := by
  have location := BufferCache.location_of_found found
  have stored : disk.drive.sectors sector = contents sector := by
    refine latest.saved sector fun other recorded => ?_
    by_contra set
    have dirty := Bool.eq_true_of_not_eq_false set
    have first := (latest.dirty other dirty).found
    rw [recorded, found] at first
    cases first
    exact set clean
  have kept (other : BufferNum) (before : Current contents disk.cache other ∨ other = bufNum) :
      Current contents (disk.cache.fill bufNum (disk.drive.sectors sector)) other := by
    by_cases same : other = bufNum
    · subst same
      refine ⟨location.symm ▸ found, ?_⟩
      change Function.update disk.cache.cache other _ other =
        contents (disk.cache.bufferLocations other / sectorSize)
      rw [Function.update_self, location, Nat.mul_div_cancel _ (by decide), stored]
    · have before := before.resolve_right same
      refine ⟨before.found, ?_⟩
      rw [BufferCache.cache_fill, Function.update_of_ne same]
      exact before.latest
  exact ⟨stored, latest.working, latest.aligned,
    fun other knows => kept other (knows.imp_left (latest.known other)),
    fun other dirty => kept other (.inl (latest.dirty other dirty)), latest.saved⟩

theorem Latest.weaken {fewer : BufferNum → Prop} (latest : Latest contents known disk)
    (fewerKnown : ∀ bufNum, fewer bufNum → known bufNum) : Latest contents fewer disk :=
  { latest with known := fun bufNum knows => latest.known bufNum (fewerKnown bufNum knows) }

theorem locationOf_small (small : sector < 2 ^ 23) : locationOf sector = sector * sectorSize :=
  Nat.mod_eq_of_lt (by unfold sectorSize; omega)

theorem readSector_of_getBuffer {after : CachedDrive} (small : sector < 2 ^ 23)
    (got : disk.getBuffer (sector * sectorSize) = (some bufNum, after)) (working : after.drive.Reliable) :
    disk.readSector sector = (.ok bufNum,
      ⟨after.cache.fill bufNum (after.drive.sectors sector), after.drive.tick⟩) := by
  simp only [CachedDrive.readSector, got, Drive.read, working.outcome, locationOf_small small,
    Nat.mul_div_cancel sector (show 0 < sectorSize by decide)]

/-- A sector is read into the buffer that records it, or into the first untaken one. -/
theorem Latest.readSector (latest : Latest contents known disk) (small : sector < 2 ^ 23)
    (clean : ∀ bufNum, disk.cache.bufferWithOffset (locationOf sector) = some bufNum →
      disk.cache.isDirty bufNum = false) :
    (disk.cache.bufferWithOffset (locationOf sector) = none ∧ disk.cache.untaken = none ∧
      disk.readSector sector = (.error .cacheFull, disk)) ∨
    ∃ bufNum after, disk.readSector sector = (.ok bufNum, after) ∧
      after.cache.cache bufNum = contents sector ∧
      Latest contents (fun other => known other ∨ other = bufNum) after ∧
      after.cache.bufferLocations bufNum = sector * sectorSize ∧
      ∀ other, after.cache.bufferLocations other = disk.cache.bufferLocations other ∨
        other = bufNum ∧ disk.cache.bufferWithOffset (locationOf sector) = none ∧
          disk.cache.untaken = some other := by
  rcases disk.getBuffer_cases (locationOf sector) with ⟨bufNum, found, got⟩ | ⟨bufNum, missing, free, got⟩ |
      ⟨missing, none, got⟩
  · have clean := clean bufNum found
    rw [locationOf_small small] at found got
    have run := readSector_of_getBuffer small got latest.working
    obtain ⟨stored, after⟩ := latest.read found clean
    refine .inr ⟨bufNum, _, run, ?_, after, BufferCache.location_of_found found, fun other => .inl rfl⟩
    rw [BufferCache.cache_fill, Function.update_self, stored]
  · have taken := latest.takeBuffer bufNum
    have absent : (disk.takeBuffer bufNum).cache.bufferWithOffset (sector * sectorSize) = none := by
      rw [BufferCache.bufferWithOffset, bufferLocations_takeBuffer, ← locationOf_small small]
      exact missing
    have moved := taken.setLocation (isDirty_takeBuffer latest.working) small absent
    rw [locationOf_small small] at got
    have run := readSector_of_getBuffer small got moved.working
    obtain ⟨stored, after⟩ := moved.read (BufferCache.bufferWithOffset_setLocation_self absent)
      (isDirty_takeBuffer latest.working)
    refine .inr ⟨bufNum, _, run, ?_, after.weaken fun other knows => ?_,
      Function.update_self .., fun other => ?_⟩
    · rw [BufferCache.cache_fill, Function.update_self, stored]
    · by_cases same : other = bufNum
      · exact .inr same
      · exact .inl ⟨knows.resolve_right same, same⟩
    · by_cases same : other = bufNum
      · exact .inr ⟨same, missing, same ▸ free⟩
      · refine .inl ?_
        change Function.update (disk.takeBuffer bufNum).cache.bufferLocations bufNum _ other = _
        rw [Function.update_of_ne same, bufferLocations_takeBuffer]
  · exact .inl ⟨missing, none, by simp only [CachedDrive.readSector, got]⟩

end Steps

end CachedDrive

inductive HolderCall where
  | readSector (sector : Nat)
  | modify (sector : Nat) (data : Sector)
  | release (sector : Nat)
  | sync (sector : Nat)
  | flush (sector : Nat)
  | flushDirty (sector : Nat)

/-- The cache with the latest contents of each sector, the buffer that was returned
for it last, and the sectors whose buffers are held. -/
structure BufferHolders where
  disk : CachedDrive
  contents : Nat → Sector
  handle : Nat → Option BufferNum
  held : List (Nat × BufferNum)

namespace BufferHolders

def start (memory : BufferNum → Sector) (drive : Drive) : BufferHolders :=
  ⟨⟨.constructed memory, drive⟩, drive.sectors, fun _ => none, []⟩

/-- Call with the buffer that was returned for a sector. -/
def through (sector : Nat) (call : BufferNum → CachedDrive → CachedDrive) (holders : BufferHolders) :
    BufferHolders :=
  match holders.handle sector with
  | some bufNum => { holders with disk := call bufNum holders.disk }
  | none => holders

def letGo (sector : Nat) (holders : BufferHolders) : BufferHolders :=
  { holders with held := holders.held.filter fun holder => holder.1 ≠ sector }

/-- The buffer was returned for the sector. -/
def receive (sector : Nat) (bufNum : BufferNum) (disk : CachedDrive) (holders : BufferHolders) :
    BufferHolders where
  disk := disk
  contents := holders.contents
  handle := Function.update holders.handle sector (some bufNum)
  held := (sector, bufNum) :: holders.held

def step (holders : BufferHolders) : HolderCall → BufferHolders
  | .readSector sector =>
    match holders.disk.readSector sector with
    | (.ok bufNum, disk) => holders.receive sector bufNum disk
    | (.error _, disk) => { holders with disk := disk }
  | .modify sector data => { holders.through sector fun bufNum => CachedDrive.modify bufNum data with
      contents := Function.update holders.contents sector data }
  | .release sector => (holders.through sector CachedDrive.release).letGo sector
  | .sync sector => holders.through sector fun bufNum disk => (disk.sync bufNum).2
  | .flush sector => (holders.through sector fun bufNum disk => (disk.flush bufNum).2).letGo sector
  | .flushDirty sector =>
    (holders.through sector fun bufNum disk => (disk.flushDirty bufNum).2).letGo sector

/-- A sector has one holder, only the holder modifies it, and the other calls name a
buffer that was returned. -/
def Admitted (holders : BufferHolders) : HolderCall → Prop
  | .readSector sector => ∀ holder ∈ holders.held, holder.1 ≠ sector
  | .modify sector _ => ∃ holder ∈ holders.held, holder.1 = sector
  | .release sector | .sync sector | .flush sector | .flushDirty sector => holders.handle sector ≠ none

/-- The sector has an offset in 32 bits, it is not read into a dirty buffer, and a buffer
that is moved to it is not held. -/
def Safe (holders : BufferHolders) : HolderCall → Prop
  | .readSector sector => sector < 2 ^ 23 ∧ ∀ bufNum,
      (holders.disk.cache.bufferWithOffset (locationOf sector) = some bufNum →
        holders.disk.cache.isDirty bufNum = false) ∧
      (holders.disk.cache.bufferWithOffset (locationOf sector) = none →
        holders.disk.cache.untaken = some bufNum → ∀ holder ∈ holders.held, holder.2 ≠ bufNum)
  | _ => True

instance (holders : BufferHolders) (call : HolderCall) : Decidable (holders.Admitted call) := by
  cases call <;> unfold Admitted <;> infer_instance

instance (holders : BufferHolders) (call : HolderCall) : Decidable (holders.Safe call) := by
  cases call <;> unfold Safe <;> infer_instance

/-- The sector is returned with its latest contents, or all buffers are taken and
none records it. -/
def ReturnsLatest (holders : BufferHolders) : HolderCall → Prop
  | .readSector sector =>
    match holders.disk.readSector sector with
    | (.ok bufNum, disk) => disk.cache.cache bufNum = holders.contents sector
    | (.error _, _) => holders.disk.cache.bufferWithOffset (locationOf sector) = none ∧
        holders.disk.cache.untaken = none
  | _ => True

/-- The buffers that were returned are current, and each held buffer is at its sector. -/
structure Kept (holders : BufferHolders) : Prop where
  latest : CachedDrive.Latest holders.contents (fun bufNum => ∃ sector, holders.handle sector = some bufNum)
    holders.disk
  located : ∀ holder ∈ holders.held, holders.handle holder.1 = some holder.2 ∧
    holders.disk.cache.bufferLocations holder.2 = holder.1 * sectorSize

section Steps

variable {holders : BufferHolders} {sector : Nat}

theorem Kept.start (memory : BufferNum → Sector) {drive : Drive} (working : drive.Reliable) :
    (start memory drive).Kept where
  latest := {
    working := working
    aligned := fun _ => ⟨0, by decide, rfl⟩
    known := by simp [BufferHolders.start]
    dirty := by simp [BufferHolders.start, BufferCache.constructed, BufferCache.isDirty]
    saved := fun _ _ => rfl }
  located := by simp [BufferHolders.start]

/-- A call through a buffer that was returned, and that moves no buffer. -/
theorem Kept.through (kept : Kept holders) (call : BufferNum → CachedDrive → CachedDrive)
    (keeps : ∀ bufNum known, known bufNum → CachedDrive.Latest holders.contents known holders.disk →
      CachedDrive.Latest holders.contents known (call bufNum holders.disk))
    (still : ∀ bufNum, (call bufNum holders.disk).cache.bufferLocations =
      holders.disk.cache.bufferLocations) : Kept (holders.through sector call) := by
  unfold BufferHolders.through
  cases returned : holders.handle sector with
  | none => exact kept
  | some bufNum =>
    refine ⟨keeps bufNum _ ⟨sector, returned⟩ kept.latest, fun holder member => ?_⟩
    obtain ⟨names, location⟩ := kept.located holder member
    exact ⟨names, (congrFun (still bufNum) holder.2).trans location⟩

theorem Kept.letGo (kept : Kept holders) : Kept (holders.letGo sector) :=
  ⟨kept.latest, fun holder member => kept.located holder (List.mem_of_mem_filter member)⟩

theorem Kept.modify {data : Sector} (kept : Kept holders)
    (admitted : holders.Admitted (.modify sector data)) : Kept (holders.step (.modify sector data)) := by
  obtain ⟨⟨_, bufNum⟩, member, rfl⟩ := admitted
  obtain ⟨names, location⟩ := kept.located _ member
  simp only [step, BufferHolders.through, names]
  exact ⟨kept.latest.modify ⟨_, names⟩ location, kept.located⟩

theorem Kept.receive {bufNum : BufferNum} {after : CachedDrive} (kept : Kept holders)
    (latest : CachedDrive.Latest holders.contents
      (fun other => (∃ place, holders.handle place = some other) ∨ other = bufNum) after)
    (location : after.cache.bufferLocations bufNum = sector * sectorSize)
    (admitted : holders.Admitted (.readSector sector))
    (still : ∀ holder ∈ holders.held, after.cache.bufferLocations holder.2 =
      holders.disk.cache.bufferLocations holder.2) :
    Kept (holders.receive sector bufNum after) := by
  refine ⟨latest.weaken fun other => ?_, fun holder member => ?_⟩
  · rintro ⟨place, returned⟩
    simp only [BufferHolders.receive, Function.update_apply] at returned
    split at returned
    · exact .inr (Option.some.inj returned).symm
    · exact .inl ⟨place, returned⟩
  · rcases List.mem_cons.mp member with rfl | member
    · exact ⟨Function.update_self .., location⟩
    · obtain ⟨names, recorded⟩ := kept.located holder member
      exact ⟨(Function.update_of_ne (admitted holder member) ..).trans names,
        (still holder member).trans recorded⟩

/-- A read returns the latest contents and keeps every held buffer in its place. -/
theorem Kept.readSector (kept : Kept holders) (admitted : holders.Admitted (.readSector sector))
    (safe : holders.Safe (.readSector sector)) :
    Kept (holders.step (.readSector sector)) ∧ holders.ReturnsLatest (.readSector sector) := by
  simp only [step, ReturnsLatest]
  rcases kept.latest.readSector safe.1 (fun bufNum => (safe.2 bufNum).1) with
    ⟨missing, full, run⟩ | ⟨bufNum, after, run, bytes, latest, location, moved⟩
  · rw [run]
    exact ⟨kept, missing, full⟩
  · rw [run]
    refine ⟨kept.receive latest location admitted fun holder member => ?_, bytes⟩
    rcases moved holder.2 with still | ⟨-, missing, free⟩
    · exact still
    · exact absurd rfl ((safe.2 holder.2).2 missing free holder member)

theorem Kept.step {call : HolderCall} (kept : Kept holders) (admitted : holders.Admitted call)
    (safe : holders.Safe call) : Kept (holders.step call) := by
  cases call with
  | readSector sector => exact (kept.readSector admitted safe).1
  | modify sector data => exact kept.modify admitted
  | release sector =>
    refine (kept.through CachedDrive.release (fun _ _ _ latest => ?_) fun _ => ?_).letGo
    · exact latest.release
    · rfl
  | sync sector =>
    refine kept.through (fun bufNum disk => (disk.sync bufNum).2)
      (fun bufNum _ knows latest => ?_) fun _ => ?_
    · exact latest.sync (latest.known bufNum knows)
    · rfl
  | flush sector =>
    refine (kept.through (fun bufNum disk => (disk.flush bufNum).2)
      (fun _ _ knows latest => ?_) fun _ => ?_).letGo
    · exact latest.flush knows
    · rfl
  | flushDirty sector =>
    refine (kept.through (fun bufNum disk => (disk.flushDirty bufNum).2)
      (fun _ _ knows latest => ?_) fun _ => ?_).letGo
    · exact latest.flushDirty knows
    · exact CachedDrive.bufferLocations_flushDirty

end Steps

/-- Along a run in which no sector is read into a dirty buffer and no held buffer is
moved, every sector is returned with its latest contents. -/
theorem returns_latest (memory : BufferNum → Sector) {drive : Drive} (working : drive.Reliable)
    {calls : List HolderCall} (admitted : EveryStep step Admitted (start memory drive) calls)
    (safe : EveryStep step Safe (start memory drive) calls) :
    EveryStep step ReturnsLatest (start memory drive) calls := by
  refine EveryStep.of_invariant (fun _ _ kept guarded => Kept.step kept guarded.1 guarded.2)
    (fun holders call kept guarded => ?_) (Kept.start memory working) (EveryStep.and_iff.mpr ⟨admitted, safe⟩)
  cases call with
  | readSector sector => exact (kept.readSector guarded.1 guarded.2).2
  | _ => trivial

/-- A sector is modified, flushed and read again. -/
theorem returns_latest_flushed : EveryStep step ReturnsLatest (start (fun _ _ => 0) .blank)
    [.readSector 1, .modify 1 (fun _ => 1), .flush 1, .readSector 1] :=
  returns_latest (fun _ _ => 0) (fun _ => rfl) (by decide) (by decide)

/-- A sector that is modified and released is read from the disk again. -/
theorem released_changes_are_lost : ¬ ∀ memory drive calls, Drive.Reliable drive →
    EveryStep step Admitted (start memory drive) calls →
    EveryStep step ReturnsLatest (start memory drive) calls := by
  intro claim
  obtain ⟨-, -, -, latest, -⟩ := claim (fun _ _ => 0) .blank
    [.readSector 1, .modify 1 (fun _ => 1), .release 1, .readSector 1] (fun _ => rfl) (by decide)
  exact absurd (congrFun latest 0) (by decide)

end BufferHolders

end WalnutOs.Klib
