import WalnutOs.Klib.BufferCache
import WalnutOs.Lib.Run

/-! Who holds the buffers of the cache: a buffer that was returned is held for
its offset until it is released. -/

namespace WalnutOs.Klib

open WalnutOs.Lib

namespace CachedDrive

/-- Only the bytes of the buffer depend on the read. -/
theorem readSector_getBuffer (disk : CachedDrive) (sector : Nat) :
    (disk.readSector sector).2.cache.bufferLocations =
        (disk.getBuffer (locationOf sector)).2.cache.bufferLocations ∧
      ∀ bufNum, (disk.readSector sector).1 = .ok bufNum →
        (disk.getBuffer (locationOf sector)).1 = some bufNum := by
  unfold readSector
  rcases disk.getBuffer (locationOf sector) with ⟨_ | found, after⟩
  · exact ⟨rfl, nofun⟩
  · dsimp only
    split
    · exact ⟨rfl, nofun⟩
    · refine ⟨rfl, ?_⟩
      rintro bufNum ⟨⟩
      rfl

end CachedDrive

inductive BufferCall where
  | getBuffer (offset : Nat)
  | readSector (sector : Nat)
  | markDirty (bufNum : BufferNum)
  | sync (bufNum : BufferNum)
  | release (bufNum : BufferNum)
  | flush (bufNum : BufferNum)
  | flushDirty (bufNum : BufferNum)

namespace BufferCall

/-- The offset for which the call asks for a buffer. -/
def asked : BufferCall → Option Nat
  | .getBuffer offset => some offset
  | .readSector sector => some (locationOf sector)
  | _ => none

def released : BufferCall → Option BufferNum
  | .release bufNum | .flush bufNum | .flushDirty bufNum => some bufNum
  | _ => none

/-- The buffer that the call returns, and what it leaves. -/
def run (disk : CachedDrive) : BufferCall → Option BufferNum × CachedDrive
  | .getBuffer offset => disk.getBuffer offset
  | .readSector sector => ((disk.readSector sector).1.toOption, (disk.readSector sector).2)
  | .markDirty bufNum => (none, disk.markDirty bufNum)
  | .sync bufNum => (none, (disk.sync bufNum).2)
  | .release bufNum => (none, disk.release bufNum)
  | .flush bufNum => (none, (disk.flush bufNum).2)
  | .flushDirty bufNum => (none, (disk.flushDirty bufNum).2)

end BufferCall

/-- The cache with the offset for which each buffer is held: the one it was
returned for last, if it was not released since. -/
structure BufferOwners where
  disk : CachedDrive
  held : BufferNum → Option Nat

namespace BufferOwners

def start (memory : BufferNum → Sector) (drive : Drive) : BufferOwners :=
  ⟨⟨.constructed memory, drive⟩, fun _ => none⟩

def step (owners : BufferOwners) (call : BufferCall) : BufferOwners where
  disk := (call.run owners.disk).2
  held :=
    match (call.run owners.disk).1, call.released with
    | some bufNum, _ => Function.update owners.held bufNum call.asked
    | none, some bufNum => Function.update owners.held bufNum none
    | none, none => owners.held

/-- A buffer that is held for an offset records that offset. -/
def Located (owners : BufferOwners) : Prop :=
  ∀ bufNum offset, owners.held bufNum = some offset →
    owners.disk.cache.bufferLocations bufNum = offset

/-- A buffer that the call returns is not held for another offset, and every
held buffer is at its offset afterwards. -/
def OneUser (owners : BufferOwners) (call : BufferCall) : Prop :=
  (∀ bufNum offset, (call.run owners.disk).1 = some bufNum → owners.held bufNum = some offset →
    call.asked = some offset) ∧ (owners.step call).Located

/-- If no buffer records the offset that is asked for, then the first untaken
buffer, if there is one, is not held. -/
def FirstUntakenFree (owners : BufferOwners) (call : BufferCall) : Prop :=
  ∀ offset bufNum, call.asked = some offset → owners.disk.cache.bufferWithOffset offset = none →
    owners.disk.cache.untaken = some bufNum → owners.held bufNum = none

section Steps

variable {owners : BufferOwners} {call : BufferCall} {offset : Nat}

theorem asked_run (disk : CachedDrive) (asks : call.asked = some offset) :
    (call.run disk).2.cache.bufferLocations = (disk.getBuffer offset).2.cache.bufferLocations ∧
      ∀ bufNum, (call.run disk).1 = some bufNum → (disk.getBuffer offset).1 = some bufNum := by
  cases call <;> cases asks
  · exact ⟨rfl, fun _ => id⟩
  · rename_i sector
    obtain ⟨locations, returned⟩ := disk.readSector_getBuffer sector
    refine ⟨locations, fun bufNum found => returned bufNum ?_⟩
    cases result : (disk.readSector sector).1 with
    | ok _ => simpa [BufferCall.run, result, Except.toOption] using found
    | error _ => simp [BufferCall.run, result, Except.toOption] at found

/-- A buffer that is asked for is held once it is returned; the others stay as they are. -/
theorem held_step (asks : call.asked = some offset) (bufNum : BufferNum) :
    (owners.step call).held bufNum =
      if (call.run owners.disk).1 = some bufNum then some offset else owners.held bufNum := by
  cases returned : (call.run owners.disk).1 with
  | some other =>
    simp only [BufferOwners.step, returned, asks, Function.update_apply, Option.some.injEq, eq_comm]
  | none =>
    cases call with
    | getBuffer | readSector => simp [BufferOwners.step, returned, BufferCall.released]
    | _ => cases asks

/-- A call that asks for no buffer moves none, and holds none that was not held. -/
theorem step_unasked (asks : call.asked = none) :
    (call.run owners.disk).1 = none ∧
    (owners.step call).disk.cache.bufferLocations = owners.disk.cache.bufferLocations ∧
    ∀ bufNum held, (owners.step call).held bufNum = some held → owners.held bufNum = some held := by
  have dropped (other : BufferNum) : ∀ bufNum held,
      Function.update owners.held other none bufNum = some held → owners.held bufNum = some held := by
    intro bufNum held holds
    rw [Function.update_apply] at holds
    split at holds
    · cases holds
    · exact holds
  cases call with
  | getBuffer | readSector => cases asks
  | markDirty | sync => exact ⟨rfl, rfl, fun _ _ => id⟩
  | release bufNum | flush bufNum => exact ⟨rfl, rfl, dropped bufNum⟩
  | flushDirty bufNum => exact ⟨rfl, CachedDrive.bufferLocations_flushDirty, dropped bufNum⟩

/-- The step of a call that finds a buffer, or no buffer at all. -/
theorem Located.oneUser_of_still (located : owners.Located) (asks : call.asked = some offset)
    (still : (owners.disk.getBuffer offset).2 = owners.disk)
    (placed : ∀ bufNum, (owners.disk.getBuffer offset).1 = some bufNum →
      owners.disk.cache.bufferLocations bufNum = offset) : owners.OneUser call := by
  obtain ⟨locations, found⟩ := asked_run owners.disk asks
  rw [still] at locations
  constructor
  · intro bufNum held returned holds
    rw [asks, ← placed bufNum (found bufNum returned), located bufNum held holds]
  · intro bufNum held holds
    change (call.run owners.disk).2.cache.bufferLocations bufNum = held
    rw [locations]
    rw [held_step asks] at holds
    split at holds
    · rename_i returned
      cases holds
      exact placed bufNum (found bufNum returned)
    · exact located bufNum held holds

/-- The step of a call that moves the first untaken buffer. -/
theorem Located.oneUser_of_moved (located : owners.Located) (asks : call.asked = some offset)
    {first : BufferNum} (missing : owners.disk.cache.bufferWithOffset offset = none)
    (returns : (owners.disk.getBuffer offset).1 = some first)
    (moves : (owners.disk.getBuffer offset).2.cache.bufferLocations =
      Function.update owners.disk.cache.bufferLocations first offset) :
    owners.OneUser call ↔ owners.held first = none := by
  obtain ⟨locations, found⟩ := asked_run owners.disk asks
  rw [moves] at locations
  have only {bufNum : BufferNum} (returned : (call.run owners.disk).1 = some bufNum) :
      bufNum = first := Option.some.inj ((found bufNum returned).symm.trans returns)
  constructor
  · rintro ⟨handed, after⟩
    refine Option.eq_none_iff_forall_ne_some.mpr fun held holds => ?_
    have elsewhere : held ≠ offset := by
      rw [← located first held holds]
      exact BufferCache.location_of_missing missing first
    by_cases returned : (call.run owners.disk).1 = some first
    · have asked := handed first held returned holds
      exact elsewhere (Option.some.inj (asked.symm.trans asks))
    · have moved := after first held (by rw [held_step asks, if_neg returned, holds])
      change (call.run owners.disk).2.cache.bufferLocations first = held at moved
      rw [locations, Function.update_self] at moved
      exact elsewhere moved.symm
  · intro free
    constructor
    · intro bufNum held returned holds
      rw [only returned, free] at holds
      cases holds
    · intro bufNum held holds
      change (call.run owners.disk).2.cache.bufferLocations bufNum = held
      rw [locations]
      rw [held_step asks] at holds
      split at holds
      · rename_i returned
        cases holds
        rw [only returned, Function.update_self]
      · have different : bufNum ≠ first := by
          rintro rfl
          rw [free] at holds
          cases holds
        rw [Function.update_of_ne different]
        exact located bufNum held holds

theorem Located.oneUser_iff_free (located : owners.Located) (call : BufferCall) :
    owners.OneUser call ↔ owners.FirstUntakenFree call := by
  cases asks : call.asked with
  | none =>
    obtain ⟨returned, locations, held⟩ := @step_unasked owners call asks
    refine iff_of_true ⟨fun bufNum offset found => ?_, fun bufNum offset holds => ?_⟩
      fun offset bufNum asked => ?_
    · rw [returned] at found
      cases found
    · rw [locations]
      exact located bufNum offset (held bufNum offset holds)
    · rw [asks] at asked
      cases asked
  | some offset =>
    rcases owners.disk.getBuffer_cases offset with ⟨bufNum, found, result⟩ | ⟨bufNum, missing, free, result⟩ |
        ⟨missing, none, result⟩
    · refine iff_of_true (located.oneUser_of_still asks (by rw [result]) ?_) ?_
      · rw [result]
        rintro _ ⟨⟩
        exact BufferCache.location_of_found found
      · intro asked _ same missing
        cases asks.symm.trans same
        rw [found] at missing
        cases missing
    · rw [located.oneUser_of_moved asks missing (by rw [result])
        (by rw [result]; simp)]
      constructor
      · intro unheld asked first same _ found
        cases free.symm.trans found
        exact unheld
      · exact fun untaken => untaken offset bufNum asks missing free
    · refine iff_of_true (located.oneUser_of_still asks (by rw [result]) ?_) ?_
      · rw [result]
        nofun
      · intro _ _ _ _ found
        rw [none] at found
        cases found

end Steps

theorem Located.start (memory : BufferNum → Sector) (drive : Drive) :
    (BufferOwners.start memory drive).Located := by
  intro _ _ holds
  cases holds

/-- Along a run no buffer has two users exactly when no call moves a buffer that
was returned, which it can be without being taken, and not released since. -/
theorem oneUser_iff (memory : BufferNum → Sector) (drive : Drive) (calls : List BufferCall) :
    EveryStep step OneUser (start memory drive) calls ↔
      EveryStep step FirstUntakenFree (start memory drive) calls :=
  EveryStep.iff_of_invariant Located
    (fun _ call located free => ((located.oneUser_iff_free call).mpr free).2)
    (fun _ call located => located.oneUser_iff_free call) (.start memory drive) calls

/-- The first buffer is returned for the offset 0 that all locations hold at
first, without being taken. -/
theorem untaken_buffer_is_handed_out_again :
    ¬ ∀ memory drive calls, EveryStep step OneUser (start memory drive) calls := by
  intro claim
  obtain ⟨-, ⟨handed, -⟩, -⟩ := claim (fun _ _ => 0) .blank [.getBuffer 0, .getBuffer 512]
  exact absurd (handed 0 0 rfl rfl) (by decide)

end BufferOwners

end WalnutOs.Klib
