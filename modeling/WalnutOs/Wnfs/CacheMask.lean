import WalnutOs.Wnfs.Cache

/-! The free mask of the sector cache against the references that are live. The
mask is cleared with AND when a reference is made and toggled with XOR when one
is destroyed. -/

namespace WalnutOs.Wnfs

open WalnutOs.Klib WalnutOs.Lib

namespace World

variable {world : World}

/-- Flushing leaves the free mask alone. -/
@[simp] theorem isFree_flush (bufNum other : BufNum) :
    (world.flush bufNum).2.cache.isFree other = world.cache.isFree other := rfl

theorem isFree_releaseBuffer (bufNum other : BufNum) :
    (world.releaseBuffer bufNum).cache.isFree other =
      (world.cache.isFree other ^^ decide (other = bufNum)) := by
  unfold releaseBuffer
  simp only
  split
  · rw [isFree_flush, BufCache.isFree_toggle]
  · rw [BufCache.isFree_toggle]

/-- What `read_buf_sector` does to the free mask, and when it fails. -/
theorem readBufSector_mask (world : World) (sector : Nat) :
    (∀ bufNum, (world.readBufSector sector).1 = some bufNum → ∀ other,
      (world.readBufSector sector).2.cache.isFree other =
        (world.cache.isFree other && !decide (other = bufNum))) ∧
    ((world.readBufSector sector).1 = none →
      (∀ other, (world.readBufSector sector).2.cache.isFree other = world.cache.isFree other) ∧
      (world.drive.outcome = .done → ∀ other, world.cache.isFree other = false)) := by
  unfold readBufSector
  cases hit : world.cache.bufWithSector sector with
  | some bufNum => simp
  | none =>
    cases free : world.cache.freeBuffer with
    | none => simpa using fun _ => BufCache.isFree_of_missing free
    | some bufNum =>
      cases outcome : world.drive.outcome with
      | done => simp [Drive.read, outcome]
      | failed reported left => cases reported <;> simp [Drive.read, outcome]

end World

namespace CacheRun

/-- A buffer's free bit is set exactly when no live reference has its number. -/
def MaskLaw (run : CacheRun) : Prop :=
  ∀ bufNum, run.world.cache.isFree bufNum = true ↔ ∀ held ∈ run.refs, held.bufNum ≠ bufNum

/-- The mask is right after the call, and a read on a working disk is refused
only when every buffer is held. -/
def KeepsMask (run : CacheRun) (call : CacheCall) : Prop :=
  MaskLaw (run.step call) ∧
  ∀ sector, call = .readBufSector sector → (run.world.readBufSector sector).1 = none →
    run.world.drive.outcome = .done → ∀ bufNum, ∃ held ∈ run.refs, held.bufNum = bufNum

/-- A reference is destroyed only while no other live one has the same buffer. -/
def SoleRelease (run : CacheRun) : CacheCall → Prop
  | .release ref => ∀ held, run.refs[ref]? = some held →
      ∀ other ∈ run.refs.eraseIdx ref, other.bufNum ≠ held.bufNum
  | _ => True

theorem MaskLaw.start (memory : BufNum → Sector) (drive : Drive) :
    MaskLaw (CacheRun.start memory drive) := by
  intro bufNum
  have all : ∀ bufNum : BufNum, (0xFF : BitVec 8).getLsbD bufNum = true := by decide
  simpa [CacheRun.start, BufCache.isFree, BufCache.constructed] using all bufNum

theorem MaskLaw.readBufSector {run : CacheRun} (law : MaskLaw run) (sector : Nat) :
    MaskLaw (run.step (.readBufSector sector)) := by
  obtain ⟨taken, refused⟩ := World.readBufSector_mask run.world sector
  rcases answer : run.world.readBufSector sector with ⟨_ | bufNum, world⟩
  · rw [CacheRun.step_refused answer]
    rw [answer] at refused
    intro other
    rw [(refused rfl).1 other]
    exact law other
  · rw [CacheRun.step_taken answer]
    rw [answer] at taken
    intro other
    rw [taken bufNum rfl other, List.forall_mem_cons, Bool.and_eq_true, law other, and_comm]
    simp only [Bool.not_eq_true', decide_eq_false_iff_not, ne_eq, eq_comm (a := other)]

/-- XOR sets the bit of a held buffer, which is right when nobody else holds it. -/
theorem MaskLaw.release_iff {run : CacheRun} (law : MaskLaw run) (ref : Nat) :
    MaskLaw (run.step (.release ref)) ↔ SoleRelease run (.release ref) := by
  simp only [step, SoleRelease]
  cases found : run.refs[ref]? with
  | none => simpa using law
  | some held =>
    have members (other : BufCacheRef) := Live.mem_iff found other
    have busy : run.world.cache.isFree held.bufNum = false := by
      rw [Bool.eq_false_iff, Ne, law held.bufNum]
      exact fun none => none held ((members held).mpr (.inl rfl)) rfl
    constructor
    · intro after _ same other member
      cases same
      have freed := (after held.bufNum).mp (by simp [World.isFree_releaseBuffer, busy])
      exact freed other member
    · intro sole bufNum
      simp only [World.isFree_releaseBuffer]
      by_cases same : bufNum = held.bufNum
      · subst same
        simpa [busy] using sole held rfl
      · have others := law bufNum
        simp only [members, forall_eq_or_imp, ne_eq, Ne.symm same, not_false_eq_true,
          true_and] at others
        simpa [same] using others

theorem MaskLaw.keeps_iff {run : CacheRun} (law : MaskLaw run) (call : CacheCall) :
    KeepsMask run call ↔ SoleRelease run call := by
  have refusal : ∀ sector, call = .readBufSector sector →
      (run.world.readBufSector sector).1 = none → run.world.drive.outcome = .done →
      ∀ bufNum, ∃ held ∈ run.refs, held.bufNum = bufNum := by
    intro sector _ refused works bufNum
    have taken := ((World.readBufSector_mask run.world sector).2 refused).2 works bufNum
    by_contra none
    rw [(law bufNum).mpr (by simpa using none)] at taken
    cases taken
  have mask : MaskLaw (run.step call) ↔ SoleRelease run call := by
    cases call with
    | readBufSector sector => exact iff_of_true (law.readBufSector sector) trivial
    | read ref idx => exact iff_of_true law trivial
    | write ref idx data =>
      refine iff_of_true ?_ trivial
      simp only [step]
      cases run.refs[ref]? with
      | none => exact law
      | some held => simpa [MaskLaw] using law
    | flush ref =>
      refine iff_of_true ?_ trivial
      simp only [step]
      cases run.refs[ref]? with
      | none => exact law
      | some held => exact law
    | release ref => exact law.release_iff ref
  exact ⟨fun keeps => mask.mp keeps.1, fun sole => ⟨mask.mpr sole, refusal⟩⟩

/-- Along a run from the constructed cache the mask stays right exactly when
every reference destroyed is the only live one of its buffer. -/
theorem maskLaw_iff_soleRelease (memory : BufNum → Sector) (drive : Drive)
    (calls : List CacheCall) :
    (MaskLaw (start memory drive) ∧ EveryStep step KeepsMask (start memory drive) calls) ↔
      EveryStep step SoleRelease (start memory drive) calls := by
  have runs := EveryStep.iff_of_invariant MaskLaw
    (fun _ call law sole => ((law.keeps_iff call).mpr sole).1)
    (fun _ call law => law.keeps_iff call) (MaskLaw.start memory drive) calls
  exact ⟨fun keeps => runs.mp keeps.2, fun sole => ⟨MaskLaw.start memory drive, runs.mpr sole⟩⟩

/-- Two references to one sector, the earlier of which is destroyed: its buffer
is marked free although the later one still has it. -/
theorem shared_release_breaks_mask : ¬ EveryStep step KeepsMask
    (start (fun _ _ => 0) ⟨fun _ _ => 0, fun _ => .done, 0⟩)
    [.readBufSector 100, .readBufSector 100, .release 1] := by
  rintro ⟨-, -, ⟨mask, -⟩, -⟩
  have freed := (mask 0).mp (by decide +kernel) ⟨100, 0⟩ (by decide +kernel)
  exact freed rfl

end CacheRun

end WalnutOs.Wnfs
