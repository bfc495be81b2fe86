import Mathlib.Logic.Basic
import Mathlib.Tactic.Common

/-! Runs of machines. A total machine is followed along a list of operations;
a machine whose step may fault is followed along the states it reaches. -/

namespace WalnutOs.Lib

universe u v

section Total

variable {State : Type u} {Op : Type v} {step : State → Op → State}
variable {law good : State → Op → Prop} {kept : State → Prop}

/-- `law` holds of every step that `ops`, taken in order from `state`, performs. -/
def EveryStep (step : State → Op → State) (law : State → Op → Prop) : State → List Op → Prop
  | _, [] => True
  | state, op :: rest => law state op ∧ EveryStep step law (step state op) rest

instance EveryStep.decidable [∀ state op, Decidable (law state op)] :
    (state : State) → (ops : List Op) → Decidable (EveryStep step law state ops)
  | _, [] => .isTrue trivial
  | state, op :: rest =>
    have := EveryStep.decidable (step state op) rest
    inferInstanceAs (Decidable (law state op ∧ EveryStep step law (step state op) rest))

/-- Two laws that agree wherever the invariant holds agree along every run,
as long as either of them carries the invariant across one step. -/
theorem EveryStep.iff_of_invariant (kept : State → Prop)
    (keep : ∀ state op, kept state → good state op → kept (step state op))
    (agree : ∀ state op, kept state → (law state op ↔ good state op))
    {state : State} (valid : kept state) (ops : List Op) :
    EveryStep step law state ops ↔ EveryStep step good state ops := by
  induction ops generalizing state with
  | nil => exact Iff.rfl
  | cons op rest ih =>
    simp only [EveryStep]
    constructor
    · rintro ⟨now, later⟩
      have fine := (agree state op valid).mp now
      exact ⟨fine, (ih (keep state op valid fine)).mp later⟩
    · rintro ⟨now, later⟩
      exact ⟨(agree state op valid).mpr now, (ih (keep state op valid now)).mpr later⟩

/-- The state at the end of a guarded run satisfies the invariant. -/
theorem EveryStep.final
    (keep : ∀ state op, kept state → good state op → kept (step state op))
    {state : State} (valid : kept state) {ops : List Op}
    (run : EveryStep step good state ops) : kept (ops.foldl step state) := by
  induction ops generalizing state with
  | nil => exact valid
  | cons op rest ih => exact ih (keep state op valid run.1) run.2

/-- What every guarded step satisfies from the invariant, a guarded run does. -/
theorem EveryStep.of_invariant
    (keep : ∀ state op, kept state → good state op → kept (step state op))
    (lawful : ∀ state op, kept state → good state op → law state op)
    {state : State} (valid : kept state) {ops : List Op}
    (run : EveryStep step good state ops) : EveryStep step law state ops := by
  induction ops generalizing state with
  | nil => trivial
  | cons op rest ih => exact ⟨lawful state op valid run.1, ih (keep state op valid run.1) run.2⟩

theorem EveryStep.append {state : State} {first second : List Op} :
    EveryStep step law state (first ++ second) ↔
      EveryStep step law state first ∧ EveryStep step law (first.foldl step state) second := by
  induction first generalizing state with
  | nil => simp [EveryStep]
  | cons op rest ih => simp [EveryStep, ih, and_assoc]

theorem EveryStep.and_iff {state : State} {ops : List Op} :
    EveryStep step (fun state op => law state op ∧ good state op) state ops ↔
      EveryStep step law state ops ∧ EveryStep step good state ops := by
  induction ops generalizing state with
  | nil => simp [EveryStep]
  | cons op rest ih => simp [EveryStep, ih, and_and_and_comm]

end Total

section Faulting

variable {State : Type u} {Op : Type v} {step : State → Op → Option State}
variable {guard : State → Op → Prop} {kept : State → Prop}

/-- The states reached from `start` by steps that the guard admits and that
do not fault. -/
inductive Reach (step : State → Op → Option State) (guard : State → Op → Prop)
    (start : State) : State → Prop where
  | start : Reach step guard start start
  | next {state after : State} {op : Op} (earlier : Reach step guard start state)
      (admitted : guard state op) (taken : step state op = some after) :
      Reach step guard start after

theorem Reach.invariant {start state : State} (reached : Reach step guard start state)
    (initial : kept start)
    (keep : ∀ state op after, kept state → guard state op → step state op = some after →
      kept after) : kept state := by
  induction reached with
  | start => exact initial
  | next _ admitted taken ih => exact keep _ _ _ ih admitted taken

/-- Follow a list of operations, checking the guard before each step. -/
def follow (step : State → Op → Option State) (guard : State → Op → Prop)
    [∀ state op, Decidable (guard state op)] : State → List Op → Option State
  | state, [] => some state
  | state, op :: rest =>
    if guard state op then (step state op).bind (follow step guard · rest) else none

theorem Reach.of_follow [∀ state op, Decidable (guard state op)] {start middle final : State}
    {ops : List Op} (reached : Reach step guard start middle)
    (run : follow step guard middle ops = some final) : Reach step guard start final := by
  induction ops generalizing middle with
  | nil =>
    cases Option.some.inj run
    exact reached
  | cons op rest ih =>
    by_cases admitted : guard middle op
    · simp only [follow, if_pos admitted, Option.bind_eq_some_iff] at run
      obtain ⟨after, taken, later⟩ := run
      exact ih (.next reached admitted taken) later
    · simp [follow, if_neg admitted] at run

variable {law good : State → Op → Prop}

/-- `law` holds of every operation that is reached from `state` without a fault. -/
def EveryTaken (step : State → Op → Option State) (law : State → Op → Prop) : State → List Op → Prop
  | _, [] => True
  | state, op :: rest => law state op ∧ ∀ after, step state op = some after → EveryTaken step law after rest

instance EveryTaken.decidable [∀ state op, Decidable (law state op)] :
    (state : State) → (ops : List Op) → Decidable (EveryTaken step law state ops)
  | _, [] => .isTrue trivial
  | state, op :: rest =>
    have : Decidable (∀ after, step state op = some after → EveryTaken step law after rest) :=
      match taken : step state op with
      | none => .isTrue nofun
      | some after =>
        have := EveryTaken.decidable after rest
        decidable_of_iff (EveryTaken step law after rest) (by simp)
    inferInstanceAs (Decidable (_ ∧ _))

/-- A law that does not look at the states. -/
theorem EveryTaken.of_forall {allowed : Op → Prop} {state : State} {ops : List Op}
    (every : ∀ op ∈ ops, allowed op) : EveryTaken step (fun _ op => allowed op) state ops := by
  induction ops generalizing state with
  | nil => trivial
  | cons op rest ih =>
    rw [List.forall_mem_cons] at every
    exact ⟨every.1, fun _ _ => ih every.2⟩

/-- Along the operations that the guard admits, two laws agree wherever the invariant holds. -/
theorem EveryTaken.iff_of_invariant (kept : State → Prop)
    (keep : ∀ state op after, kept state → guard state op → good state op →
      step state op = some after → kept after)
    (agree : ∀ state op, kept state → guard state op → (law state op ↔ good state op))
    {state : State} (valid : kept state) {ops : List Op} (admitted : EveryTaken step guard state ops) :
    EveryTaken step law state ops ↔ EveryTaken step good state ops := by
  induction ops generalizing state with
  | nil => exact Iff.rfl
  | cons op rest ih =>
    obtain ⟨allowed, later⟩ := admitted
    constructor
    · rintro ⟨now, next⟩
      have fine := (agree state op valid allowed).mp now
      exact ⟨fine, fun after taken =>
        (ih (keep state op after valid allowed fine taken) (later after taken)).mp (next after taken)⟩
    · rintro ⟨fine, next⟩
      exact ⟨(agree state op valid allowed).mpr fine, fun after taken =>
        (ih (keep state op after valid allowed fine taken) (later after taken)).mpr (next after taken)⟩

/-- Where each step keeps what is good exactly under the law, the end of a run is good exactly if its
start is and the law holds along it. -/
theorem EveryTaken.final_iff {good : State → Prop}
    (keep : ∀ state op after, kept state → step state op = some after →
      kept after ∧ (good after ↔ good state ∧ law state op))
    {state final : State} (valid : kept state) {ops : List Op} (run : ops.foldlM step state = some final) :
    kept final ∧ (good final ↔ good state ∧ EveryTaken step law state ops) := by
  induction ops generalizing state with
  | nil =>
    cases Option.some.inj run
    exact ⟨valid, (and_iff_left trivial).symm⟩
  | cons op rest ih =>
    rw [List.foldlM_cons] at run
    obtain ⟨after, taken, later⟩ := Option.bind_eq_some_iff.mp run
    obtain ⟨next, step⟩ := keep state op after valid taken
    obtain ⟨ends, rest⟩ := ih next later
    refine ⟨ends, rest.trans ?_⟩
    rw [step, and_assoc]
    refine and_congr_right fun _ => and_congr_right fun _ => ⟨fun every other answer => ?_, fun every => ?_⟩
    · cases Option.some.inj (taken.symm.trans answer)
      exact every
    · exact every after taken

end Faulting

end WalnutOs.Lib
