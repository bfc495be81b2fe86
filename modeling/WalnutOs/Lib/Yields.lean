import Mathlib.Tactic.Common

/-! Total correctness of computations that change a state and may fault, for
results that are known beforehand. -/

namespace WalnutOs.Lib

universe u v
variable {State Fault Value Other : Type u}
variable {before middle after : State → Prop} {value : Value} {other : Other}

/-- From every state that satisfies `before` the operation returns `value`, without a fault and
in a state that satisfies `after`. -/
def Yields (before : State → Prop) (operation : StateT State (Except Fault) Value) (value : Value)
    (after : State → Prop) : Prop :=
  ∀ state, before state → ∃ final, operation state = .ok (value, final) ∧ after final

namespace Yields

variable {operation : StateT State (Except Fault) Value}
variable {next : Value → StateT State (Except Fault) Other}

theorem pure : Yields before (Pure.pure value : StateT State (Except Fault) Value) value before :=
  fun state valid => ⟨state, rfl, valid⟩

theorem bind (first : Yields before operation value middle)
    (second : Yields middle (next value) other after) :
    Yields before (operation >>= next) other after := by
  intro state valid
  obtain ⟨between, ran, holds⟩ := first state valid
  obtain ⟨final, ran', holds'⟩ := second between holds
  refine ⟨final, ?_, holds'⟩
  simp only [Bind.bind, StateT.bind, Except.bind, ran]
  exact ran'

/-- A final step that only passes the result on. -/
theorem map {change : Value → Other} (first : Yields before operation value after) :
    Yields before (operation >>= fun result => Pure.pure (change result)) (change value) after :=
  first.bind pure

theorem weaken {stronger weaker : State → Prop} (stated : Yields before operation value after)
    (enough : ∀ state, stronger state → before state) (implied : ∀ state, after state → weaker state) :
    Yields stronger operation value weaker := by
  intro state valid
  obtain ⟨final, ran, holds⟩ := stated state (enough state valid)
  exact ⟨final, ran, implied final holds⟩

end Yields

end WalnutOs.Lib
