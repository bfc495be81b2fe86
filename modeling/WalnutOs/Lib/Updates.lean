import Mathlib.Logic.Function.Basic
import Mathlib.Tactic.Common

/-! A loop that stores one value after the other into a table. -/

namespace WalnutOs.Lib

universe u v w
variable {Index : Type u} {Place : Type v} {Value : Type w} [DecidableEq Place]
variable {place : Index → Place} {value : Index → Value} {indices : List Index} {table : Place → Value}

def storeAll (place : Index → Place) (value : Index → Value) (indices : List Index) (table : Place → Value) :
    Place → Value :=
  indices.foldl (fun table index => Function.update table (place index) (value index)) table

/-- If what is stored at a place depends on the place alone, it stays there. -/
theorem storeAll_apply (final : Place → Value)
    (alone : ∀ index ∈ indices, value index = final (place index)) (other : Place) : storeAll place value indices table other =
      if other ∈ indices.map place then final other else table other := by
  induction indices generalizing table with
  | nil => rfl
  | cons first rest ih =>
    rw [List.forall_mem_cons] at alone
    have next : storeAll place value (first :: rest) table =
        storeAll place value rest (Function.update table (place first) (value first)) := rfl
    rw [next, ih alone.2, List.map_cons]
    by_cases later : other ∈ rest.map place
    · rw [if_pos later, if_pos (List.mem_cons_of_mem _ later)]
    · rw [if_neg later]
      by_cases here : other = place first
      · subst here
        rw [if_pos List.mem_cons_self, Function.update_self, alone.1]
      · rw [Function.update_of_ne here, if_neg fun inside => (List.mem_cons.mp inside).elim here later]

end WalnutOs.Lib
