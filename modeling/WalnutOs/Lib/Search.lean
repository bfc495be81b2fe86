import Mathlib.Data.List.FinRange
import Mathlib.Tactic.Common

/-! Searches for the first index of an array that has a property. -/

namespace WalnutOs.Lib.Search

universe u
variable {size : Nat} {Value : Type u} {index : Fin size}

/-- A loop over the indices stops at the first one that satisfies the test. -/
theorem find?_finRange_eq_some {test : Fin size → Bool} :
    (List.finRange size).find? test = some index ↔
      test index = true ∧ ∀ other < index, test other = false := by
  rw [List.find?_eq_some_iff_getElem]
  simp only [List.getElem_finRange, Bool.not_eq_true']
  constructor
  · rintro ⟨passed, place, inside, rfl, earlier⟩
    exact ⟨passed, fun other below => earlier other.val below⟩
  · rintro ⟨passed, earlier⟩
    exact ⟨passed, index.val, by simp, rfl, fun place below =>
      earlier ⟨place, Nat.lt_trans below index.isLt⟩ below⟩

/-- The same for a loop whose test gives a result. -/
theorem exists_of_findSome?_finRange {test : Fin size → Option Value} {value : Value}
    (found : (List.finRange size).findSome? test = some value) :
    ∃ index, test index = some value ∧ ∀ other < index, test other = none := by
  obtain ⟨before, index, after, split, passed, earlier⟩ := List.findSome?_eq_some_iff.mp found
  refine ⟨index, passed, fun other below => ?_⟩
  have sorted := List.pairwise_lt_finRange size
  rw [split, List.pairwise_append, List.pairwise_cons] at sorted
  have member : other ∈ before ++ index :: after := split ▸ List.mem_finRange other
  rcases List.mem_append.mp member with here | later
  · exact earlier other here
  · rcases List.mem_cons.mp later with rfl | later
    · exact absurd below (Nat.lt_irrefl _)
    · exact absurd below (Nat.lt_asymm (sorted.2.1.1 other later))

/-- What a loop over the indices keeps holds at its end, of the number of turns. -/
theorem foldl_finRange {State : Type u} {step : State → Fin size → State} {state : State}
    (kept : Nat → State → Prop) (first : kept 0 state)
    (keep : ∀ (index : Fin size) (state : State), kept index state → kept (index + 1) (step state index)) :
    kept size ((List.finRange size).foldl step state) := by
  induction size with
  | zero => exact first
  | succ size ih =>
    rw [List.finRange_succ_last, List.foldl_append, List.foldl_map, List.foldl_cons, List.foldl_nil]
    exact keep (Fin.last size) _ (ih fun index => keep index.castSucc)

end WalnutOs.Lib.Search
