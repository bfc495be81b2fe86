import Mathlib.Data.List.Basic

/-! Lists of what is live, from which one is given up by its place. -/

namespace WalnutOs.Lib.Live

universe u v
variable {Held : Type u} {Key : Type v} {key : Held → Key} {live : List Held} {place : Nat}
variable {held other : Held}

/-- Giving one up leaves the others. -/
theorem mem_iff (found : live[place]? = some held) (other : Held) :
    other ∈ live ↔ other = held ∨ other ∈ live.eraseIdx place := by
  rw [List.mem_eraseIdx_iff_getElem?, List.mem_iff_getElem?]
  constructor
  · rintro ⟨index, there⟩
    by_cases same : index = place
    · subst same
      exact .inl (Option.some.inj (there.symm.trans found))
    · exact .inr ⟨index, same, there⟩
  · rintro (rfl | ⟨index, -, there⟩)
    · exact ⟨place, found⟩
    · exact ⟨index, there⟩

/-- What is left after one is given up has other keys, if no two had the same. -/
theorem key_ne_of_mem_eraseIdx (apart : live.Pairwise fun first second => key first ≠ key second)
    (found : live[place]? = some held) (left : other ∈ live.eraseIdx place) :
    key other ≠ key held := by
  obtain ⟨index, distinct, there⟩ := List.mem_eraseIdx_iff_getElem?.mp left
  obtain ⟨inside, rfl⟩ := List.getElem?_eq_some_iff.mp there
  obtain ⟨inside', rfl⟩ := List.getElem?_eq_some_iff.mp found
  have ordered := List.pairwise_iff_getElem.mp apart
  rcases Nat.lt_or_gt_of_ne distinct with before | after
  · exact ordered _ _ inside inside' before
  · exact (ordered _ _ inside' inside after).symm

end WalnutOs.Lib.Live
