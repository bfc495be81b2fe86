import Mathlib.Data.List.Range
import Mathlib.Tactic.Common

/-! Walks of a cursor to an end position, as `for (it = first; it != last; ++it)`
takes them. -/

namespace WalnutOs.Lib.Cursor

universe u v
variable {Place : Type u} {Value : Type v} [DecidableEq Place]
variable {next : Place → Place} {last : Place} {read : Place → Option Value}

/-- The values read on the way, `none` if a read faults or the bound is reached first. -/
def walk (next : Place → Place) (last : Place) (read : Place → Option Value) :
    Nat → Place → Option (List Value)
  | 0, _ => none
  | bound + 1, here =>
    if here = last then some []
    else (read here).bind fun value => (walk next last read bound (next here)).map (value :: ·)

theorem walk_last (bound : Nat) : walk next last read (bound + 1) last = some [] := if_pos rfl

theorem walk_succ {here : Place} {value : Value} (apart : here ≠ last) (found : read here = some value)
    (bound : Nat) : walk next last read (bound + 1) here =
      (walk next last read bound (next here)).map (value :: ·) := by
  rw [walk, if_neg apart, found, Option.bind_some]

variable {count bound : Nat}

/-- A walk that is at the end after `count` steps, and not before, reads `count` values. -/
theorem walk_eq_some (place : Nat → Place) {value : Nat → Value}
    (follows : ∀ n, place (n + 1) = next (place n)) (ends : place count = last)
    (apart : ∀ n < count, place n ≠ last) (found : ∀ n < count, read (place n) = some (value n))
    (enough : count < bound) :
    walk next last read bound (place 0) = some ((List.range count).map value) := by
  obtain ⟨bound, rfl⟩ := Nat.exists_eq_succ_of_ne_zero (Nat.ne_zero_of_lt enough)
  induction count generalizing place value bound with
  | zero =>
    rw [ends]
    exact walk_last bound
  | succ count ih =>
    obtain ⟨bound, rfl⟩ := Nat.exists_eq_succ_of_ne_zero (Nat.ne_zero_of_lt (Nat.lt_of_succ_lt_succ enough))
    have rest : walk next last read (bound + 1) (place 1) =
        some ((List.range count).map fun n => value (n + 1)) :=
      ih (fun n => place (n + 1)) (fun n => follows (n + 1)) ends
        (fun n inside => apart (n + 1) (Nat.succ_lt_succ inside))
        (fun n inside => found (n + 1) (Nat.succ_lt_succ inside)) bound (Nat.lt_of_succ_lt_succ enough)
    rw [walk_succ (apart 0 (Nat.succ_pos count)) (found 0 (Nat.succ_pos count)), ← follows 0, rest,
      List.range_succ_eq_map, List.map_cons, List.map_map]
    rfl

/-- A walk that reaches a place it cannot read before the end has no result. -/
theorem walk_eq_none (place : Nat → Place) (follows : ∀ n, place (n + 1) = next (place n))
    (apart : ∀ n ≤ count, place n ≠ last) (fault : read (place count) = none) :
    walk next last read bound (place 0) = none := by
  induction bound generalizing place count with
  | zero => rfl
  | succ bound ih =>
    rw [walk, if_neg (apart 0 (Nat.zero_le count))]
    cases count with
    | zero => rw [fault, Option.bind_none]
    | succ count =>
      have rest : walk next last read bound (place 1) = none :=
        ih (fun n => place (n + 1)) (fun n => follows (n + 1))
          (fun n inside => apart (n + 1) (Nat.succ_le_succ inside)) fault
      cases read (place 0) with
      | none => rfl
      | some value => rw [Option.bind_some, ← follows 0, rest, Option.map_none]

end WalnutOs.Lib.Cursor
