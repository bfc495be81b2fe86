import Mathlib.Algebra.Order.Ring.GeomSum
import Mathlib.Order.Interval.Finset.Nat

/-! Numbers as sums of distinct powers of two, and how a power is taken off such a number. -/

namespace WalnutOs.Lib

/-- The number whose binary digits are set at these places. -/
def twoPowers (places : Finset Nat) : Nat := ∑ place ∈ places, 2 ^ place

variable {places : Finset Nat} {low high : Nat}

theorem twoPowers_lt (below : ∀ place ∈ places, place < low) : twoPowers places < 2 ^ low :=
  Nat.geomSum_lt (Nat.le_refl 2) below

theorem le_twoPowers (present : high ∈ places) (order : low ≤ high) : 2 ^ low ≤ twoPowers places :=
  (Nat.pow_le_pow_right Nat.two_pos order).trans
    (Finset.single_le_sum (f := fun place => 2 ^ place) (fun _ _ => Nat.zero_le _) present)

theorem twoPowers_erase (present : high ∈ places) :
    twoPowers (places.erase high) + 2 ^ high = twoPowers places :=
  Finset.sum_erase_add _ _ present

theorem twoPowers_Ico (order : low ≤ high) : twoPowers (Finset.Ico low high) + 2 ^ low = 2 ^ high := by
  induction high, order using Nat.le_induction with
  | base => simp [twoPowers]
  | succ high order ih =>
    have split : twoPowers (Finset.Ico low (high + 1)) = twoPowers (Finset.Ico low high) + 2 ^ high :=
      Finset.sum_Ico_succ_top order _
    rw [split, Nat.pow_succ]
    omega

/-- Taking a power off borrows from the next digit that is set: it is cleared, and those below it are set. -/
theorem twoPowers_borrow (present : high ∈ places) (order : low ≤ high)
    (clear : ∀ place, low ≤ place → place < high → place ∉ places) :
    twoPowers (places.erase high ∪ Finset.Ico low high) + 2 ^ low = twoPowers places := by
  have apart : Disjoint (places.erase high) (Finset.Ico low high) := by
    refine Finset.disjoint_left.mpr fun place kept between => ?_
    obtain ⟨above, below⟩ := Finset.mem_Ico.mp between
    exact clear place above below (Finset.mem_of_mem_erase kept)
  have union : twoPowers (places.erase high ∪ Finset.Ico low high) =
      twoPowers (places.erase high) + twoPowers (Finset.Ico low high) := Finset.sum_union apart
  rw [union, Nat.add_assoc, twoPowers_Ico order, twoPowers_erase present]

end WalnutOs.Lib
