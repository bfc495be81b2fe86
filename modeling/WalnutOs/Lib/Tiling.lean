import Mathlib.Algebra.Order.Ring.Nat
import Mathlib.Data.Nat.Find
import Mathlib.Tactic.Linarith
import Mathlib.Tactic.Ring

/-! Tilings of `2 ^ top` pages by aligned blocks of `2 ^ order` pages, which are
split in halves and merged with their buddies. -/

namespace WalnutOs.Lib

/-- `tile start = some order` when a block of that order begins at `start`. -/
structure Tiling (top : Nat) (tile : Nat → Option Nat) : Prop where
  within : ∀ {start order}, tile start = some order →
    order ≤ top ∧ 2 ^ order ∣ start ∧ start < 2 ^ top
  apart : ∀ {start order other order'}, tile start = some order → tile other = some order' →
    start ≤ other → other < start + 2 ^ order → other = start
  covered : ∀ page, page < 2 ^ top →
    ∃ start order, tile start = some order ∧ start ≤ page ∧ page < start + 2 ^ order

/-- The other half of the block that a block of this order is one half of. -/
def buddy (start order : Nat) : Nat :=
  if 2 ^ (order + 1) ∣ start then start + 2 ^ order else start - 2 ^ order

section Buddy

variable {start order : Nat}

theorem buddy_low (aligned : 2 ^ (order + 1) ∣ start) : buddy start order = start + 2 ^ order :=
  if_pos aligned

theorem buddy_high (aligned : 2 ^ (order + 1) ∣ start) : buddy (start + 2 ^ order) order = start := by
  have odd : ¬ 2 ^ (order + 1) ∣ start + 2 ^ order := by
    rw [Nat.dvd_add_right aligned]
    exact Nat.not_dvd_of_pos_of_lt (Nat.two_pow_pos order)
      (Nat.pow_lt_pow_right Nat.one_lt_two (Nat.lt_succ_self order))
  rw [buddy, if_neg odd, Nat.add_sub_cancel]

theorem buddy_ne (start : Nat) (aligned : 2 ^ order ∣ start) : buddy start order ≠ start := by
  have positive : 0 < 2 ^ order := Nat.two_pow_pos order
  unfold buddy
  split
  · omega
  · rename_i odd
    have nonzero : start ≠ 0 := by
      rintro rfl
      exact odd (Nat.dvd_zero _)
    omega

/-- A block is the first or the second half of an aligned block. -/
theorem half_cases (aligned : 2 ^ order ∣ start) :
    ∃ low, 2 ^ (order + 1) ∣ low ∧ (start = low ∨ start = low + 2 ^ order) := by
  obtain ⟨quotient, rfl⟩ := aligned
  rcases Nat.even_or_odd' quotient with ⟨half, rfl | rfl⟩
  · exact ⟨2 ^ order * (2 * half), ⟨half, by ring⟩, .inl rfl⟩
  · exact ⟨2 ^ order * (2 * half), ⟨half, by ring⟩, .inr (by ring)⟩

theorem buddy_buddy (aligned : 2 ^ order ∣ start) : buddy (buddy start order) order = start := by
  obtain ⟨low, low_aligned, rfl | rfl⟩ := half_cases aligned
  · rw [buddy_low low_aligned, buddy_high low_aligned]
  · rw [buddy_high low_aligned, buddy_low low_aligned]

/-- A block and its buddy are the two halves of an aligned block. -/
theorem buddy_halves (aligned : 2 ^ order ∣ start) :
    2 ^ (order + 1) ∣ min start (buddy start order) ∧
      ((start = min start (buddy start order) ∧
          buddy start order = min start (buddy start order) + 2 ^ order) ∨
        (start = min start (buddy start order) + 2 ^ order ∧
          buddy start order = min start (buddy start order))) := by
  obtain ⟨low, low_aligned, rfl | rfl⟩ := half_cases aligned
  · rw [buddy_low low_aligned, min_eq_left (Nat.le_add_right _ _)]
    exact ⟨low_aligned, .inl ⟨rfl, rfl⟩⟩
  · rw [buddy_high low_aligned, min_eq_right (Nat.le_add_right _ _)]
    exact ⟨low_aligned, .inr ⟨rfl, rfl⟩⟩

end Buddy

/-- Where the unit around a page meets a run of units, the run contains it. -/
private theorem enclosed {unit low from' size : Nat} (page : Nat) (low_unit : unit ∣ low)
    (from_unit : unit ∣ from') (size_unit : unit ∣ size) (above : low ≤ page)
    (below : page < low + unit) (inside : from' ≤ page) (before : page < from' + size) :
    from' ≤ low ∧ low + unit ≤ from' + size := by
  obtain ⟨a, rfl⟩ := low_unit
  obtain ⟨b, rfl⟩ := from_unit
  obtain ⟨c, rfl⟩ := size_unit
  have first : b < a + 1 := Nat.lt_of_mul_lt_mul_left (a := unit) (by rw [Nat.mul_add]; omega)
  have last : a < b + c := Nat.lt_of_mul_lt_mul_left (a := unit) (by rw [Nat.mul_add]; omega)
  have bound := Nat.mul_le_mul_left unit (Nat.succ_le_of_lt last)
  rw [Nat.mul_succ, Nat.mul_add] at bound
  exact ⟨Nat.mul_le_mul_left unit (Nat.le_of_lt_succ first), bound⟩

namespace Tiling

variable {top : Nat} {tile : Nat → Option Nat} {start order other order' : Nat}

theorem start_add_le (tiling : Tiling top tile) (tiled : tile start = some order) :
    start + 2 ^ order ≤ 2 ^ top := by
  obtain ⟨small, aligned, inside⟩ := tiling.within tiled
  have size := enclosed start aligned (Nat.dvd_zero _) (Nat.pow_dvd_pow 2 small)
    (Nat.le_refl _) (Nat.lt_add_of_pos_right (Nat.two_pow_pos order)) (Nat.zero_le _)
    (by rw [Nat.zero_add]; exact inside)
  rw [Nat.zero_add] at size
  exact size.2

/-- The buddy of a block that is not the whole begins a block, no larger one. -/
theorem buddy_tiled (tiling : Tiling top tile) (tiled : tile start = some order)
    (partial' : order < top) : ∃ order' ≤ order, tile (buddy start order) = some order' := by
  obtain ⟨-, aligned, inside⟩ := tiling.within tiled
  obtain ⟨low_aligned, halves⟩ := buddy_halves aligned
  generalize low_def : min start (buddy start order) = low at low_aligned halves
  have unit : 2 ^ (order + 1) = 2 ^ order + 2 ^ order := by ring
  have positive : 0 < 2 ^ order := Nat.two_pow_pos order
  have whole := enclosed start low_aligned (Nat.dvd_zero _)
    (Nat.pow_dvd_pow 2 (Nat.succ_le_of_lt partial')) (by omega) (by omega) (Nat.zero_le _)
    (by rw [Nat.zero_add]; exact inside)
  obtain ⟨from', order', found, above, below⟩ := tiling.covered (buddy start order) (by omega)
  obtain ⟨-, from_aligned, -⟩ := tiling.within found
  rcases Nat.lt_or_ge order order' with larger | smaller
  · have contained := enclosed _ low_aligned
      ((Nat.pow_dvd_pow 2 (Nat.succ_le_of_lt larger)).trans from_aligned)
      (Nat.pow_dvd_pow 2 (Nat.succ_le_of_lt larger)) (by omega) (by omega) above below
    have same := tiling.apart found tiled (by omega) (by omega)
    rw [same, found] at tiled
    cases tiled
    omega
  · have buddy_aligned : 2 ^ order ∣ buddy start order := by
      have half : 2 ^ order ∣ low := (Nat.pow_dvd_pow 2 (Nat.le_succ order)).trans low_aligned
      rcases halves with ⟨-, eq⟩ | ⟨-, eq⟩
      · exact eq ▸ Nat.dvd_add half (Nat.dvd_refl _)
      · exact eq ▸ half
    have contained := enclosed _ ((Nat.pow_dvd_pow 2 smaller).trans buddy_aligned) from_aligned
      (dvd_refl _) (Nat.le_refl _) (Nat.lt_add_of_pos_right (Nat.two_pow_pos order')) above below
    have same : buddy start order = from' := by omega
    exact ⟨order', smaller, same ▸ found⟩

/-- The tile after a block is cut in halves. -/
def split (tile : Nat → Option Nat) (start order : Nat) : Nat → Option Nat :=
  Function.update (Function.update tile start (some order)) (start + 2 ^ order) (some order)

/-- The tile after the halves of a block are joined. -/
def merge (tile : Nat → Option Nat) (start order : Nat) : Nat → Option Nat :=
  Function.update (Function.update tile (start + 2 ^ order) none) start (some (order + 1))

theorem split_eq_some_iff : split tile start order other = some order' ↔
    ((other = start ∨ other = start + 2 ^ order) ∧ order' = order) ∨
      (other ≠ start ∧ other ≠ start + 2 ^ order ∧ tile other = some order') := by
  have positive : 0 < 2 ^ order := Nat.two_pow_pos order
  unfold split
  by_cases second : other = start + 2 ^ order
  · subst second
    simp [eq_comm]
  · by_cases first : other = start
    · subst first
      simp [eq_comm]
    · simp [first, second]

theorem merge_eq_some_iff : merge tile start order other = some order' ↔
    (other = start ∧ order' = order + 1) ∨
      (other ≠ start ∧ other ≠ start + 2 ^ order ∧ tile other = some order') := by
  unfold merge
  by_cases first : other = start
  · subst first
    simp [eq_comm]
  · by_cases second : other = start + 2 ^ order
    · subst second
      simp
    · simp [first, second]

/-- Two blocks that begin apart do not overlap. -/
theorem disjoint (tiling : Tiling top tile) (tiled : tile start = some order)
    (tiled' : tile other = some order') (distinct : other ≠ start) :
    start + 2 ^ order ≤ other ∨ other + 2 ^ order' ≤ start := by
  have forth := tiling.apart tiled tiled'
  have back := tiling.apart tiled' tiled
  omega

theorem split_tiling (tiling : Tiling top tile) (tiled : tile start = some (order + 1)) :
    Tiling top (split tile start order) := by
  obtain ⟨small, aligned, inside⟩ := tiling.within tiled
  have unit : 2 ^ (order + 1) = 2 ^ order + 2 ^ order := by ring
  have positive : 0 < 2 ^ order := Nat.two_pow_pos order
  have fits := tiling.start_add_le tiled
  have half_aligned : 2 ^ order ∣ start := (Nat.pow_dvd_pow 2 (Nat.le_succ order)).trans aligned
  constructor
  · intro other order' found
    rcases split_eq_some_iff.mp found with ⟨rfl | rfl, rfl⟩ | ⟨-, -, found⟩
    · exact ⟨by omega, half_aligned, inside⟩
    · exact ⟨by omega, Nat.dvd_add half_aligned (Nat.dvd_refl _), by omega⟩
    · exact tiling.within found
  · intro first order₁ second order₂ found₁ found₂ above below
    rcases split_eq_some_iff.mp found₁ with ⟨place₁, rfl⟩ | ⟨apart₁, -, there₁⟩ <;>
      rcases split_eq_some_iff.mp found₂ with ⟨place₂, rfl⟩ | ⟨apart₂, -, there₂⟩
    · omega
    · have := tiling.disjoint tiled there₂ apart₂
      have := Nat.two_pow_pos order₂
      omega
    · have := tiling.disjoint tiled there₁ apart₁
      omega
    · exact tiling.apart there₁ there₂ above below
  · intro page bound
    obtain ⟨from', order', found, above, below⟩ := tiling.covered _ bound
    by_cases here : from' = start
    · subst here
      cases Option.some.inj (tiled.symm.trans found)
      by_cases low : page < from' + 2 ^ order
      · exact ⟨from', order, split_eq_some_iff.mpr (.inl ⟨.inl rfl, rfl⟩), above, low⟩
      · exact ⟨from' + 2 ^ order, order, split_eq_some_iff.mpr (.inl ⟨.inr rfl, rfl⟩), by omega, by omega⟩
    · have distinct := tiling.disjoint tiled found here
      exact ⟨from', order', split_eq_some_iff.mpr (.inr ⟨here, by omega, found⟩), above, below⟩

theorem merge_tiling (tiling : Tiling top tile) (aligned : 2 ^ (order + 1) ∣ start)
    (tiled : tile start = some order) (tiled' : tile (start + 2 ^ order) = some order) :
    Tiling top (merge tile start order) := by
  obtain ⟨small, -, inside⟩ := tiling.within tiled
  have unit : 2 ^ (order + 1) = 2 ^ order + 2 ^ order := by ring
  have positive : 0 < 2 ^ order := Nat.two_pow_pos order
  have fits := tiling.start_add_le tiled'
  have elsewhere : ∀ {other order'}, other ≠ start → other ≠ start + 2 ^ order →
      tile other = some order' → start + 2 ^ (order + 1) ≤ other ∨ other + 2 ^ order' ≤ start := by
    intro other order' first second found
    have := tiling.disjoint tiled found first
    have := tiling.disjoint tiled' found second
    have := Nat.two_pow_pos order'
    omega
  constructor
  · intro other order' found
    rcases merge_eq_some_iff.mp found with ⟨rfl, rfl⟩ | ⟨-, -, found⟩
    · refine ⟨?_, aligned, inside⟩
      by_contra large
      have whole := Nat.pow_le_pow_right (Nat.two_pos) (Nat.le_of_lt_succ (Nat.lt_of_not_ge large))
      omega
    · exact tiling.within found
  · intro first order₁ second order₂ found₁ found₂ above below
    rcases merge_eq_some_iff.mp found₁ with ⟨here₁, rfl⟩ | ⟨apart₁, apart₁', there₁⟩ <;>
      rcases merge_eq_some_iff.mp found₂ with ⟨here₂, rfl⟩ | ⟨apart₂, apart₂', there₂⟩
    · omega
    · have := elsewhere apart₂ apart₂' there₂
      have := Nat.two_pow_pos order₂
      omega
    · have := elsewhere apart₁ apart₁' there₁
      omega
    · exact tiling.apart there₁ there₂ above below
  · intro page bound
    obtain ⟨from', order', found, above, below⟩ := tiling.covered _ bound
    by_cases joined : from' = start ∨ from' = start + 2 ^ order
    · refine ⟨start, order + 1, merge_eq_some_iff.mpr (.inl ⟨rfl, rfl⟩), ?_, ?_⟩ <;>
        rcases joined with rfl | rfl
      · exact above
      · omega
      · cases Option.some.inj (tiled.symm.trans found)
        omega
      · cases Option.some.inj (tiled'.symm.trans found)
        omega
    · exact ⟨from', order', merge_eq_some_iff.mpr (.inr ⟨by omega, by omega, found⟩), above, below⟩

/-- A tiling without two buddies of one order is a single block. -/
theorem eq_single (tiling : Tiling top tile)
    (unpaired : ∀ start order, tile start = some order → tile (buddy start order) ≠ some order) :
    tile 0 = some top := by
  have some_order : ∃ order start, tile start = some order := by
    obtain ⟨start, order, found, -, -⟩ := tiling.covered 0 (Nat.two_pow_pos top)
    exact ⟨order, start, found⟩
  classical
  obtain ⟨start, found⟩ := Nat.find_spec some_order
  obtain ⟨small, aligned, inside⟩ := tiling.within found
  rcases Nat.lt_or_eq_of_le small with proper | whole
  · obtain ⟨order', le, found'⟩ := tiling.buddy_tiled found proper
    have least := Nat.find_min' some_order ⟨_, found'⟩
    cases Nat.le_antisymm le least
    exact absurd found' (unpaired start _ found)
  · rw [whole] at aligned found
    rwa [Nat.eq_zero_of_dvd_of_lt aligned inside] at found

/-- A block of the top order is the only one. -/
theorem eq_zero_of_top (tiling : Tiling top tile) (tiled : tile 0 = some top)
    (tiled' : tile start = some order) : start = 0 := by
  refine tiling.apart tiled tiled' (Nat.zero_le _) ?_
  rw [Nat.zero_add]
  exact (tiling.within tiled').2.2

end Tiling

end WalnutOs.Lib
