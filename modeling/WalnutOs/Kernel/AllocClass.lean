import WalnutOs.Kernel.AllocRegion
import Mathlib.Order.Bounds.Defs

/-! The size class of `kalloc`: the list computed is the least one whose blocks hold the request. -/

namespace WalnutOs.Kernel

variable {size : BitVec 32}

theorem isLeast_listIndex (small : size.toNat ≤ 2 ^ 31) :
    IsLeast {k : Nat | size.toNat ≤ 2 ^ k * 4096} (listIndex size).toNat := by
  obtain ⟨positive, rounded⟩ := two_pow_listIndex small
  constructor
  · change size.toNat ≤ 2 ^ (listIndex size).toNat * 4096
    rw [rounded]
    exact (Nat.le_max_left _ _).trans (Nat.le_pow_clog Nat.one_lt_two _)
  · intro k enough
    change size.toNat ≤ 2 ^ k * 4096 at enough
    have page : 4096 ≤ 2 ^ k * 4096 := Nat.le_mul_of_pos_left 4096 (Nat.two_pow_pos k)
    have holds : max size.toNat 4096 ≤ 2 ^ (k + 12) := by
      rw [Nat.pow_add]
      exact Nat.max_le.mpr ⟨enough, page⟩
    have few := Nat.clog_le_of_le_pow holds
    rw [listIndex_eq, if_pos small]
    omega

/-- Up to `2 ^ 31` bytes the list is the least one with blocks that are large enough; beyond
them the list computed is none, and `kalloc` returns null. -/
theorem listIndex_minimal (size : BitVec 32) (alloc : BuddyAllocator) :
    (size.toNat ≤ 2 ^ 31 → ∃ k : Nat, listIndex size = k ∧ IsLeast {k : Nat | size.toNat ≤ 2 ^ k * 4096} k) ∧
      (2 ^ 31 < size.toNat → 64 ≤ listIndex size ∧ alloc.kalloc size = .ok (none, alloc)) := by
  constructor
  · intro small
    obtain ⟨positive, -⟩ := two_pow_listIndex small
    exact ⟨(listIndex size).toNat, (Int.toNat_of_nonneg positive).symm, isLeast_listIndex small⟩
  · intro huge
    refine ⟨?_, BuddyAllocator.kalloc_huge huge⟩
    rw [listIndex_eq, if_neg (Nat.not_le_of_lt huge)]
    decide

/-- A request for one byte more than two pages takes four. -/
theorem listIndex_minimal_pages : (∃ k : Nat, listIndex 8193 = k ∧
      IsLeast {k : Nat | (8193 : BitVec 32).toNat ≤ 2 ^ k * 4096} k) ∧
    64 ≤ listIndex 0x80000001 ∧ BuddyAllocator.constructed.kalloc 0x80000001 =
      .ok (none, BuddyAllocator.constructed) :=
  ⟨(listIndex_minimal 8193 .constructed).1 (by decide),
    (listIndex_minimal 0x80000001 .constructed).2 (by decide)⟩

end WalnutOs.Kernel
