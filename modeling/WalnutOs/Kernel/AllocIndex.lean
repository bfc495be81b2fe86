import WalnutOs.Kernel.Alloc
import WalnutOs.Lib.Tiling
import Mathlib.Data.Nat.Log

/-! The arithmetic of the page allocator: addresses, buddies, and the list that
a request is served from. -/

namespace WalnutOs.Kernel

open WalnutOs.Lib

theorem addrToIndex_indexToAddr (idx : BlockIndex) : addrToIndex (indexToAddr idx) = some idx := by
  have inside := idx.isLt
  have index : (indexToAddr idx + (2 ^ 32 - blockOffset)) % 2 ^ 32 / 0x1000 = idx.val := by
    simp only [indexToAddr, blockOffset]
    omega
  simp only [addrToIndex, index, numBlocks, inside, dif_pos]

/-- A page behind the 64 has no block. -/
theorem addrToIndex_behind {addr : Nat} (behind : blockOffset + 64 * 4096 ≤ addr) (bound : addr < 2 ^ 32) :
    addrToIndex addr = none := by
  have index : (addr + (2 ^ 32 - blockOffset)) % 2 ^ 32 / 0x1000 = (addr - blockOffset) / 0x1000 := by
    simp only [blockOffset] at behind ⊢
    omega
  have outside : ¬(addr - blockOffset) / 0x1000 < numBlocks := by
    simp only [blockOffset, numBlocks] at behind ⊢
    omega
  simp only [addrToIndex, index, outside, dif_neg, not_false_eq_true]

theorem indexToAddr_inj {idx other : BlockIndex} (same : indexToAddr idx = indexToAddr other) :
    idx = other := by
  simp only [indexToAddr, blockOffset] at same
  exact Fin.ext (by omega)

theorem lower_val (idx other : BlockIndex) : (lower idx other).val = min idx.val other.val := by
  unfold lower
  split
  · rename_i above
    exact (min_eq_right (Nat.le_of_lt above)).symm
  · rename_i below
    exact (min_eq_left (Nat.le_of_not_lt below)).symm

/-- The middle of a block of order `j + 1`, which the larger lists of the
constructor put past the end. -/
theorem addrToIndex_middle (head : BlockIndex) {j : Nat} (small : j ≤ 8) :
    addrToIndex (indexToAddr head + 2 ^ (j + smallestBlockSize)) =
      if inside : head.val + 2 ^ j < 64 then some ⟨head.val + 2 ^ j, inside⟩ else none := by
  have below := head.isLt
  have size : 2 ^ j ≤ 2 ^ 8 := Nat.pow_le_pow_right Nat.two_pos small
  have page : 2 ^ (j + smallestBlockSize) = 2 ^ j * 0x1000 := by
    rw [smallestBlockSize, Nat.pow_add]
  have index : (indexToAddr head + 2 ^ (j + smallestBlockSize) + (2 ^ 32 - blockOffset)) % 2 ^ 32 /
      0x1000 = head.val + 2 ^ j := by
    simp only [page, indexToAddr, blockOffset]
    omega
  simp only [addrToIndex, index, numBlocks]

/-- Inside the 64 pages the address arithmetic finds the buddy. -/
theorem buddyOf_eq_some {idx : BlockIndex} {order : Nat} (aligned : 2 ^ order ∣ idx.val)
    (proper : order < 6) : ∃ other, buddyOf idx order = some other ∧ other.val = buddy idx.val order := by
  have all : ∀ idx : BlockIndex, ∀ order : Fin 6, 2 ^ order.val ∣ idx.val →
      (buddyOf idx order.val).map Fin.val = some (buddy idx.val order.val) := by decide +kernel
  simpa only [Option.map_eq_some_iff] using all idx ⟨order, proper⟩ aligned

/-- The block of all pages has no buddy. -/
theorem buddyOf_whole : buddyOf 0 6 = none := by decide +kernel

/-- Inside the 64 pages a block that has a buddy is not the whole. -/
theorem buddyOf_spec {idx other : BlockIndex} {order : Nat} (aligned : 2 ^ order ∣ idx.val)
    (small : order ≤ 6) (found : buddyOf idx order = some other) :
    order < 6 ∧ other.val = buddy idx order := by
  rcases Nat.lt_or_eq_of_le small with proper | rfl
  · obtain ⟨other', found', value⟩ := buddyOf_eq_some aligned proper
    cases Option.some.inj (found.symm.trans found')
    exact ⟨proper, value⟩
  · have zero : idx = 0 := Fin.ext (Nat.eq_zero_of_dvd_of_lt aligned idx.isLt)
    rw [zero, buddyOf_whole] at found
    cases found

theorem buddyOf_none {idx other : BlockIndex} {order : Nat} (aligned : 2 ^ order ∣ idx.val)
    (small : order ≤ 6) (missing : buddyOf idx order = none) : other.val ≠ buddy idx order := by
  rcases Nat.lt_or_eq_of_le small with proper | rfl
  · obtain ⟨other', found, -⟩ := buddyOf_eq_some aligned proper
    rw [missing] at found
    cases found
  · have zero : idx.val = 0 := Nat.eq_zero_of_dvd_of_lt aligned idx.isLt
    rw [zero, buddy_low (Nat.dvd_zero _)]
    have inside := other.isLt
    omega

theorem log2Loop_eq {bits bound : Nat} {num : BitVec 32} (count : BitVec 8)
    (low : 2 ^ bits ≤ num.toNat) (high : num.toNat < 2 ^ (bits + 1)) (enough : bits < bound) :
    log2Loop bound num count = count + BitVec.ofNat 8 (bits + 1) := by
  induction bits generalizing bound num count with
  | zero =>
    obtain ⟨bound, rfl⟩ := Nat.exists_eq_succ_of_ne_zero (Nat.ne_zero_of_lt enough)
    have one : num = 1#32 := by
      apply BitVec.eq_of_toNat_eq
      simp only [pow_zero, zero_add, pow_one] at low high
      simp only [BitVec.toNat_ofNat]
      omega
    subst one
    cases bound <;> rfl
  | succ bits ih =>
    obtain ⟨bound, rfl⟩ := Nat.exists_eq_succ_of_ne_zero (Nat.ne_zero_of_lt enough)
    have nonzero : num ≠ 0#32 := by
      rintro rfl
      simp at low
    have half : (num >>> 1).toNat = num.toNat / 2 := by
      simp [Nat.shiftRight_eq_div_pow]
    have rest : log2Loop bound (num >>> 1) (count + 1#8) = count + 1#8 + BitVec.ofNat 8 (bits + 1) :=
      ih (count + 1#8) (by rw [half]; omega) (by rw [half]; omega) (by omega)
    rw [log2Loop, if_neg nonzero, rest]
    apply BitVec.eq_of_toNat_eq
    simp only [BitVec.toNat_add, BitVec.toNat_ofNat]
    omega

theorem log2_toNat {num : BitVec 32} (positive : num ≠ 0#32) : (log2 num).toNat = Nat.log 2 num.toNat := by
  have nonzero : num.toNat ≠ 0 := fun zero => positive (BitVec.eq_of_toNat_eq (by simpa using zero))
  have small : Nat.log 2 num.toNat < 32 := Nat.log_lt_of_lt_pow nonzero num.isLt
  rw [log2, log2Loop_eq (-1#8) (Nat.pow_log_le_self 2 nonzero)
    (Nat.lt_pow_succ_log_self Nat.one_lt_two _) small]
  simp only [BitVec.toNat_add, BitVec.toNat_ofNat, BitVec.toNat_neg]
  omega

/-- Spreading a number's bits down does not lengthen it. -/
theorem spread_lt {num : BitVec 32} {bits : Nat} (shift : Nat) (high : num.toNat < 2 ^ bits) :
    (num ||| num >>> shift).toNat < 2 ^ bits := by
  rw [BitVec.toNat_or]
  refine Nat.or_lt_two_pow high ?_
  rw [BitVec.toNat_ushiftRight]
  exact lt_of_le_of_lt (Nat.shiftRight_le _ _) high

/-- Spreading doubles the ones from the highest bit down. -/
theorem spread_ones {num : BitVec 32} {top shift : Nat}
    (ones : ∀ bit ≤ top, top < bit + shift → num.getLsbD bit = true) :
    ∀ bit ≤ top, top < bit + 2 * shift → (num ||| num >>> shift).getLsbD bit = true := by
  intro bit low high
  rw [BitVec.getLsbD_or, BitVec.getLsbD_ushiftRight, Bool.or_eq_true]
  by_cases near : top < bit + shift
  · exact .inl (ones bit low near)
  · exact .inr (ones (shift + bit) (by omega) (by omega))

theorem toNat_of_ones {num : BitVec 32} {top : Nat} (high : num.toNat < 2 ^ (top + 1))
    (ones : ∀ bit ≤ top, num.getLsbD bit = true) : num.toNat = 2 ^ (top + 1) - 1 := by
  apply Nat.eq_of_testBit_eq
  intro bit
  rw [Nat.testBit_two_pow_sub_one]
  by_cases low : bit < top + 1
  · rw [decide_eq_true low]
    exact ones bit (Nat.le_of_lt_succ low)
  · rw [decide_eq_false low]
    exact Nat.testBit_lt_two_pow
      (Nat.lt_of_lt_of_le high (Nat.pow_le_pow_right Nat.two_pos (Nat.le_of_not_lt low)))

/-- Rounding up gives the least power of two that is not smaller, in 32 bits. -/
theorem roundUpPow2_toNat {num : BitVec 32} (large : 2 ≤ num.toNat) :
    (roundUpPow2 num).toNat = 2 ^ Nat.clog 2 num.toNat % 2 ^ 32 := by
  have bound := num.isLt
  have less : (num - 1#32).toNat = num.toNat - 1 := by
    rw [BitVec.toNat_sub]
    simp only [BitVec.toNat_ofNat]
    omega
  obtain ⟨top, size⟩ : ∃ top, Nat.clog 2 num.toNat = top + 1 :=
    Nat.exists_eq_succ_of_ne_zero (Nat.ne_of_gt (Nat.clog_pos Nat.one_lt_two large))
  have low : 2 ^ top < num.toNat := (Nat.lt_clog_iff_pow_lt Nat.one_lt_two).mp (by omega)
  have high : num.toNat ≤ 2 ^ (top + 1) := size ▸ Nat.le_pow_clog Nat.one_lt_two num.toNat
  have short : top < 32 := (Nat.pow_lt_pow_iff_right Nat.one_lt_two).mp (low.trans bound)
  have start : (num - 1#32).toNat < 2 ^ (top + 1) := by omega
  have first : ∀ bit ≤ top, top < bit + 1 → (num - 1#32).getLsbD bit = true := by
    intro bit below above
    obtain rfl : bit = top := by omega
    rw [BitVec.getLsbD, less]
    exact Nat.testBit_of_two_pow_le_and_two_pow_add_one_gt (by omega) (by omega)
  have ones := spread_ones (spread_ones (spread_ones (spread_ones (spread_ones first))))
  have filled := toNat_of_ones (spread_lt 16 (spread_lt 8 (spread_lt 4 (spread_lt 2 (spread_lt 1 start)))))
    fun bit below => ones bit below (by omega)
  rw [roundUpPow2, BitVec.toNat_add, filled, size]
  congr 1
  have positive := Nat.two_pow_pos (top + 1)
  simp only [BitVec.toNat_ofNat]
  omega

/-- The list is that of the least power of two pages that holds the request; past
`2 ^ 31` bytes there is none. -/
theorem listIndex_eq (size : BitVec 32) : listIndex size =
    if size.toNat ≤ 2 ^ 31 then (Nat.clog 2 (max size.toNat 4096) : Int) - 12 else 243 := by
  have twelve : (smallestBlockSize : Int) = 12 := rfl
  have bound := size.isLt
  have adjusted : (if size < 1#32 <<< smallestBlockSize then 1#32 <<< smallestBlockSize else size).toNat =
      max size.toNat 4096 := by
    have smallest : (1#32 <<< smallestBlockSize).toNat = 4096 := by decide
    split
    · rename_i tiny
      rw [BitVec.lt_def, smallest] at tiny
      rw [smallest, Nat.max_eq_right (Nat.le_of_lt tiny)]
    · rename_i large
      rw [BitVec.lt_def, smallest] at large
      rw [Nat.max_eq_left (Nat.le_of_not_lt large)]
  rw [listIndex]
  simp only [twelve]
  generalize (if size < 1#32 <<< smallestBlockSize then 1#32 <<< smallestBlockSize else size) = num
    at adjusted ⊢
  have rounded : (roundUpPow2 num).toNat = 2 ^ Nat.clog 2 num.toNat % 2 ^ 32 :=
    roundUpPow2_toNat (by omega)
  rw [adjusted] at rounded
  split
  · rename_i small
    have few : Nat.clog 2 (max size.toNat 4096) ≤ 31 := Nat.clog_le_of_le_pow (by omega)
    rw [Nat.mod_eq_of_lt (Nat.pow_lt_pow_right Nat.one_lt_two (by omega))] at rounded
    have positive : roundUpPow2 num ≠ 0#32 := by
      intro zero
      rw [zero] at rounded
      exact Nat.ne_of_lt (Nat.two_pow_pos _) rounded
    rw [log2_toNat positive, rounded, Nat.log_pow Nat.one_lt_two]
  · rename_i large
    have many : Nat.clog 2 (max size.toNat 4096) = 32 := by
      refine Nat.le_antisymm (Nat.clog_le_of_le_pow (by omega)) ?_
      exact (Nat.lt_clog_iff_pow_lt Nat.one_lt_two).mpr (by omega)
    rw [many] at rounded
    have zero : roundUpPow2 num = 0#32 := BitVec.eq_of_toNat_eq rounded
    rw [zero]
    decide

theorem twelve_le_clog (bytes : Nat) : 12 ≤ Nat.clog 2 (max bytes 4096) := by
  have least := Nat.clog_mono_right 2 (Nat.le_max_right bytes 4096)
  rwa [show 4096 = 2 ^ 12 by rfl, Nat.clog_pow _ _ Nat.one_lt_two] at least

/-- The blocks of the list computed have the size that the request is rounded up to. -/
theorem two_pow_listIndex {size : BitVec 32} (small : size.toNat ≤ 2 ^ 31) : 0 ≤ listIndex size ∧
    2 ^ (listIndex size).toNat * 4096 = 2 ^ Nat.clog 2 (max size.toNat 4096) := by
  have above := twelve_le_clog size.toNat
  have index : listIndex size = (Nat.clog 2 (max size.toNat 4096) : Int) - 12 := by
    rw [listIndex_eq, if_pos small]
  have sum : (listIndex size).toNat + 12 = Nat.clog 2 (max size.toNat 4096) := by omega
  refine ⟨by omega, ?_⟩
  rw [← sum, Nat.pow_add]

/-- Requests of up to 64 pages are for one of the lists 0 to 6. -/
theorem listIndex_bounds {size : BitVec 32} (small : size.toNat ≤ 64 * 4096) :
    0 ≤ listIndex size ∧ listIndex size ≤ 6 := by
  have above := twelve_le_clog size.toNat
  have below : Nat.clog 2 (max size.toNat 4096) ≤ 18 := Nat.clog_le_of_le_pow (by omega)
  rw [listIndex_eq, if_pos (by omega)]
  omega

end WalnutOs.Kernel
