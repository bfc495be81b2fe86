import Mathlib.Data.Fintype.Basic
import Mathlib.Tactic.Common

/-! Single bits of fixed-width masks, as `mask | 1 << n`, `mask & ~(1 << n)` and
`mask ^ 1 << n` set, clear and toggle them. -/

namespace WalnutOs.Lib.Bits

variable {w : Nat} {mask : BitVec w} {n bit : Nat}

theorem getLsbD_one_shift (inside : bit < w) :
    (1#w <<< n).getLsbD bit = decide (bit = n) := by
  rw [BitVec.getLsbD_shiftLeft, BitVec.getLsbD_one]
  by_cases same : bit = n
  · subst same
    simp [inside, Nat.zero_lt_of_lt inside]
  · by_cases below : bit < n
    · simp [below, same]
    · have apart : bit - n ≠ 0 := by omega
      simp [apart, same]

theorem getLsbD_set (inside : bit < w) :
    (mask ||| 1#w <<< n).getLsbD bit = (mask.getLsbD bit || decide (bit = n)) := by
  rw [BitVec.getLsbD_or, getLsbD_one_shift inside]

theorem getLsbD_clear (inside : bit < w) :
    (mask &&& ~~~(1#w <<< n)).getLsbD bit = (mask.getLsbD bit && !decide (bit = n)) := by
  rw [BitVec.getLsbD_and, BitVec.getLsbD_not, getLsbD_one_shift inside, decide_eq_true inside,
    Bool.true_and]

theorem getLsbD_toggle (inside : bit < w) :
    (mask ^^^ 1#w <<< n).getLsbD bit = (mask.getLsbD bit ^^ decide (bit = n)) := by
  rw [BitVec.getLsbD_xor, getLsbD_one_shift inside]

theorem getLsbD_ofBool_shift {value : Bool} (inside : bit < w) :
    ((BitVec.ofBool value).setWidth w <<< n).getLsbD bit = (decide (bit = n) && value) := by
  rw [BitVec.getLsbD_shiftLeft, BitVec.getLsbD_setWidth, BitVec.getLsbD_ofBool]
  by_cases same : bit = n
  · subst same
    simp [inside, Nat.zero_lt_of_lt inside]
  · by_cases below : bit < n
    · simp [below, same]
    · have apart : bit - n ≠ 0 := by omega
      simp [apart, same]

/-- A bit that is cleared and then set to a value, as `mask & ~(1 << n) | value << n`. -/
theorem getLsbD_put {value : Bool} (inside : bit < w) :
    (mask &&& ~~~(1#w <<< n) ||| (BitVec.ofBool value).setWidth w <<< n).getLsbD bit =
      if bit = n then value else mask.getLsbD bit := by
  rw [BitVec.getLsbD_or, getLsbD_clear inside, getLsbD_ofBool_shift inside]
  by_cases same : bit = n
  · simp [same]
  · simp [same]

/-- A bit that is moved down to be compared, as `(mask & 1 << n) >> n`. -/
theorem and_one_shift (inside : n < w) :
    (mask &&& 1#w <<< n) >>> n = (BitVec.ofBool (mask.getLsbD n)).setWidth w := by
  apply BitVec.eq_of_getLsbD_eq
  intro bit below
  rw [BitVec.getLsbD_ushiftRight, BitVec.getLsbD_and, BitVec.getLsbD_setWidth, BitVec.getLsbD_ofBool,
    decide_eq_true below, Bool.true_and]
  by_cases lowest : bit = 0
  · rw [lowest, Nat.add_zero, getLsbD_one_shift inside]
    simp
  · by_cases far : n + bit < w
    · rw [getLsbD_one_shift far]
      simp [lowest]
    · rw [BitVec.getLsbD_of_ge mask _ (Nat.le_of_not_lt far)]
      simp [lowest]

/-- The bits that are set. -/
def ones (mask : BitVec w) : Finset (Fin w) := Finset.univ.filter fun bit => mask.getLsbD bit

theorem mem_ones {bit : Fin w} : bit ∈ ones mask ↔ mask.getLsbD bit = true := by
  simp [ones]

theorem ones_set (mask : BitVec w) (bit : Fin w) :
    ones (mask ||| 1#w <<< bit.val) = insert bit (ones mask) := by
  ext other
  simp only [mem_ones, Finset.mem_insert, getLsbD_set other.isLt, Bool.or_eq_true, decide_eq_true_eq,
    Fin.ext_iff, or_comm]

theorem ones_toggle (bit : Fin w) (set : mask.getLsbD bit = true) :
    ones (mask ^^^ 1#w <<< bit.val) = (ones mask).erase bit := by
  ext other
  simp only [mem_ones, Finset.mem_erase, getLsbD_toggle other.isLt]
  by_cases same : other = bit
  · simp [same, set]
  · simp [same, Fin.val_ne_of_ne same]

end WalnutOs.Lib.Bits
