import Mathlib.Data.Nat.Bitwise
import Mathlib.Tactic.Common

/-! Words that are put together from fields with shifts and masks, and the
fields that are read from such words. -/

namespace WalnutOs.Lib.Fields

variable {w n : Nat}

/-- The `width` bits from `start` on, as a number. -/
def field (word : BitVec w) (start width : Nat) : Nat := word.toNat / 2 ^ start % 2 ^ width

/-- A field above all others is added to them. -/
theorem toNat_or_shift {low high : BitVec w} (above : low.toNat < 2 ^ n)
    (inside : high.toNat * 2 ^ n < 2 ^ w) :
    (low ||| high <<< n).toNat = low.toNat + high.toNat * 2 ^ n := by
  have shifted : (high <<< n).toNat = high.toNat <<< n := by
    rw [BitVec.toNat_shiftLeft, Nat.shiftLeft_eq, Nat.mod_eq_of_lt inside]
  rw [BitVec.toNat_or, shifted, Nat.or_comm, ← Nat.shiftLeft_add_eq_or_of_lt above, Nat.shiftLeft_eq,
    Nat.add_comm]

/-- A mask of ones keeps the bits below it. -/
theorem toNat_and_ones {word mask : BitVec w} (ones : mask.toNat = 2 ^ n - 1) :
    (word &&& mask).toNat = word.toNat % 2 ^ n := by
  rw [BitVec.toNat_and, ones, Nat.and_two_pow_sub_one_eq_mod]

/-- Masking in place and then moving is masking the field itself. -/
theorem and_shift_shift {word mask : BitVec w} {start : Nat} :
    (word &&& mask <<< start) <<< n = (word >>> start &&& mask) <<< (start + n) := by
  apply BitVec.eq_of_getLsbD_eq
  intro bit inside
  simp only [BitVec.getLsbD_shiftLeft, BitVec.getLsbD_and, BitVec.getLsbD_ushiftRight, inside, decide_true,
    Bool.true_and]
  rcases Nat.lt_or_ge bit n with below | from_n
  · simp [below, show bit < start + n by omega]
  · rcases Nat.lt_or_ge (bit - n) start with low | high
    · simp [low, show bit < start + n by omega]
    · have place : start + (bit - (start + n)) = bit - n := by omega
      have rest : bit - n - start = bit - (start + n) := by omega
      simp [place, rest, show ¬ bit < n by omega, show ¬ bit < start + n by omega,
        show bit - n < w by omega, show ¬ bit - n < start by omega]

theorem extract_extract {word : BitVec w} {first last start width : Nat} (inside : start + width ≤ last) :
    (word.extractLsb' first last).extractLsb' start width = word.extractLsb' (first + start) width := by
  apply BitVec.eq_of_getLsbD_eq
  intro bit below
  rw [BitVec.getLsbD_extractLsb', BitVec.getLsbD_extractLsb', BitVec.getLsbD_extractLsb',
    decide_eq_true below, decide_eq_true (show start + bit < last by omega), Nat.add_assoc]
  rfl

/-- Replacing the low bits of a word leaves the others. -/
theorem getLsbD_append_high {word : BitVec w} {low : BitVec n} {rest bit : Nat} (whole : n + rest = w)
    (above : n ≤ bit) : (word.extractLsb' n rest ++ low).getLsbD bit = word.getLsbD bit := by
  rw [BitVec.getLsbD_append, if_neg (Nat.not_lt_of_le above), BitVec.getLsbD_extractLsb',
    Nat.add_sub_cancel' above]
  by_cases inside : bit - n < rest
  · rw [decide_eq_true inside, Bool.true_and]
  · rw [decide_eq_false inside, Bool.false_and, BitVec.getLsbD_of_ge _ _ (by omega)]

end WalnutOs.Lib.Fields
