import WalnutOs.Klib.Strings
import Mathlib.Data.Nat.Digits.Lemmas

/-! The decimal numbers that `str::into_u32` reads. -/

namespace WalnutOs.Klib.Str

/-- The characters from `'0'` to `'9'`. -/
def IsDigit (ch : Ch) : Prop := 0x30 ≤ ch.toNat ∧ ch.toNat ≤ 0x39

instance (ch : Ch) : Decidable (IsDigit ch) := inferInstanceAs (Decidable (_ ∧ _))

/-- The value of decimal digits, the last one counting ones. -/
def decimal (chars : List Ch) : Nat := Nat.ofDigits 10 (chars.reverse.map fun ch => ch.toNat - 0x30)

theorem decimal_append (chars : List Ch) (ch : Ch) :
    decimal (chars ++ [ch]) = 10 * decimal chars + (ch.toNat - 0x30) := by
  simp [decimal, Nat.ofDigits_cons, Nat.add_comm]

/-- A character that passes the comparison of the loop is a digit. -/
theorem digit_checked : ∀ ch : Ch,
    (BitVec.slt 0x39 ch || BitVec.slt ch 0x30) = !decide (IsDigit ch) := by
  decide +kernel

theorem digit_value {ch : Ch} (digit : IsDigit ch) :
    (ch.signExtend 32 - 0x30 : BitVec 32) = BitVec.ofNat 32 (ch.toNat - 0x30) := by
  obtain ⟨low, high⟩ := digit
  have positive : ch.msb = false := by
    rw [BitVec.msb_eq_false_iff_two_mul_lt]
    omega
  rw [BitVec.signExtend_eq_setWidth_of_msb_false positive]
  bv_omega

theorem chars_succ (string : Nat → Ch) (place : Nat) :
    (List.range (place + 1)).map string = (List.range place).map string ++ [string place] := by
  rw [List.range_succ, List.map_append, List.map_singleton]

theorem decimal_lt {chars : List Ch} (digits : ∀ ch ∈ chars, IsDigit ch) :
    decimal chars < 10 ^ chars.length := by
  induction chars using List.reverseRecOn with
  | nil => decide
  | append_singleton chars ch ih =>
    have before := ih fun other member => digits other (List.mem_append_left _ member)
    have last := (digits ch (by simp)).2
    rw [decimal_append, List.length_append, List.length_singleton, pow_succ]
    omega

/-- What the loop does with the sum of all digits: only adding the tenth one can wrap. -/
def total (sum : Nat) : Except Unit (BitVec 32) :=
  if sum % 2 ^ 32 < sum % 10 ^ 9 then .error () else .ok (BitVec.ofNat 32 sum)

theorem total_small {sum : Nat} (small : sum < 10 ^ 9) : total sum = .ok (BitVec.ofNat 32 sum) := by
  rw [total, Nat.mod_eq_of_lt small, Nat.mod_eq_of_lt (by omega), if_neg (Nat.lt_irrefl sum)]

/-- One turn of the loop on a digit: the sum before it was below its place value. -/
theorem intoU32Loop_digit {string : Nat → Ch} {place done sum : Nat} (digit : IsDigit (string place))
    (few : done ≤ 9) (small : sum < 10 ^ done) :
    intoU32Loop string (place + 1) (BitVec.ofNat 32 (10 ^ done)) (BitVec.ofNat 32 sum)
        (BitVec.ofNat 32 sum) =
      if (sum + ((string place).toNat - 0x30) * 10 ^ done) % 2 ^ 32 < sum then .error ()
      else intoU32Loop string place (BitVec.ofNat 32 (10 ^ (done + 1)))
        (BitVec.ofNat 32 (sum + ((string place).toNat - 0x30) * 10 ^ done))
        (BitVec.ofNat 32 (sum + ((string place).toNat - 0x30) * 10 ^ done)) := by
  have fits : sum < 2 ^ 32 :=
    Nat.lt_of_lt_of_le small (Nat.le_trans (Nat.pow_le_pow_right (by decide) few) (by decide))
  have added : (BitVec.ofNat 32 sum + ((string place).signExtend 32 - 0x30) *
      BitVec.ofNat 32 (10 ^ done) : BitVec 32) =
      BitVec.ofNat 32 (sum + ((string place).toNat - 0x30) * 10 ^ done) := by
    rw [digit_value digit, ← BitVec.ofNat_mul, ← BitVec.ofNat_add]
  have scaled : (BitVec.ofNat 32 (10 ^ done) * 10 : BitVec 32) = BitVec.ofNat 32 (10 ^ (done + 1)) := by
    rw [pow_succ, BitVec.ofNat_mul]
    rfl
  rw [intoU32Loop, digit_checked, added, scaled]
  simp only [digit, decide_true, Bool.not_true, Bool.false_eq_true, if_false, BitVec.lt_def,
    BitVec.toNat_ofNat, Nat.mod_eq_of_lt fits]

/-- The loop adds the digits that are left to the sum of those behind them. -/
theorem intoU32Loop_eq (string : Nat → Ch) (left : Nat) :
    ∀ done sum : Nat, done ≤ 9 → done + left ≤ 10 → sum < 10 ^ done →
      intoU32Loop string left (BitVec.ofNat 32 (10 ^ done)) (BitVec.ofNat 32 sum)
          (BitVec.ofNat 32 sum) =
        if ∀ ch ∈ (List.range left).map string, IsDigit ch then
          total (sum + decimal ((List.range left).map string) * 10 ^ done) else .error () := by
  induction left with
  | zero =>
    intro done sum few _ small
    have below : sum < 10 ^ 9 := Nat.lt_of_lt_of_le small (Nat.pow_le_pow_right (by decide) few)
    simpa [intoU32Loop, decimal] using (total_small below).symm
  | succ left ih =>
    intro done sum few fits small
    by_cases digit : IsDigit (string left)
    · have placed : (string left).toNat - 0x30 ≤ 9 := by
        have := digit.2
        omega
      have weight : sum + ((string left).toNat - 0x30) * 10 ^ done < 10 ^ (done + 1) := by
        rw [pow_succ]
        nlinarith [Nat.mul_le_mul_right (10 ^ done) placed]
      have whole : sum + decimal ((List.range (left + 1)).map string) * 10 ^ done =
          sum + ((string left).toNat - 0x30) * 10 ^ done +
            decimal ((List.range left).map string) * 10 ^ (done + 1) := by
        rw [chars_succ, decimal_append, pow_succ]
        ring
      rw [intoU32Loop_digit digit few small, whole]
      simp only [chars_succ, List.mem_append, List.mem_singleton, or_imp, forall_and, forall_eq, digit,
        and_true]
      rcases Nat.lt_or_eq_of_le few with fewer | rfl
      · have below : sum + ((string left).toNat - 0x30) * 10 ^ done < 10 ^ 9 :=
          Nat.lt_of_lt_of_le weight (Nat.pow_le_pow_right (by decide) fewer)
        rw [Nat.mod_eq_of_lt (by omega), if_neg (by omega)]
        exact ih (done + 1) _ fewer (by omega) weight
      · obtain rfl : left = 0 := by omega
        have low : sum % 1000000000 = sum := Nat.mod_eq_of_lt small
        simp [intoU32Loop, total, decimal, low]
    · have missing : ¬∀ ch ∈ (List.range (left + 1)).map string, IsDigit ch := fun all =>
        digit (all _ (by simp [chars_succ]))
      rw [intoU32Loop, digit_checked, if_neg missing]
      simp [digit]

theorem length_chars (string : Str) : string.chars.length = string.len := by
  rw [chars, List.length_map, List.length_range]

/-- `into_u32` answers with the sum of the digits as the loop adds it. -/
theorem intoU32_eq (string : Str) : string.intoU32 =
    if 1 ≤ string.chars.length ∧ string.chars.length ≤ 10 ∧ ∀ ch ∈ string.chars, IsDigit ch then
      total (decimal string.chars) else .error () := by
  have sized : (string.size > 10 ∨ string.size = 0) ↔ ¬(1 ≤ string.len ∧ string.len ≤ 10) := by
    rw [len]
    bv_omega
  rw [intoU32, length_chars]
  by_cases fits : 1 ≤ string.len ∧ string.len ≤ 10
  · rw [if_neg (by rw [sized, not_not]; exact fits)]
    have looped := intoU32Loop_eq string.string string.len 0 0 (by decide) (by omega) (by decide)
    simpa [fits, chars] using looped
  · rw [if_pos (sized.mpr fits), if_neg fun all => fits ⟨all.1, all.2.1⟩]

/-- `into_u32` gives the value of one to ten decimal digits if it is below `2 ^ 32`,
and an error for everything else. -/
def ParsesExactly (string : Str) : Prop := ∀ value : BitVec 32, string.intoU32 = .ok value ↔
  1 ≤ string.chars.length ∧ string.chars.length ≤ 10 ∧ (∀ ch ∈ string.chars, IsDigit ch) ∧
    decimal string.chars < 2 ^ 32 ∧ value.toNat = decimal string.chars

/-- The values of ten digits whose excess the last addition does not show. -/
def Undetected (value : Nat) : Prop :=
  5 * 10 ^ 9 ≤ value ∧ value < 2 ^ 33 ∨ 9 * 10 ^ 9 ≤ value

theorem total_iff {sum : Nat} (bound : sum < 10 ^ 10) :
    (∀ value : BitVec 32, total sum = .ok value ↔ sum < 2 ^ 32 ∧ value.toNat = sum) ↔
      ¬Undetected sum := by
  unfold total Undetected
  constructor
  · intro exact undetected
    rw [if_neg (by omega)] at exact
    have := ((exact _).mp rfl).1
    omega
  · intro detected value
    by_cases fits : sum < 2 ^ 32
    · rw [if_neg (by omega), Except.ok.injEq, eq_comm]
      bv_omega
    · rw [if_pos (by omega)]
      exact iff_of_false nofun fun within => fits within.1

/-- Ten digits whose value is from `5 * 10 ^ 9` up to `2 ^ 33`, or at least
`9 * 10 ^ 9`, are all that `into_u32` gets wrong: it answers with the value modulo `2 ^ 32`. -/
theorem intoU32_exact_iff (string : Str) : string.ParsesExactly ↔
    ¬(string.chars.length = 10 ∧ (∀ ch ∈ string.chars, IsDigit ch) ∧
      Undetected (decimal string.chars)) := by
  unfold ParsesExactly
  by_cases digits : 1 ≤ string.chars.length ∧ string.chars.length ≤ 10 ∧
      ∀ ch ∈ string.chars, IsDigit ch
  · have bound := decimal_lt digits.2.2
    have widest : decimal string.chars < 10 ^ 10 :=
      Nat.lt_of_lt_of_le bound (Nat.pow_le_pow_right (by decide) digits.2.1)
    have long : Undetected (decimal string.chars) → string.chars.length = 10 := by
      intro undetected
      by_contra short
      have below : decimal string.chars < 10 ^ 9 :=
        Nat.lt_of_lt_of_le bound (Nat.pow_le_pow_right (by decide) (by omega))
      unfold Undetected at undetected
      omega
    have answer : string.intoU32 = total (decimal string.chars) := by
      rw [intoU32_eq, if_pos digits]
    simp only [answer, digits.1, digits.2.1, eq_true digits.2.2, true_and]
    rw [total_iff widest]
    exact ⟨fun detected whole => detected whole.2, fun whole undetected =>
      whole ⟨long undetected, undetected⟩⟩
  · have answer : string.intoU32 = .error () := by rw [intoU32_eq, if_neg digits]
    constructor
    · intro _ whole
      exact digits ⟨by omega, by omega, whole.2.1⟩
    · intro _ value
      rw [answer]
      exact iff_of_false nofun fun all => digits ⟨all.1, all.2.1, all.2.2.1⟩

/-- `"5000000000"` is read as 705032704. -/
theorem not_intoU32_exact : ¬∀ string : Str, string.ParsesExactly := by
  intro claim
  have read : (literal [0x35, 0x30, 0x30, 0x30, 0x30, 0x30, 0x30, 0x30, 0x30, 0x30]).intoU32 =
      .ok 705032704 := by decide +kernel
  have value := ((claim _ _).mp read).2.2.2.2
  revert value
  decide +kernel

end WalnutOs.Klib.Str
