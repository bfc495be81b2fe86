import Mathlib

/-! A stack of words in a memory. It grows down, and a word takes as many addresses
as `unit` says. -/

namespace WalnutOs.Lib.Stack

universe u
variable {w : Nat} {Word : Type u} {unit top : BitVec w} {memory other : BitVec w → Word}
variable {word : Word} {words more : List Word}

/-- The words lie one above the other from `top` on. -/
def Lies (unit : BitVec w) (memory : BitVec w → Word) : BitVec w → List Word → Prop
  | _, [] => True
  | top, word :: rest => memory top = word ∧ Lies unit memory (top + unit) rest

/-- The place of a word, counted from the top. -/
def place (unit top : BitVec w) (index : Nat) : BitVec w := top + BitVec.ofNat w (index * unit.toNat)

theorem place_zero : place unit top 0 = top := by
  rw [place, Nat.zero_mul]
  exact BitVec.add_zero top

theorem place_succ (index : Nat) : place unit top (index + 1) = place unit (top + unit) index := by
  rw [place, place, Nat.succ_mul, Nat.add_comm, BitVec.ofNat_add, BitVec.ofNat_toNat, BitVec.setWidth_eq,
    BitVec.add_assoc]

/-- Only the places of the words matter. -/
theorem Lies.congr (lies : Lies unit memory top words)
    (same : ∀ index < words.length, other (place unit top index) = memory (place unit top index)) :
    Lies unit other top words := by
  induction words generalizing top with
  | nil => trivial
  | cons word rest ih =>
    obtain ⟨here, later⟩ := lies
    refine ⟨?_, ih later fun index inside => ?_⟩
    · have first := same 0 (Nat.succ_pos _)
      rwa [place_zero, here] at first
    · have next := same (index + 1) (Nat.succ_lt_succ inside)
      rwa [place_succ] at next

theorem lies_append : Lies unit memory top (words ++ more) ↔
    Lies unit memory top words ∧ Lies unit memory (place unit top words.length) more := by
  induction words generalizing top with
  | nil => simp [Lies, place_zero]
  | cons word rest ih =>
    rw [List.cons_append, Lies, Lies, ih, List.length_cons, place_succ, and_assoc]

/-- The place below the top is none of those above it, as long as the memory has room. -/
theorem place_ne_below (positive : 0 < unit.toNat) {index : Nat}
    (room : (index + 1) * unit.toNat < 2 ^ w) : place unit top index ≠ top - unit := by
  intro same
  have wrapped : BitVec.ofNat w ((index + 1) * unit.toNat) = 0#w := by
    have moved : place unit top index + unit = top := by rw [same, BitVec.sub_add_cancel]
    have next : place unit top index + unit = top + BitVec.ofNat w ((index + 1) * unit.toNat) := by
      rw [place, Nat.succ_mul, BitVec.ofNat_add, BitVec.ofNat_toNat, BitVec.setWidth_eq, BitVec.add_assoc]
    exact BitVec.add_right_eq_self.mp (next.symm.trans moved)
  have value := congrArg BitVec.toNat wrapped
  rw [BitVec.toNat_ofNat, Nat.mod_eq_of_lt room, BitVec.toNat_ofNat, Nat.zero_mod] at value
  exact absurd value (Nat.ne_of_gt (Nat.mul_pos (Nat.succ_pos index) positive))

/-- A word is pushed below the others. -/
theorem Lies.push (lies : Lies unit memory top words) (positive : 0 < unit.toNat)
    (room : (words.length + 1) * unit.toNat ≤ 2 ^ w) (word : Word) :
    Lies unit (Function.update memory (top - unit) word) (top - unit) (word :: words) := by
  refine ⟨Function.update_self .., ?_⟩
  rw [BitVec.sub_add_cancel]
  refine lies.congr fun index inside => Function.update_of_ne (place_ne_below positive ?_) ..
  have fewer : (index + 1) * unit.toNat ≤ words.length * unit.toNat := Nat.mul_le_mul_right _ inside
  rw [Nat.succ_mul] at room
  omega

end WalnutOs.Lib.Stack
