import WalnutOs.Klib.Drive
import Mathlib.Tactic.Common

/-! The two `memset` of `klib/util.hh` and `klib/util.cc`, whose loops store through a
pointer that they do not advance. -/

namespace WalnutOs.Klib

universe u
variable {T : Type u}

/-- `for (usize i = 0; i < count; ++i) { *t_ptr = value; }`, over memory of elements. -/
def storeLoop (memory : Nat → T) (ptr : Nat) (value : T) (count : Nat) : Nat → T :=
  (List.range count).foldl (fun memory _ => Function.update memory ptr value) memory

/-- `util::memset<T>`. -/
def memset (memory : Nat → T) (ptr : Nat) (value : T) (count : BitVec 32) : Nat → T :=
  storeLoop memory ptr value count.toNat

/-- The `memset` that the compiler calls, with the pointer that it returns. -/
def memsetBytes (memory : Nat → Byte) (ptr : Nat) (ch count : BitVec 32) : Nat × (Nat → Byte) :=
  (ptr, storeLoop memory ptr (ch.setWidth 8) count.toNat)

/-- The range has the value and the rest of the memory is as it was. -/
def Filled (memory after : Nat → T) (ptr : Nat) (value : T) (count : Nat) : Prop :=
  (∀ i < count, after (ptr + i) = value) ∧
    ∀ place, place < ptr ∨ ptr + count ≤ place → after place = memory place

/-- The range has the value from its second element on. -/
def FilledBehind (memory : Nat → T) (ptr : Nat) (value : T) (count : Nat) : Prop :=
  ∀ i < count, 1 ≤ i → memory (ptr + i) = value

variable {memory : Nat → T} {ptr count : Nat} {value : T}

/-- Every turn of the loop stores the first element. -/
theorem storeLoop_succ (memory : Nat → T) (ptr : Nat) (value : T) (count : Nat) :
    storeLoop memory ptr value (count + 1) = Function.update memory ptr value := by
  induction count with
  | zero => rfl
  | succ count ih =>
    rw [storeLoop, List.range_succ, List.foldl_append]
    change Function.update (storeLoop memory ptr value (count + 1)) ptr value = _
    rw [ih, Function.update_idem]

/-- Only the first element is set, and nothing outside of the range. -/
theorem storeLoop_apply (place : Nat) : storeLoop memory ptr value count place =
    if place = ptr ∧ 0 < count then value else memory place := by
  cases count with
  | zero => exact (if_neg fun inside => Nat.lt_irrefl 0 inside.2).symm
  | succ count =>
    rw [storeLoop_succ, Function.update_apply]
    exact if_congr (and_iff_left (Nat.succ_pos count)).symm rfl rfl

theorem storeLoop_filled_iff : Filled memory (storeLoop memory ptr value count) ptr value count ↔
    FilledBehind memory ptr value count := by
  constructor
  · rintro ⟨filled, -⟩ i inside behind
    have stored := filled i inside
    rwa [storeLoop_apply, if_neg fun first => by omega] at stored
  · intro filled
    refine ⟨fun i inside => ?_, fun place outside => ?_⟩
    · rw [storeLoop_apply]
      split
      · rfl
      · exact filled i inside (by omega)
    · rw [storeLoop_apply, if_neg fun first => by omega]

/-- Both fill a range exactly if it has the value already, its first element apart. -/
theorem memset_filled_iff (memory : Nat → T) (bytes : Nat → Byte) (ptr : Nat) (value : T)
    (ch count : BitVec 32) :
    (Filled memory (memset memory ptr value count) ptr value count.toNat ↔
      FilledBehind memory ptr value count.toNat) ∧
    (Filled bytes (memsetBytes bytes ptr ch count).2 ptr (ch.setWidth 8) count.toNat ↔
      FilledBehind bytes ptr (ch.setWidth 8) count.toNat) :=
  ⟨storeLoop_filled_iff, storeLoop_filled_iff⟩

/-- Of two bytes that are to be cleared the second keeps its value. -/
theorem not_memset_filled : ¬∀ (memory : Nat → Byte) (ptr : Nat) (value : Byte) (count : BitVec 32),
    Filled memory (memset memory ptr value count) ptr value count.toNat := by
  intro claim
  exact absurd ((claim (fun _ => 0xFF) 0 0 2).1 1 (by decide)) (by decide)

end WalnutOs.Klib
