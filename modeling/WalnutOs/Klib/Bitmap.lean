import WalnutOs.Lib.Bits
import Mathlib.Logic.Function.Basic

/-! The bitmap of `klib/bitmap.hh`, an array of booleans in bytes. -/

namespace WalnutOs.Klib

open WalnutOs.Lib

namespace Bitmap

/-- The size in bytes. -/
def size (S : Nat) : Nat := if S % 8 > 0 then (S + (8 - S % 8)) / 8 else S / 8

theorem size_eq (S : Nat) : size S = (S + 7) / 8 := by
  unfold size
  split <;> omega

end Bitmap

structure Bitmap (S : Nat) where
  map : Fin (Bitmap.size S) → BitVec 8

namespace Bitmap

variable {S : Nat}

/-- A bit of one of the bytes. -/
structure Reference (S : Nat) where
  ref : Fin (size S)
  idx : Nat
  deriving DecidableEq

namespace Reference

def assign (bitmap : Bitmap S) (reference : Reference S) (b : Bool) : Bitmap S :=
  ⟨Function.update bitmap.map reference.ref
    (bitmap.map reference.ref &&& ~~~(1#8 <<< reference.idx) |||
      (BitVec.ofBool b).setWidth 8 <<< reference.idx)⟩

def flip (bitmap : Bitmap S) (reference : Reference S) : Bitmap S :=
  ⟨Function.update bitmap.map reference.ref (bitmap.map reference.ref ^^^ 1#8 <<< reference.idx)⟩

def equals (bitmap : Bitmap S) (reference : Reference S) (b : Bool) : Bool :=
  (bitmap.map reference.ref &&& 1#8 <<< reference.idx) >>> reference.idx = (BitVec.ofBool b).setWidth 8

/-- The conversion to `bool`. -/
def toBool (bitmap : Bitmap S) (reference : Reference S) : Bool := reference.equals bitmap true

end Reference

def setAll (bitmap : Bitmap S) : Bitmap S := ⟨fun byte => bitmap.map byte ||| 0xFF⟩

def clearAll (bitmap : Bitmap S) : Bitmap S := ⟨fun byte => bitmap.map byte &&& 0x00⟩

theorem div_lt_size (i : Fin S) : i.val / 8 < size S := by
  rw [size_eq]
  omega

/-- The `operator[]` that gives a reference. -/
def index (i : Fin S) : Reference S := ⟨⟨i.val / 8, div_lt_size i⟩, i.val % 8⟩

/-- The `operator[]` of a constant bitmap. -/
def get (bitmap : Bitmap S) (i : Fin S) : Bool :=
  bitmap.map ⟨i.val / 8, div_lt_size i⟩ &&& BitVec.ofNat 8 (i.val % 8) ≠ 0#8

inductive Op (S : Nat) where
  | assign (i : Fin S) (b : Bool)
  | flip (i : Fin S)
  | setAll
  | clearAll

def step (bitmap : Bitmap S) : Op S → Bitmap S
  | .assign i b => (index i).assign bitmap b
  | .flip i => (index i).flip bitmap
  | .setAll => bitmap.setAll
  | .clearAll => bitmap.clearAll

/-- What the operations mean for an array of booleans. -/
def arrayStep (values : Fin S → Bool) : Op S → Fin S → Bool
  | .assign i b => Function.update values i b
  | .flip i => Function.update values i (!values i)
  | .setAll => fun _ => true
  | .clearAll => fun _ => false

/-- The booleans that the references read. -/
def values (bitmap : Bitmap S) (i : Fin S) : Bool := (index i).toBool bitmap

variable {bitmap : Bitmap S} {i other : Fin S} {b : Bool}

theorem equals_eq {reference : Reference S} (inside : reference.idx < 8) :
    reference.equals bitmap b = ((bitmap.map reference.ref).getLsbD reference.idx == b) := by
  rw [Reference.equals, Bits.and_one_shift inside]
  cases (bitmap.map reference.ref).getLsbD reference.idx <;> cases b <;> rfl

theorem values_eq : bitmap.values i =
    (bitmap.map ⟨i.val / 8, div_lt_size i⟩).getLsbD (i.val % 8) := by
  rw [values, Reference.toBool, equals_eq (Nat.mod_lt _ (by decide)), beq_true, index]

/-- A byte that is stored holds the values of its eight places. -/
theorem values_update (byte : BitVec 8) :
    (⟨Function.update bitmap.map (index i).ref byte⟩ : Bitmap S).values other =
      if other.val / 8 = i.val / 8 then byte.getLsbD (other.val % 8) else bitmap.values other := by
  rw [values_eq, values_eq]
  dsimp only [index]
  split
  · rename_i same
    have place : (⟨other.val / 8, div_lt_size other⟩ : Fin (size S)) = ⟨i.val / 8, div_lt_size i⟩ :=
      Fin.ext same
    rw [place, Function.update_self]
  · rename_i apart
    rw [Function.update_of_ne (Fin.ne_of_val_ne apart)]

theorem place_eq (same : other.val / 8 = i.val / 8) : other.val % 8 = i.val % 8 ↔ other = i := by
  rw [Fin.ext_iff]
  omega

theorem values_assign : ((index i).assign bitmap b).values = Function.update bitmap.values i b := by
  funext other
  rw [Reference.assign, values_update, Function.update_apply]
  split
  · rename_i same
    have place : (⟨other.val / 8, div_lt_size other⟩ : Fin (size S)) = (index i).ref := Fin.ext same
    rw [Bits.getLsbD_put (Nat.mod_lt _ (by decide)), values_eq, place]
    exact if_congr (place_eq same) rfl rfl
  · rename_i apart
    rw [if_neg fun same => apart (congrArg (fun j => j.val / 8) same)]

theorem values_flip :
    ((index i).flip bitmap).values = Function.update bitmap.values i (!bitmap.values i) := by
  funext other
  rw [Reference.flip, values_update, Function.update_apply]
  split
  · rename_i same
    have place : (⟨other.val / 8, div_lt_size other⟩ : Fin (size S)) = (index i).ref := Fin.ext same
    rw [Bits.getLsbD_toggle (Nat.mod_lt _ (by decide)), values_eq, values_eq, place]
    by_cases here : other = i
    · subst here
      simp [index]
    · have apart : other.val % 8 ≠ (index i).idx := mt (place_eq same).mp here
      rw [if_neg here, decide_eq_false apart, Bool.xor_false]
  · rename_i apart
    rw [if_neg fun same => apart (congrArg (fun j => j.val / 8) same)]

/-- Every operation does to the array what it means. -/
theorem values_step (bitmap : Bitmap S) (op : Op S) :
    (bitmap.step op).values = arrayStep bitmap.values op := by
  cases op with
  | assign i b => exact values_assign
  | flip i => exact values_flip
  | setAll =>
    funext i
    have full : ∀ bit < 8, (0xFF : BitVec 8).getLsbD bit = true := by decide
    rw [values_eq, step, setAll, BitVec.getLsbD_or, full _ (Nat.mod_lt _ (by decide)), Bool.or_true]
    rfl
  | clearAll =>
    funext i
    rw [values_eq, step, clearAll, BitVec.getLsbD_and]
    exact Bool.and_eq_false_imp.mpr fun _ => BitVec.getLsbD_zero

theorem values_foldl (bitmap : Bitmap S) (ops : List (Op S)) :
    (ops.foldl step bitmap).values = ops.foldl arrayStep bitmap.values := by
  induction ops generalizing bitmap with
  | nil => rfl
  | cons op rest ih => rw [List.foldl_cons, List.foldl_cons, ih, values_step]

/-- The constant `operator[]` takes the place of the bit for a mask. -/
def MaskRead (values : Fin S → Bool) (i : Fin S) : Prop :=
  ∃ j : Fin S, j.val / 8 = i.val / 8 ∧ (i.val % 8).testBit (j.val % 8) = true ∧ values j = true

theorem get_iff : bitmap.get i = true ↔ MaskRead bitmap.values i := by
  have mask (bit : Nat) : (BitVec.ofNat 8 (i.val % 8)).getLsbD bit = (i.val % 8).testBit bit := by
    rw [BitVec.getLsbD, BitVec.toNat_ofNat, Nat.mod_eq_of_lt (by omega)]
  unfold get
  rw [decide_eq_true_eq]
  constructor
  · intro some
    obtain ⟨bit, set⟩ : ∃ bit, (bitmap.map ⟨i.val / 8, div_lt_size i⟩ &&&
        BitVec.ofNat 8 (i.val % 8)).getLsbD bit = true := by
      by_contra none
      apply some
      apply BitVec.eq_of_getLsbD_eq
      intro bit inside
      rw [BitVec.getLsbD_zero, Bool.eq_false_iff]
      exact fun set => none ⟨bit, set⟩
    rw [BitVec.getLsbD_and, Bool.and_eq_true, mask] at set
    obtain ⟨stored, masked⟩ := set
    have below : bit < i.val % 8 := Nat.lt_of_lt_of_le Nat.lt_two_pow_self (Nat.ge_two_pow_of_testBit masked)
    have device : (8 * (i.val / 8) + bit) / 8 = i.val / 8 := by omega
    have place : (8 * (i.val / 8) + bit) % 8 = bit := by omega
    refine ⟨⟨8 * (i.val / 8) + bit, by omega⟩, device, by rwa [place], ?_⟩
    rw [values_eq]
    simp only [device, place, stored]
  · rintro ⟨j, byte, masked, set⟩ none
    have bit := congrArg (fun word => word.getLsbD (j.val % 8)) none
    rw [values_eq] at set
    simp only [byte] at set
    simp [mask, set, masked] at bit

/-- The references read an array of booleans after any operations; the constant
`operator[]` reads it right where the mask happens to. -/
theorem reads_iff (bitmap : Bitmap S) (ops : List (Op S)) (i : Fin S) :
    (index i).toBool (ops.foldl step bitmap) = ops.foldl arrayStep bitmap.values i ∧
      ((ops.foldl step bitmap).get i = ops.foldl arrayStep bitmap.values i ↔
        (ops.foldl arrayStep bitmap.values i = true ↔ MaskRead (ops.foldl arrayStep bitmap.values) i)) := by
  rw [← values_foldl]
  refine ⟨rfl, ?_⟩
  rw [Bool.eq_iff_iff, get_iff]
  exact iff_comm

/-- The first bit is set, and the constant `operator[]` reads it with an empty mask. -/
theorem get_first_lost :
    ([Op.assign ⟨0, by decide⟩ true].foldl step (⟨fun _ => 0⟩ : Bitmap 8)).get ⟨0, by decide⟩ ≠
      [Op.assign ⟨0, by decide⟩ true].foldl arrayStep (⟨fun _ => 0⟩ : Bitmap 8).values ⟨0, by decide⟩ := by
  decide

end Bitmap

end WalnutOs.Klib
