import Mathlib.Algebra.Group.Nat.Defs
import Mathlib.Logic.Function.Basic
import Mathlib.Tactic.Common

/-! Arrays of a fixed size in which a window is overwritten, and little-endian
numbers in arrays of bytes. -/

namespace WalnutOs.Lib.Window

universe u
variable {Value : Type u} {size : Nat} {array : Fin size → Value} {start : Nat}
variable {values : List Value} {index : Fin size}

/-- Lay values over an array from a place on; what would be past its end is dropped. -/
def overwrite (array : Fin size → Value) (start : Nat) (values : List Value) : Fin size → Value :=
  fun index => if start ≤ index.val then (values[index.val - start]?).getD (array index)
    else array index

theorem overwrite_of_outside (outside : index.val < start ∨ start + values.length ≤ index.val) :
    overwrite array start values index = array index := by
  unfold overwrite
  split
  · rw [List.getElem?_eq_none (by omega), Option.getD_none]
  · rfl

theorem overwrite_of_inside (offset : Nat) (place : index.val = start + offset)
    (inside : offset < values.length) : overwrite array start values index = values[offset] := by
  have back : index.val - start = offset := by omega
  simp [overwrite, back, inside, show start ≤ index.val by omega]

@[simp] theorem overwrite_nil : overwrite array start [] = array := by
  funext index
  exact overwrite_of_outside (by simp; omega)

/-- The values can be stored one after the other. -/
theorem overwrite_cons {value : Value} (inside : start < size) :
    overwrite array start (value :: values) =
      overwrite (Function.update array ⟨start, inside⟩ value) (start + 1) values := by
  funext index
  rcases Nat.lt_trichotomy index.val start with before | here | after
  · rw [overwrite_of_outside (.inl before), overwrite_of_outside (.inl (by omega)),
      Function.update_of_ne (Fin.ne_of_val_ne (by simp only; omega))]
  · have same : index = ⟨start, inside⟩ := Fin.ext here
    rw [overwrite_of_inside 0 here (by simp), overwrite_of_outside (.inl (by omega)), same,
      Function.update_self, List.getElem_cons_zero]
  · have next : index.val - start = index.val - (start + 1) + 1 := by omega
    have other : index ≠ ⟨start, inside⟩ := Fin.ne_of_val_ne (by simp only; omega)
    simp only [overwrite, show start ≤ index.val by omega, show start + 1 ≤ index.val by omega,
      if_true, next, List.getElem?_cons_succ, Function.update_of_ne other]

theorem overwrite_append {more : List Value} : overwrite array start (values ++ more) =
    overwrite (overwrite array start values) (start + values.length) more := by
  funext index
  by_cases later : start + values.length ≤ index.val
  · by_cases inside : index.val < start + values.length + more.length
    · have place : index.val = start + values.length + (index.val - start - values.length) := by omega
      rw [overwrite_of_inside (index.val - start) (by omega) (by rw [List.length_append]; omega),
        overwrite_of_inside _ place (by omega), List.getElem_append_right (by omega)]
    · rw [overwrite_of_outside (.inr (by rw [List.length_append]; omega)),
        overwrite_of_outside (.inr (by omega)), overwrite_of_outside (.inr later)]
  · have kept : overwrite (overwrite array start values) (start + values.length) more index =
        overwrite array start values index := overwrite_of_outside (.inl (by omega))
    rw [kept]
    by_cases before : index.val < start
    · rw [overwrite_of_outside (.inl before), overwrite_of_outside (.inl before)]
    · have place : index.val = start + (index.val - start) := by omega
      rw [overwrite_of_inside _ place (by rw [List.length_append]; omega),
        overwrite_of_inside _ place (by omega), List.getElem_append_left (by omega)]

/-- What is overwritten does not matter. -/
theorem overwrite_eq_iff {other : Fin size → Value} :
    overwrite array start values = overwrite other start values ↔
      ∀ index : Fin size, index.val < start ∨ start + values.length ≤ index.val →
        array index = other index := by
  constructor
  · intro same index outside
    have there := congrFun same index
    rwa [overwrite_of_outside outside, overwrite_of_outside outside] at there
  · intro same
    funext index
    by_cases outside : index.val < start ∨ start + values.length ≤ index.val
    · rw [overwrite_of_outside outside, overwrite_of_outside outside, same index outside]
    · obtain ⟨first, last⟩ := not_or.mp outside
      have place : index.val = start + (index.val - start) := by omega
      rw [overwrite_of_inside _ place (by omega), overwrite_of_inside _ place (by omega)]

/-- The `count` values from `start` on. -/
def slice (array : Fin size → Value) (start count : Nat) : List Value :=
  ((List.ofFn array).drop start).take count

theorem slice_succ {count : Nat} (inside : start < size) :
    slice array start (count + 1) = array ⟨start, inside⟩ :: slice array (start + 1) count := by
  rw [slice, List.drop_eq_getElem_cons (by simpa using inside), List.take_succ_cons,
    List.getElem_ofFn]
  rfl

theorem length_slice (array : Fin size → Value) {count : Nat} (inside : start + count ≤ size) :
    (slice array start count).length = count := by
  simp only [slice, List.length_take, List.length_drop, List.length_ofFn]
  omega

theorem getElem_slice {count offset : Nat} (short : offset < (slice array start count).length)
    (inside : start + offset < size) :
    (slice array start count)[offset] = array ⟨start + offset, inside⟩ := by
  simp [slice]

theorem slice_congr {other : Fin size → Value} {count : Nat} (inside : start + count ≤ size)
    (same : ∀ index : Fin size, start ≤ index.val → index.val < start + count → array index = other index) :
    slice array start count = slice other start count := by
  refine List.ext_getElem ?_ fun offset short short' => ?_
  · rw [length_slice array inside, length_slice other inside]
  · rw [length_slice array inside] at short
    rw [getElem_slice _ (by omega), getElem_slice _ (by omega)]
    exact same _ (Nat.le_add_right ..) (by simp only; omega)

theorem slice_overwrite (inside : start + values.length ≤ size) :
    slice (overwrite array start values) start values.length = values := by
  refine List.ext_getElem (length_slice _ inside) fun offset short within => ?_
  rw [getElem_slice short (by omega), overwrite_of_inside offset rfl within]

section LittleEndian

variable {bytes : Fin size → BitVec 8} {width place : Nat}

/-- The bytes of a number, the lowest first. -/
def bytesLE : Nat → Nat → List (BitVec 8)
  | 0, _ => []
  | width + 1, value => BitVec.ofNat 8 value :: bytesLE width (value / 256)

@[simp] theorem length_bytesLE (value : Nat) : (bytesLE width value).length = width := by
  induction width generalizing value with
  | zero => rfl
  | succ width ih => simp [bytesLE, ih]

/-- The number that is stored in `width` bytes from `start` on. -/
def getLE (bytes : Fin size → BitVec 8) (start : Nat) : Nat → Nat
  | 0 => 0
  | width + 1 => (if inside : start < size then (bytes ⟨start, inside⟩).toNat else 0) +
      256 * getLE bytes (start + 1) width

def putLE (bytes : Fin size → BitVec 8) (start width value : Nat) : Fin size → BitVec 8 :=
  overwrite bytes start (bytesLE width value)

theorem getLE_overwrite_of_outside {written : List (BitVec 8)}
    (outside : place + width ≤ start ∨ start + written.length ≤ place) :
    getLE (overwrite bytes start written) place width = getLE bytes place width := by
  induction width generalizing place with
  | zero => rfl
  | succ width ih =>
    have rest : getLE (overwrite bytes start written) (place + 1) width = getLE bytes (place + 1) width :=
      ih (by omega)
    simp only [getLE, rest]
    split
    · rw [overwrite_of_outside (by simp only; omega)]
    · rfl

theorem getLE_putLE_of_outside {value : Nat} {other : Nat}
    (outside : place + width ≤ start ∨ start + other ≤ place) :
    getLE (putLE bytes start other value) place width = getLE bytes place width :=
  getLE_overwrite_of_outside (by simpa using outside)

theorem getLE_congr {other : Fin size → BitVec 8}
    (same : ∀ index : Fin size, start ≤ index.val → index.val < start + width → bytes index = other index) :
    getLE bytes start width = getLE other start width := by
  induction width generalizing start with
  | zero => rfl
  | succ width ih =>
    have rest : getLE bytes (start + 1) width = getLE other (start + 1) width :=
      ih fun index first last => same index (by omega) (by omega)
    simp only [getLE, rest]
    split
    · rw [same _ (Nat.le_refl _) (by simp only; omega)]
    · rfl

/-- A number that is stored is read back, cut to its width. -/
theorem getLE_putLE {value : Nat} (inside : start + width ≤ size) :
    getLE (putLE bytes start width value) start width = value % 256 ^ width := by
  induction width generalizing start value bytes with
  | zero => simp [getLE, Nat.mod_one]
  | succ width ih =>
    have here : start < size := by omega
    have tail : putLE bytes start (width + 1) value =
        putLE (Function.update bytes ⟨start, here⟩ (BitVec.ofNat 8 value)) (start + 1) width
          (value / 256) := overwrite_cons here
    have head : putLE bytes start (width + 1) value ⟨start, here⟩ = BitVec.ofNat 8 value := by
      rw [tail, putLE, overwrite_of_outside (.inl (by simp)), Function.update_self]
    have byte : (BitVec.ofNat 8 value).toNat = value % 256 := BitVec.toNat_ofNat value 8
    rw [getLE, dif_pos here, head, tail, ih (by omega), byte, Nat.pow_succ', Nat.mod_mul]

theorem getLE_lt (bytes : Fin size → BitVec 8) (start width : Nat) :
    getLE bytes start width < 256 ^ width := by
  induction width generalizing start with
  | zero => exact Nat.one_pos
  | succ width ih =>
    have rest := ih (start + 1)
    have first : (if inside : start < size then (bytes ⟨start, inside⟩).toNat else 0) < 256 := by
      split
      · exact (bytes ⟨start, _⟩).isLt
      · decide
    rw [getLE, Nat.pow_succ']
    omega

/-- A number is read from its low and its high bytes. -/
theorem getLE_add (bytes : Fin size → BitVec 8) (start low high : Nat) :
    getLE bytes start (low + high) = getLE bytes start low + 256 ^ low * getLE bytes (start + low) high := by
  induction low generalizing start with
  | zero => simp [getLE]
  | succ low ih =>
    have next : start + 1 + low = start + (low + 1) := by omega
    rw [Nat.succ_add, getLE, getLE, ih (start + 1), next, Nat.mul_add, ← Nat.mul_assoc, ← Nat.pow_succ',
      Nat.add_assoc]

/-- A part of a number that is stored. -/
theorem getLE_putLE_of_within {value skip part : Nat} (within : skip + part ≤ width)
    (inside : start + width ≤ size) :
    getLE (putLE bytes start width value) (start + skip) part = value / 256 ^ skip % 256 ^ part := by
  obtain ⟨rest, rfl⟩ := Nat.exists_eq_add_of_le within
  have whole : getLE (putLE bytes start (skip + part + rest) value) start (skip + part + rest) =
      value % 256 ^ (skip + part + rest) := getLE_putLE inside
  generalize putLE bytes start (skip + part + rest) value = stored at whole ⊢
  have below := getLE_lt stored start skip
  have small := getLE_lt stored (start + skip) part
  have high : getLE stored (start + skip) (part + rest) = value / 256 ^ skip % 256 ^ (part + rest) := by
    rw [Nat.add_assoc, getLE_add] at whole
    rw [← Nat.mod_mul_right_div_self, ← Nat.pow_add, ← whole,
      Nat.add_mul_div_left _ _ (Nat.pow_pos (by decide)), Nat.div_eq_of_lt below, Nat.zero_add]
  rw [getLE_add, Nat.pow_add] at high
  rw [← Nat.mod_mul_right_mod _ (256 ^ part) (256 ^ rest), ← high, Nat.add_mul_mod_self_left,
    Nat.mod_eq_of_lt small]

/-- A number with its place and its width in bytes. -/
structure Store where
  start : Nat
  width : Nat
  value : Nat

def Store.Apart (first second : Store) : Prop :=
  first.start + first.width ≤ second.start ∨ second.start + second.width ≤ first.start

instance (first second : Store) : Decidable (first.Apart second) := inferInstanceAs (Decidable (_ ∨ _))

/-- Numbers are stored in order. -/
def putAll (bytes : Fin size → BitVec 8) (stores : List Store) : Fin size → BitVec 8 :=
  stores.foldl (fun bytes store => putLE bytes store.start store.width store.value) bytes

theorem getLE_putAll_of_apart {store : Store} {stores : List Store}
    (apart : ∀ other ∈ stores, store.Apart other) :
    getLE (putAll bytes stores) store.start store.width = getLE bytes store.start store.width := by
  induction stores generalizing bytes with
  | nil => rfl
  | cons other rest ih =>
    rw [List.forall_mem_cons] at apart
    rw [putAll, List.foldl_cons]
    exact (ih apart.2).trans (getLE_putLE_of_outside apart.1)

/-- Numbers that are stored in places apart are all read back. -/
theorem getLE_putAll {store : Store} {stores : List Store} (apart : stores.Pairwise Store.Apart)
    (inside : ∀ store ∈ stores, store.start + store.width ≤ size) (member : store ∈ stores) :
    getLE (putAll bytes stores) store.start store.width = store.value % 256 ^ store.width := by
  induction stores generalizing bytes with
  | nil => cases member
  | cons first rest ih =>
    rw [List.pairwise_cons] at apart
    rw [List.forall_mem_cons] at inside
    rw [putAll, List.foldl_cons]
    rcases List.mem_cons.mp member with rfl | later
    · exact (getLE_putAll_of_apart apart.1).trans (getLE_putLE inside.1)
    · exact ih apart.2 inside.2 later

end LittleEndian

end WalnutOs.Lib.Window
