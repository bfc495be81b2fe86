import WalnutOs.Klib.Bitmap
import WalnutOs.Lib.Cursor

/-! The iterator of `klib/bitmap.hh`, and the loops from `begin` to `end`. -/

namespace WalnutOs.Klib.Bitmap

open WalnutOs.Lib

variable {S : Nat}

/-- The byte that the reference of the iterator points to, counted from the first byte
of the map, may be outside the map. -/
structure Iterator where
  ref : Nat
  idx : Nat
  deriving DecidableEq

namespace Iterator

/-- `operator*`, `none` for a byte outside the map. -/
def deref (bitmap : Bitmap S) (it : Iterator) : Option Bool :=
  if inside : it.ref < size S then some (Reference.equals bitmap ⟨⟨it.ref, inside⟩, it.idx⟩ true) else none

/-- `operator++`. -/
def advance (it : Iterator) : Iterator :=
  ⟨it.ref + (it.idx + 1 == 8).toNat, (it.idx + 1) % 8⟩

end Iterator

def beginIterator : Iterator := ⟨0, 0⟩

def endIterator (S : Nat) : Iterator := ⟨size S, S % 8⟩

/-- `for (auto it = begin(); it != end(); ++it)`, with the bits that are read. -/
def iterate (bitmap : Bitmap S) (bound : Nat) : Option (List Bool) :=
  Cursor.walk Iterator.advance (endIterator S) (Iterator.deref bitmap) bound beginIterator

/-- The iterator after `n` steps. -/
def place (n : Nat) : Iterator := ⟨n / 8, n % 8⟩

theorem place_succ (n : Nat) : place (n + 1) = (place n).advance := by
  by_cases carry : n % 8 + 1 = 8
  · have carried : (n % 8 + 1 == 8).toNat = 1 := by rw [carry]; rfl
    simp only [place, Iterator.advance, carried, Iterator.mk.injEq]
    omega
  · have inside : (n % 8 + 1 == 8).toNat = 0 := by rw [beq_eq_false_iff_ne.mpr carry]; rfl
    simp only [place, Iterator.advance, inside, Iterator.mk.injEq]
    omega

theorem place_eq_end_iff {n : Nat} : place n = endIterator S ↔ n = 8 * size S + S % 8 := by
  simp only [place, endIterator, Iterator.mk.injEq]
  omega

theorem deref_place (bitmap : Bitmap S) (i : Fin S) :
    (place i.val).deref bitmap = some (bitmap.values i) :=
  dif_pos (div_lt_size i)

/-- The loop terminates after `S` steps, having read the `S` bits in order. -/
def IteratesBits (bitmap : Bitmap S) : Prop :=
  ∃ bound, bitmap.iterate bound = some (List.ofFn bitmap.values)

/-- With as many bits as the bytes have, the end is where the last byte ends. -/
theorem iterate_whole (bitmap : Bitmap S) (whole : S % 8 = 0) :
    bitmap.iterate (S + 1) = some (List.ofFn bitmap.values) := by
  have bytes : 8 * size S = S := by
    rw [size_eq]
    omega
  have read : ∀ n < S, (place n).deref bitmap = some ((List.ofFn bitmap.values).getD n false) := by
    intro n inside
    rw [deref_place bitmap ⟨n, inside⟩]
    simp [inside]
  have walked : bitmap.iterate (S + 1) =
      some ((List.range S).map fun n => (List.ofFn bitmap.values).getD n false) := by
    refine Cursor.walk_eq_some place place_succ (place_eq_end_iff.mpr ?_) (fun n inside there => ?_) read
      (Nat.lt_succ_self S)
    · rw [bytes, whole, Nat.add_zero]
    · have last := place_eq_end_iff.mp there
      omega
  rw [walked]
  congr 1
  refine List.ext_getElem (by simp) fun n short within => ?_
  simp [show n < S by simpa using short]

/-- Otherwise the end is in the byte behind the map, past its first bit. -/
theorem iterate_part (bitmap : Bitmap S) (part : S % 8 ≠ 0) (bound : Nat) : bitmap.iterate bound = none := by
  have outside : (place (8 * size S)).deref bitmap = none := by
    have behind : ¬8 * size S / 8 < size S := by omega
    exact dif_neg behind
  refine Cursor.walk_eq_none place place_succ (fun n inside there => ?_) outside
  have last := place_eq_end_iff.mp there
  omega

/-- The loop visits the bits exactly if they fill the bytes. -/
theorem iteratesBits_iff (bitmap : Bitmap S) : bitmap.IteratesBits ↔ S % 8 = 0 := by
  constructor
  · rintro ⟨bound, walked⟩
    by_contra part
    rw [iterate_part bitmap part] at walked
    cases walked
  · intro whole
    exact ⟨S + 1, iterate_whole bitmap whole⟩

/-- The walk over a bitmap of one bit goes on into the next byte. -/
theorem not_iteratesBits_one : ¬∀ S, 1 ≤ S → ∀ bitmap : Bitmap S, bitmap.IteratesBits := by
  intro claim
  obtain ⟨bound, walked⟩ := claim 1 (Nat.le_refl 1) ⟨fun _ => 0⟩
  rw [iterate_part _ (by decide)] at walked
  cases walked

end WalnutOs.Klib.Bitmap
