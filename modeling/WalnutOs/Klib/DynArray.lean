import WalnutOs.Kernel.AllocLoops
import WalnutOs.Kernel.AllocIndex
import WalnutOs.Lib.Cursor

/-! The arrays of `klib/dynarray.hh`, whose elements lie in a block of the page allocator. -/

namespace WalnutOs.Klib

open WalnutOs.Kernel WalnutOs.Lib

/-- `array` is the address of the first element, `size` the number of elements. -/
structure DynArray where
  array : Nat
  size : BitVec 32
  deriving DecidableEq

/-- A `Slice` of elements. -/
structure ElementSlice where
  values : Nat
  size : BitVec 32

/-- The address of an element, `sizeof` bytes for each one before it. -/
def elementAt (sizeof first idx : Nat) : Nat := (first + idx * sizeof) % 2 ^ 32

namespace DynArray

/-- `initialize`: the number of elements is what `kalloc` is asked for. -/
def initializeArray (size : BitVec 32) (alloc : BuddyAllocator) :
    Except Fault (Option DynArray × BuddyAllocator) :=
  match alloc.kalloc size with
  | .error fault => .error fault
  | .ok (none, alloc) => .ok (none, alloc)
  | .ok (some ptr, alloc) => .ok (some ⟨ptr, size⟩, alloc)

def len (array : DynArray) : Nat := array.size.toNat

/-- `operator[]`, as the address of the element. -/
def index (sizeof : Nat) (array : DynArray) (idx : Nat) : Nat := elementAt sizeof array.array idx

/-- The elements that `fill` stores to. -/
def fill (sizeof : Nat) (array : DynArray) : List Nat := (List.range array.len).map (array.index sizeof)

/-- The elements between `begin` and `end`. -/
def iterate (sizeof : Nat) (array : DynArray) (bound : Nat) : Option (List Nat) :=
  Cursor.walk (fun ptr => (ptr + sizeof) % 2 ^ 32) (array.index sizeof array.len) some bound
    (array.index sizeof 0)

def intoSlice (array : DynArray) : ElementSlice := ⟨array.array, array.size⟩

end DynArray

namespace ElementSlice

def index (sizeof : Nat) (slice : ElementSlice) (idx : Nat) : Nat := elementAt sizeof slice.values idx

end ElementSlice

/-- The bytes of the block at an address, `none` if there is none. -/
def reservedBytes (alloc : BuddyAllocator) (addr : Nat) : Option Nat :=
  (addrToIndex addr).map fun idx => 2 ^ alloc.order idx * 4096

/-- The bytes of the element lie in the block. -/
def InBlock (sizeof start bytes element : Nat) : Prop := start ≤ element ∧ element + sizeof ≤ start + bytes

/-- The elements take no more bytes than the block has, and no access leaves it. -/
structure DynArray.Fits (sizeof bytes : Nat) (array : DynArray) : Prop where
  size : array.len * sizeof ≤ bytes
  index : ∀ idx < array.len, InBlock sizeof array.array bytes (array.index sizeof idx)
  fill : ∀ element ∈ array.fill sizeof, InBlock sizeof array.array bytes element
  iterate : ∃ bound elements, array.iterate sizeof bound = some elements ∧
    ∀ element ∈ elements, InBlock sizeof array.array bytes element
  slice : ∀ idx < array.intoSlice.size.toNat,
    InBlock sizeof array.array bytes (array.intoSlice.index sizeof idx)

namespace DynArray

variable {sizeof bytes : Nat} {array : DynArray} {alloc after : BuddyAllocator} {size : BitVec 32}

theorem index_eq {idx : Nat} (inside : array.array + bytes < 2 ^ 32) (fits : array.len * sizeof ≤ bytes)
    (short : idx ≤ array.len) : array.index sizeof idx = array.array + idx * sizeof := by
  have before : idx * sizeof ≤ array.len * sizeof := Nat.mul_le_mul_right sizeof short
  exact Nat.mod_eq_of_lt (by omega)

theorem index_inBlock {idx : Nat} (inside : array.array + bytes < 2 ^ 32) (fits : array.len * sizeof ≤ bytes)
    (short : idx < array.len) : InBlock sizeof array.array bytes (array.index sizeof idx) := by
  have next : (idx + 1) * sizeof ≤ array.len * sizeof := Nat.mul_le_mul_right sizeof short
  rw [Nat.add_mul, Nat.one_mul] at next
  rw [index_eq inside fits (Nat.le_of_lt short)]
  exact ⟨Nat.le_add_right _ _, by omega⟩

/-- The iteration visits the elements once each. -/
theorem iterate_eq (positive : 1 ≤ sizeof) (inside : array.array + bytes < 2 ^ 32)
    (fits : array.len * sizeof ≤ bytes) :
    array.iterate sizeof (array.len + 1) = some (array.fill sizeof) := by
  have place : ∀ idx, array.index sizeof (idx + 1) = (array.index sizeof idx + sizeof) % 2 ^ 32 := by
    intro idx
    simp only [index, elementAt, Nat.mod_add_mod]
    rw [Nat.add_mul, Nat.one_mul, Nat.add_assoc]
  refine Cursor.walk_eq_some (array.index sizeof) place rfl (fun idx short same => ?_) (fun _ _ => rfl)
    (Nat.lt_succ_self _)
  rw [index_eq inside fits (Nat.le_of_lt short), index_eq inside fits (Nat.le_refl _)] at same
  exact absurd (Nat.eq_of_mul_eq_mul_right positive (Nat.add_left_cancel same)) (Nat.ne_of_lt short)

/-- The size decides about every access. -/
theorem fits_iff (positive : 1 ≤ sizeof) (inside : array.array + bytes < 2 ^ 32) :
    array.Fits sizeof bytes ↔ array.len * sizeof ≤ bytes := by
  constructor
  · exact Fits.size
  · intro fits
    have each : ∀ idx < array.len, InBlock sizeof array.array bytes (array.index sizeof idx) :=
      fun idx short => index_inBlock inside fits short
    have stored : ∀ element ∈ array.fill sizeof, InBlock sizeof array.array bytes element := by
      intro element member
      obtain ⟨idx, short, rfl⟩ := List.mem_map.mp member
      exact each idx (List.mem_range.mp short)
    exact ⟨fits, each, stored, ⟨_, _, iterate_eq positive inside fits, stored⟩, each⟩

/-- The block that `kalloc` returns has the order of the list computed, whatever the allocator's state. -/
theorem kalloc_reserved {addr : Nat} (answer : alloc.kalloc size = .ok (some addr, after)) :
    ∃ idx : BlockIndex, addr = indexToAddr idx ∧ listIndex size < numLists ∧
      after.order idx = (listIndex size).toNat := by
  by_cases huge : (numBlocks : Int) ≤ listIndex size
  · rw [BuddyAllocator.kalloc, if_pos huge] at answer
    cases answer
  · by_cases listed : 0 ≤ listIndex size ∧ listIndex size < numLists
    · rw [BuddyAllocator.kalloc, if_neg huge, if_pos listed] at answer
      have few : (listIndex size).toNat < numLists := by omega
      have short : (listIndex size).toNat < 128 := few.trans (by decide)
      have served := BuddyAllocator.allocate_served alloc few
      rw [Except.ok.inj answer] at served
      generalize result : (some addr, after) = pair at served
      cases served with
      | none _ => cases result
      | whole head popped =>
        cases result
        exact ⟨_, rfl, listed.2, popped.own short⟩
      | cut above bound empty head popped =>
        cases result
        refine ⟨_, rfl, listed.2, ?_⟩
        simp [BuddyAllocator.order, Block.order_setOrder _ short]
    · rw [BuddyAllocator.kalloc, if_neg huge, if_neg listed] at answer
      cases answer

/-- A block of the power of two that a number of elements is rounded up to holds them exactly
if they are of one byte or fit a page. -/
theorem mul_le_rounded_iff {elements : Nat} (positive : 1 ≤ sizeof) :
    elements * sizeof ≤ 2 ^ Nat.clog 2 (max elements 4096) ↔ sizeof = 1 ∨ elements * sizeof ≤ 4096 := by
  have rounded : max elements 4096 ≤ 2 ^ Nat.clog 2 (max elements 4096) := Nat.le_pow_clog Nat.one_lt_two _
  constructor
  · intro fits
    by_contra large
    obtain ⟨more, above⟩ := not_or.mp large
    have double : elements * 2 ≤ elements * sizeof := Nat.mul_le_mul_left elements (by omega)
    have half : 2 ^ (Nat.clog 2 (max elements 4096) - 1) < max elements 4096 :=
      Nat.pow_pred_clog_lt_self Nat.one_lt_two (by omega)
    have least := twelve_le_clog elements
    obtain ⟨exponent, next⟩ := Nat.exists_eq_add_of_le' (Nat.le_trans (by decide) least : 1 ≤ _)
    rw [next, Nat.pow_succ] at fits
    rw [next, Nat.add_sub_cancel] at half
    by_cases small : elements ≤ 4096
    · have page : Nat.clog 2 (max elements 4096) = 12 := by
        rw [Nat.max_eq_right small]
        exact Nat.clog_pow 2 12 Nat.one_lt_two
      have eleven : exponent = 11 := by omega
      subst eleven
      omega
    · omega
  · rintro (rfl | fits)
    · omega
    · omega

theorem initializeArray_some (answer : initializeArray size alloc = .ok (some array, after)) :
    alloc.kalloc size = .ok (some array.array, after) ∧ array.size = size := by
  unfold initializeArray at answer
  cases served : alloc.kalloc size with
  | error fault =>
    rw [served] at answer
    cases answer
  | ok result =>
    obtain ⟨ptr, left⟩ := result
    rw [served] at answer
    cases ptr with
    | none => cases answer
    | some ptr =>
      cases answer
      exact ⟨rfl, rfl⟩

/-- The bytes of the block that an array was given. -/
theorem reservedBytes_eq (answer : alloc.kalloc size = .ok (some array.array, after)) :
    reservedBytes after array.array = some (2 ^ Nat.clog 2 (max size.toNat 4096)) ∧
      array.array + 2 ^ Nat.clog 2 (max size.toNat 4096) < 2 ^ 32 := by
  obtain ⟨idx, place, listed, order⟩ := kalloc_reserved answer
  have small : size.toNat ≤ 2 ^ 31 := by
    by_contra huge
    rw [listIndex_eq, if_neg huge] at listed
    revert listed
    decide
  obtain ⟨positive, rounded⟩ := two_pow_listIndex small
  have listed : listIndex size < 9 := listed
  have most : 2 ^ (listIndex size).toNat ≤ 2 ^ 8 := Nat.pow_le_pow_right Nat.two_pos (by omega)
  have inside := idx.isLt
  rw [← rounded, place]
  constructor
  · rw [reservedBytes, addrToIndex_indexToAddr, Option.map_some, order]
  · simp only [indexToAddr, blockOffset]
    omega

/-- An array fits the block that was reserved for it exactly if its elements are of one byte or
all of them fit a page. -/
theorem initializeArray_fits_iff (alloc : BuddyAllocator) (size : BitVec 32) (sizeof : Nat)
    (positive : 1 ≤ sizeof) (array : DynArray) (after : BuddyAllocator)
    (answer : initializeArray size alloc = .ok (some array, after)) :
    (∃ bytes, reservedBytes after array.array = some bytes ∧ array.Fits sizeof bytes) ↔
      sizeof = 1 ∨ size.toNat * sizeof ≤ 4096 := by
  obtain ⟨served, elements⟩ := initializeArray_some answer
  obtain ⟨reserved, inside⟩ := reservedBytes_eq served
  rw [← mul_le_rounded_iff positive, ← elements]
  rw [← elements] at reserved inside
  constructor
  · rintro ⟨bytes, found, fits⟩
    cases reserved.symm.trans found
    exact fits.size
  · exact fun fits => ⟨_, reserved, (fits_iff positive inside).mpr fits⟩

theorem exists_initializeArray (found : (initializeArray size alloc).toOption.bind Prod.fst = some array) :
    ∃ after, initializeArray size alloc = .ok (some array, after) := by
  cases answer : initializeArray size alloc with
  | error fault =>
    rw [answer] at found
    cases found
  | ok result =>
    rw [answer] at found
    exact ⟨result.2, by rw [← show result.1 = some array from found]⟩

/-- An array of 16 group descriptors fits a page. -/
theorem initializeArray_fits_descriptors : ∃ array after,
    initializeArray 16 .constructed = .ok (some array, after) ∧
      ∃ bytes, reservedBytes after array.array = some bytes ∧ array.Fits 32 bytes := by
  obtain ⟨after, answer⟩ : ∃ after, initializeArray 16 .constructed = .ok (some ⟨0x20000, 16⟩, after) :=
    exists_initializeArray (by decide +kernel)
  exact ⟨_, after, answer,
    (initializeArray_fits_iff .constructed 16 32 (by decide) _ after answer).mpr (.inr (by decide))⟩

/-- An array of 129 group descriptors takes 4128 bytes of a block that is one page. -/
theorem not_initializeArray_fits : ¬∀ (alloc : BuddyAllocator) (size : BitVec 32) (sizeof : Nat), 1 ≤ sizeof →
    ∀ array after, initializeArray size alloc = .ok (some array, after) →
      ∃ bytes, reservedBytes after array.array = some bytes ∧ array.Fits sizeof bytes := by
  intro claim
  obtain ⟨after, answer⟩ : ∃ after, initializeArray 129 .constructed = .ok (some ⟨0x20000, 129⟩, after) :=
    exists_initializeArray (by decide +kernel)
  obtain ⟨bytes, found, fits⟩ := claim .constructed 129 32 (by decide) _ after answer
  obtain ⟨served, -⟩ := initializeArray_some answer
  have page : Nat.clog 2 (max (129 : BitVec 32).toNat 4096) = 12 := Nat.clog_pow 2 12 Nat.one_lt_two
  cases (reservedBytes_eq served).1.symm.trans found
  have size : 129 * 32 ≤ 2 ^ Nat.clog 2 (max (129 : BitVec 32).toNat 4096) := fits.size
  rw [page] at size
  revert size
  decide

end DynArray

end WalnutOs.Klib
