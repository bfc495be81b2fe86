import WalnutOs.Lib.Run
import Mathlib.Algebra.Group.Nat.Defs
import Mathlib.Data.List.Range

/-! The page directory and its page tables, `kernel/pagetables.cc` and
`klib/pagetables.hh`, in a memory of 32-bit words. -/

namespace WalnutOs.Kernel

open WalnutOs.Lib

abbrev Uptr := BitVec 32

/-- The word at each byte address. -/
abbrev Memory := Nat → BitVec 32

/-- `Nullable<uptr, null>`: one value stands for none. -/
def nullable (null data : Uptr) : Option Uptr := if data = null then none else some data

def numEntries : Nat := 1024
def pteP : Uptr := 0b001
def pteW : Uptr := 0b010

/-- The address of an entry of the directory or the table at `base`. -/
def entryAt (base : Uptr) (idx : Nat) : Nat := base.toNat + 4 * idx

namespace PageTableEntry

def pageAddress (internal : Uptr) : Uptr := internal &&& 0xFFFFFF00

def map (addr : Uptr) (perm : BitVec 8) : Uptr := addr ||| perm.setWidth 32

end PageTableEntry

namespace PageTable

def ptIdx (address : Uptr) : Nat := ((address &&& 0x3FF000) >>> 12).toNat

def vaToPa (memory : Memory) (table address : Uptr) : Uptr :=
  PageTableEntry.pageAddress (memory (entryAt table (ptIdx address)))

end PageTable

namespace PageDirectoryEntry

def ptAddress (internal : Uptr) : Uptr := internal &&& 0xFFFFFF00

def getPt (internal : Uptr) : Option Uptr := nullable 0 (ptAddress internal)

/-- The permissions asked for are not used. -/
def addPt (internal ptableAddr : Uptr) (_perm : BitVec 8) : Option Uptr :=
  if ptAddress internal ≠ 0 then none else some (ptableAddr ||| pteP ||| pteW)

/-- `none` is `Err`. -/
def tryMap (memory : Memory) (internal virtualAddr physicalAddr : Uptr) (perm : BitVec 8) :
    Option Memory :=
  (getPt internal).map fun table =>
    Function.update memory (entryAt table (PageTable.ptIdx virtualAddr))
      (PageTableEntry.map physicalAddr perm)

end PageDirectoryEntry

/-- The loop that clears a new page table. -/
def zeroPage (page : Uptr) (memory : Memory) : Memory :=
  (List.range numEntries).foldl (fun memory i => Function.update memory (entryAt page i) 0) memory

/-- One call of `try_map`, with what `kalloc` returns if it is called. -/
structure MapCall where
  virtualAddr : Uptr
  physicalAddr : Uptr
  perm : BitVec 8
  newPt : Uptr

namespace PageDirectory

def vaToIdx (addr : Uptr) : Nat := ((addr &&& 0xFFC00000) >>> 22).toNat

/-- The entry of a directory that translates an address. -/
def entryOf (memory : Memory) (directory address : Uptr) : Uptr :=
  memory (entryAt directory (vaToIdx address))

/-- The second component is `false` for `Err`. -/
def tryMap (directory : Uptr) (memory : Memory) (call : MapCall) : Memory × Bool :=
  let place := entryAt directory (vaToIdx call.virtualAddr)
  let finish (memory : Memory) : Memory × Bool :=
    match PageDirectoryEntry.tryMap memory (memory place) call.virtualAddr call.physicalAddr
        call.perm with
    | none => (memory, false)
    | some mapped => (mapped, true)
  if PageDirectoryEntry.ptAddress (memory place) = 0 then
    match nullable 0 call.newPt with
    | none => (memory, false)
    | some newPt =>
      match PageDirectoryEntry.addPt (memory place) newPt call.perm with
      | none => (memory, false)
      | some internal => finish (zeroPage newPt (Function.update memory place internal))
  else finish memory

def vaToPa (directory : Uptr) (memory : Memory) (address : Uptr) : Option Uptr :=
  match PageDirectoryEntry.getPt (entryOf memory directory address) with
  | some table => nullable (-1) (PageTable.vaToPa memory table address)
  | none => none

end PageDirectory

/-- The number of the page that an address is in. -/
def pageOf (address : Uptr) : Nat := address.toNat / 4096

def PageAligned (address : Uptr) : Prop := address &&& 0xFFF = 0#32

instance (address : Uptr) : Decidable (PageAligned address) := by
  unfold PageAligned
  infer_instance

section Addresses

variable {address page : Uptr}

/-- The bits below a page are those of an offset into it. -/
theorem PageAligned.mod_eq (aligned : PageAligned page) : page.toNat % 4096 = 0 := by
  have low := Nat.and_two_pow_sub_one_eq_mod page.toNat 12
  rw [← low]
  exact congrArg BitVec.toNat aligned

/-- A page address survives the mask that takes the flags off. -/
theorem PageAligned.mask (aligned : PageAligned page) : page &&& 0xFFFFFF00 = page := by
  have low : page &&& 0xFF = 0#32 := by
    have within : (0xFF : Uptr) = 0xFFF &&& 0xFF := by decide
    rw [within, ← BitVec.and_assoc, aligned, BitVec.zero_and]
  have whole : (0xFFFFFF00 : Uptr) ||| 0xFF = BitVec.allOnes 32 := by decide
  calc page &&& 0xFFFFFF00
      = (page &&& 0xFFFFFF00) ||| (page &&& 0xFF) := by rw [low, BitVec.or_zero]
    _ = page &&& (0xFFFFFF00 ||| 0xFF) := BitVec.and_or_distrib_left.symm
    _ = page := by rw [whole, BitVec.and_allOnes]

theorem perm_mask (perm : BitVec 8) : perm.setWidth 32 &&& 0xFFFFFF00 = 0#32 := by
  have low : ∀ bit < 8, (0xFFFFFF00 : Uptr).getLsbD bit = false := by decide
  refine BitVec.eq_of_getLsbD_eq fun bit _ => ?_
  rw [BitVec.getLsbD_and, BitVec.getLsbD_zero]
  by_cases small : bit < 8
  · rw [low bit small, Bool.and_false]
  · rw [BitVec.getLsbD_setWidth, BitVec.getLsbD_of_ge perm bit (Nat.le_of_not_lt small),
      Bool.and_false, Bool.false_and]

theorem pageAddress_map (aligned : PageAligned page) (perm : BitVec 8) :
    PageTableEntry.pageAddress (PageTableEntry.map page perm) = page := by
  rw [PageTableEntry.pageAddress, PageTableEntry.map, BitVec.and_or_distrib_right, aligned.mask,
    perm_mask, BitVec.or_zero]

theorem ptAddress_addPt (aligned : PageAligned page) :
    PageDirectoryEntry.ptAddress (page ||| pteP ||| pteW) = page := by
  have present : pteP &&& 0xFFFFFF00 = 0#32 := by decide
  have writable : pteW &&& 0xFFFFFF00 = 0#32 := by decide
  rw [PageDirectoryEntry.ptAddress, BitVec.and_or_distrib_right, BitVec.and_or_distrib_right,
    aligned.mask, present, writable, BitVec.or_zero, BitVec.or_zero]

theorem pageAddress_ne (internal : Uptr) : PageTableEntry.pageAddress internal ≠ -1 := by
  intro same
  have low := congrArg (BitVec.getLsbD · 0) same
  rw [PageTableEntry.pageAddress, BitVec.getLsbD_and] at low
  simp at low

theorem ptIdx_eq (address : Uptr) : PageTable.ptIdx address = address.toNat / 4096 % 1024 := by
  rw [PageTable.ptIdx, BitVec.ushiftRight_and_distrib, BitVec.toNat_and, BitVec.toNat_ushiftRight,
    Nat.shiftRight_eq_div_pow]
  exact Nat.and_two_pow_sub_one_eq_mod _ 10

theorem vaToIdx_eq (address : Uptr) : PageDirectory.vaToIdx address = address.toNat / 4194304 := by
  have small := address.isLt
  have masked := Nat.and_two_pow_sub_one_eq_mod (address.toNat / 2 ^ 22) 10
  rw [PageDirectory.vaToIdx, BitVec.ushiftRight_and_distrib, BitVec.toNat_and,
    BitVec.toNat_ushiftRight, Nat.shiftRight_eq_div_pow]
  refine masked.trans ?_
  omega

theorem ptIdx_lt (address : Uptr) : PageTable.ptIdx address < numEntries := by
  rw [ptIdx_eq]
  exact Nat.mod_lt _ (by decide)

theorem vaToIdx_lt (address : Uptr) : PageDirectory.vaToIdx address < numEntries := by
  have small := address.isLt
  rw [vaToIdx_eq]
  unfold numEntries
  omega

/-- The two indices together are the number of the page. -/
theorem pageOf_eq_iff {first second : Uptr} : pageOf first = pageOf second ↔
    PageDirectory.vaToIdx first = PageDirectory.vaToIdx second ∧
      PageTable.ptIdx first = PageTable.ptIdx second := by
  rw [vaToIdx_eq, vaToIdx_eq, ptIdx_eq, ptIdx_eq]
  unfold pageOf
  omega

/-- Entries at two places, or of two pages, are two words. -/
theorem entryAt_inj {first second : Uptr} (aligned : PageAligned first) (aligned' : PageAligned second)
    {idx other : Nat} (inside : idx < numEntries) (inside' : other < numEntries) :
    entryAt first idx = entryAt second other ↔ first = second ∧ idx = other := by
  have base := aligned.mod_eq
  have base' := aligned'.mod_eq
  rw [← BitVec.toNat_inj]
  unfold entryAt numEntries at *
  omega

end Addresses

section Zeroing

variable {memory : Memory} {page : Uptr} {place : Nat}

theorem foldl_update {indices : List Nat} : (indices.foldl
      (fun memory i => Function.update memory (entryAt page i) 0) memory) place =
    if ∃ i ∈ indices, entryAt page i = place then 0 else memory place := by
  induction indices generalizing memory with
  | nil => simp
  | cons first rest ih =>
    rw [List.foldl_cons, ih]
    by_cases here : entryAt page first = place
    · simp [← here]
    · simp [here, Function.update_of_ne (Ne.symm here)]

theorem zeroPage_entry {idx : Nat} (inside : idx < numEntries) :
    zeroPage page memory (entryAt page idx) = 0 := by
  rw [zeroPage, foldl_update, if_pos ⟨idx, List.mem_range.mpr inside, rfl⟩]

theorem zeroPage_of_ne (elsewhere : ∀ idx < numEntries, entryAt page idx ≠ place) :
    zeroPage page memory place = memory place := by
  rw [zeroPage, foldl_update, if_neg]
  rintro ⟨idx, inside, here⟩
  exact elsewhere idx (List.mem_range.mp inside) here

end Zeroing

end WalnutOs.Kernel
