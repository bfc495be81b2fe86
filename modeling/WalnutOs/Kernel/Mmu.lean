import Mathlib
import WalnutOs.Lib.Updates
import WalnutOs.Kernel.PageMap

/-! What the processor makes of the page directory, and the directory that
`setup_pagedir` in `kernel/kernel.cc` loads. -/

namespace WalnutOs.Kernel

open WalnutOs.Lib PageDirectory PagingRun

/-- The part of a page, with what may be done to it. -/
structure Mapping where
  page : Uptr
  perm : BitVec 8

/-- Whether an entry permits an access. The kernel itself may write to what is not writable, since
`enable_paging` leaves the write protect bit clear. -/
def permits (user write : Bool) (entry : Uptr) : Bool :=
  entry.getLsbD 0 && (!user || entry.getLsbD 2 && (!write || entry.getLsbD 1))

/-- The translation of an address by the processor, none for a page fault. -/
def walk (directory : Uptr) (memory : Memory) (user write : Bool) (address : Uptr) : Option Uptr :=
  let pde := entryOf memory directory address
  let pte := memory (entryAt (pde &&& 0xFFFFF000) (PageTable.ptIdx address))
  if permits user write pde && permits user write pte then some (pte &&& 0xFFFFF000 ||| address &&& 0xFFF)
  else none

/-- What the directory is meant to be for the kernel: none of it is for user code. -/
def translate (mapped : Nat → Option Mapping) (user : Bool) (address : Uptr) : Option Uptr :=
  (mapped (pageOf address)).bind fun mapping =>
    if mapping.perm.getLsbD 0 && !user then some (mapping.page ||| address &&& 0xFFF) else none

namespace PageDirectory

/-- `Err`, where the directory has a table already, changes nothing. -/
def addPagetable (directory : Uptr) (memory : Memory) (idx : Nat) (ptable : Uptr) (perm : BitVec 8) : Memory :=
  match PageDirectoryEntry.addPt (memory (entryAt directory idx)) ptable perm with
  | none => memory
  | some internal => Function.update memory (entryAt directory idx) internal

end PageDirectory

def ptePW : BitVec 8 := 0b011

def addressOf (page : Nat) : Uptr := BitVec.ofNat 32 (page * 4096)

/-- The addresses of the loop in `setup_pagedir`, from 0x1000 up to 0x400000. -/
def identityPages : List Uptr := (List.range' 1 1023).map addressOf

/-- The loop, over some addresses; none for a failed assertion. -/
def identityMap (directory : Uptr) : List Uptr → Memory → Option Memory
  | [], memory => some memory
  | address :: rest, memory =>
    (PageDirectoryEntry.tryMap memory (memory (entryAt directory 0)) address address ptePW).bind
      (identityMap directory rest)

/-- The first page is mapped without permissions. The directory has a table for it, so that `kalloc`
is not called. -/
def setupPagedir (directory starterPt ioPt : Uptr) (memory : Memory) : Option Memory :=
  let memory := addPagetable directory memory 0 starterPt ptePW
  let memory := addPagetable directory memory 1019 ioPt ptePW
  let (memory, ok) := PageDirectory.tryMap directory memory ⟨0, 0, 0, 0⟩
  if ok then identityMap directory identityPages memory else none

/-- An entry of a table for a page. -/
def entryFor : Option Mapping → Uptr
  | none => 0
  | some mapping => PageTableEntry.map mapping.page mapping.perm

/-- The memory holds exactly the mappings, in tables that the directory names as the kernel's. -/
structure Walked (directory : Uptr) (memory : Memory) (mapped : Nat → Option Mapping) : Prop where
  tables : Tables directory memory
  entries : ∀ idx < numEntries, memory (entryAt directory idx) =
    if tableAt directory memory idx = 0 then 0 else tableAt directory memory idx ||| pteP ||| pteW
  absent : ∀ address, tableAt directory memory (vaToIdx address) = 0 → mapped (pageOf address) = none
  present : ∀ address, tableAt directory memory (vaToIdx address) ≠ 0 →
    memory (entryAt (tableAt directory memory (vaToIdx address)) (PageTable.ptIdx address)) =
      entryFor (mapped (pageOf address))
  aligned : ∀ page mapping, mapped page = some mapping → PageAligned mapping.page

section Walks

variable {directory address page : Uptr} {memory : Memory} {mapped : Nat → Option Mapping}

theorem PageAligned.frame (aligned : PageAligned page) : page &&& 0xFFFFF000 = page := by
  have whole : (0xFFFFF000 : Uptr) ||| 0xFFF = BitVec.allOnes 32 := by decide
  have low : page &&& 0xFFF = 0#32 := aligned
  calc page &&& 0xFFFFF000
      = (page &&& 0xFFFFF000) ||| (page &&& 0xFFF) := by rw [low, BitVec.or_zero]
    _ = page &&& (0xFFFFF000 ||| 0xFFF) := BitVec.and_or_distrib_left.symm
    _ = page := by rw [whole, BitVec.and_allOnes]

/-- The flags of an aligned page are its own. -/
theorem PageAligned.flag (aligned : PageAligned page) {bit : Nat} (low : bit < 12) (flags : Uptr) :
    (page ||| flags).getLsbD bit = flags.getLsbD bit := by
  have mask : ∀ bit < 12, (0xFFF : Uptr).getLsbD bit = true := by decide
  have clear := congrArg (BitVec.getLsbD · bit) aligned
  simp only [BitVec.getLsbD_and, mask bit low, Bool.and_true, BitVec.getLsbD_zero] at clear
  rw [BitVec.getLsbD_or, clear, Bool.false_or]

theorem perm_frame (perm : BitVec 8) : perm.setWidth 32 &&& 0xFFFFF000 = 0#32 := by
  have within : (0xFFFFF000 : Uptr) = 0xFFFFFF00 &&& 0xFFFFF000 := by decide
  rw [within, ← BitVec.and_assoc, perm_mask, BitVec.zero_and]

theorem frame_map (aligned : PageAligned page) (perm : BitVec 8) :
    PageTableEntry.map page perm &&& 0xFFFFF000 = page := by
  rw [PageTableEntry.map, BitVec.and_or_distrib_right, aligned.frame, perm_frame, BitVec.or_zero]

theorem permits_map (aligned : PageAligned page) (perm : BitVec 8) (write : Bool) :
    permits false write (PageTableEntry.map page perm) = perm.getLsbD 0 := by
  rw [permits, PageTableEntry.map, aligned.flag (by decide), BitVec.getLsbD_setWidth]
  simp

/-- An entry of the directory is not for user code. -/
theorem permits_table (aligned : PageAligned page) (user write : Bool) :
    permits user write (page ||| pteP ||| pteW) = !user := by
  have flags : page ||| pteP ||| pteW = page ||| (pteP ||| pteW) := BitVec.or_assoc ..
  have present : (pteP ||| pteW).getLsbD 0 = true := by decide
  have kernel : (pteP ||| pteW).getLsbD 2 = false := by decide
  rw [permits, flags, aligned.flag (by decide), aligned.flag (by decide), present, kernel]
  simp

theorem frame_table (aligned : PageAligned page) : (page ||| pteP ||| pteW) &&& 0xFFFFF000 = page := by
  have present : pteP &&& 0xFFFFF000 = 0#32 := by decide
  have writable : pteW &&& 0xFFFFF000 = 0#32 := by decide
  rw [BitVec.and_or_distrib_right, BitVec.and_or_distrib_right, aligned.frame, present, writable,
    BitVec.or_zero, BitVec.or_zero]

/-- The processor translates as the mappings say, for the kernel alone. -/
theorem Walked.walk_eq (walked : Walked directory memory mapped) (user write : Bool) (address : Uptr) :
    walk directory memory user write address = translate mapped user address := by
  have entry := walked.entries (vaToIdx address) (vaToIdx_lt address)
  rw [walk, entryOf, entry]
  by_cases missing : tableAt directory memory (vaToIdx address) = 0
  · rw [if_pos missing, translate, walked.absent address missing]
    have absent : permits user write 0 = false := by simp [permits]
    rw [absent, Bool.false_and]
    rfl
  · have table := walked.tables.aligned _ (vaToIdx_lt address)
    rw [if_neg missing, frame_table table, permits_table table, walked.present address missing, translate]
    cases found : mapped (pageOf address) with
    | none => simp [entryFor, permits]
    | some mapping =>
      have aligned := walked.aligned _ mapping found
      cases user with
      | true => simp
      | false =>
        rw [entryFor, permits_map aligned, frame_map aligned, Option.bind_some, Bool.not_false,
          Bool.true_and, Bool.and_true]

end Walks

section Mapping

variable {directory : Uptr} {memory : Memory} {mapped : Nat → Option Mapping}

theorem Walked.paged (walked : Walked directory memory mapped) :
    Paged directory memory fun page => (mapped page).map Mapping.page where
  tables := walked.tables
  absent address missing := by rw [walked.absent address missing, Option.map_none]
  present address found := by
    rw [PageTable.vaToPa, walked.present address found]
    cases known : mapped (pageOf address) with
    | none => exact BitVec.zero_and
    | some mapping => exact pageAddress_map (walked.aligned _ mapping known) _

/-- A page for which there is a table is mapped. -/
theorem Walked.map (walked : Walked directory memory mapped) (call : MapCall)
    (physical : PageAligned call.physicalAddr)
    (there : tableAt directory memory (vaToIdx call.virtualAddr) ≠ 0) :
    (∀ idx < numEntries, tableAt directory (PageDirectory.tryMap directory memory call).1 idx =
      tableAt directory memory idx) ∧
    Walked directory (PageDirectory.tryMap directory memory call).1
      (Function.update mapped (pageOf call.virtualAddr) (some ⟨call.physicalAddr, call.perm⟩)) := by
  obtain ⟨same, paged⟩ := walked.paged.map physical there
  have written : (PageDirectory.tryMap directory memory call).1 = Function.update memory
      (entryAt (tableAt directory memory (vaToIdx call.virtualAddr)) (PageTable.ptIdx call.virtualAddr))
      (PageTableEntry.map call.physicalAddr call.perm) := by
    rw [tryMap_mapped there]
  refine ⟨same, paged.tables, fun idx inside => ?_, fun address missing => ?_, fun address found => ?_,
    fun page mapping known => ?_⟩
  · rw [same idx inside, written, Function.update_of_ne (walked.tables.entry_ne there inside).symm]
    exact walked.entries idx inside
  · rw [same _ (vaToIdx_lt address)] at missing
    have other : pageOf address ≠ pageOf call.virtualAddr := fun here =>
      there ((pageOf_eq_iff.mp here).1 ▸ missing)
    rw [Function.update_of_ne other]
    exact walked.absent address missing
  · rw [same _ (vaToIdx_lt address)] at found ⊢
    rw [written]
    by_cases here : pageOf address = pageOf call.virtualAddr
    · obtain ⟨entry, place⟩ := pageOf_eq_iff.mp here
      rw [here, Function.update_self, entry, place, Function.update_self]
      rfl
    · rw [Function.update_of_ne here, Function.update_of_ne (walked.tables.entry_ne_of_page found here)]
      exact walked.present address found
  · by_cases here : page = pageOf call.virtualAddr
    · subst here
      rw [Function.update_self] at known
      cases known
      exact physical
    · rw [Function.update_of_ne here] at known
      exact walked.aligned page mapping known

/-- A new table maps nothing. -/
theorem Walked.withTable {idx : Nat} {newPt : Uptr} (walked : Walked directory memory mapped)
    (mine : idx < numEntries) (missing : tableAt directory memory idx = 0)
    (page : PageAligned newPt) (nonzero : newPt ≠ 0) (apart : newPt ≠ directory)
    (unused : ∀ other < numEntries, tableAt directory memory other ≠ newPt) :
    Walked directory (withTable directory memory idx newPt) mapped := by
  have paged := walked.paged.withTable mine missing page apart unused
  have now := walked.tables.withTable mine page apart
  have outside : ∀ other < numEntries, ∀ place < numEntries, entryAt newPt place ≠ entryAt directory other := by
    intro other inside place within
    rw [Ne, entryAt_inj page walked.tables.base within inside]
    exact fun overlap => apart overlap.1
  refine ⟨paged.tables, fun other inside => ?_, fun address => ?_, fun address => ?_, walked.aligned⟩
  · rw [now other inside, PagingRun.withTable, zeroPage_of_ne (outside other inside)]
    by_cases here : other = idx
    · subst here
      rw [if_pos rfl, if_neg nonzero, Function.update_self]
    · have elsewhere : entryAt directory other ≠ entryAt directory idx := by
        rw [Ne, entryAt_inj walked.tables.base walked.tables.base inside mine]
        exact fun overlap => here overlap.2
      rw [if_neg here, Function.update_of_ne elsewhere]
      exact walked.entries other inside
  · rw [now _ (vaToIdx_lt address)]
    split
    · rename_i here
      exact fun _ => walked.absent address (here ▸ missing)
    · exact walked.absent address
  · rw [now _ (vaToIdx_lt address)]
    split
    · rename_i here
      intro _
      rw [walked.absent address (here ▸ missing), PagingRun.withTable, zeroPage_entry (ptIdx_lt address)]
      rfl
    · intro found
      have kept : ∀ place < numEntries, entryAt newPt place ≠
          entryAt (tableAt directory memory (vaToIdx address)) (PageTable.ptIdx address) := by
        intro place within
        rw [Ne, entryAt_inj page (walked.tables.aligned _ (vaToIdx_lt address)) within (ptIdx_lt _)]
        exact fun overlap => unused _ (vaToIdx_lt address) overlap.1.symm
      rw [PagingRun.withTable, zeroPage_of_ne kept, Function.update_of_ne (walked.tables.entry_ne found mine)]
      exact walked.present address found

/-- A write elsewhere changes no translation. -/
theorem Walked.store (walked : Walked directory memory mapped) {place : Nat} (value : Uptr)
    (outside : ∀ idx < numEntries, place ≠ entryAt directory idx)
    (apart : ∀ idx < numEntries, tableAt directory memory idx ≠ 0 →
      ∀ entry < numEntries, place ≠ entryAt (tableAt directory memory idx) entry) :
    (∀ idx < numEntries, tableAt directory (Function.update memory place value) idx =
      tableAt directory memory idx) ∧
    Walked directory (Function.update memory place value) mapped := by
  have same : ∀ idx < numEntries, tableAt directory (Function.update memory place value) idx =
      tableAt directory memory idx := by
    intro idx inside
    rw [tableAt, Function.update_of_ne (outside idx inside).symm, tableAt]
  refine ⟨same, ⟨walked.tables.base, fun idx inside => ?_, fun idx inside => ?_,
    fun idx inside other inside' => ?_⟩, fun idx inside => ?_, fun address => ?_, fun address => ?_,
    walked.aligned⟩
  · rw [same idx inside]
    exact walked.tables.aligned idx inside
  · rw [same idx inside]
    exact walked.tables.apart idx inside
  · rw [same idx inside, same other inside']
    exact walked.tables.distinct idx inside other inside'
  · rw [same idx inside, Function.update_of_ne (outside idx inside).symm]
    exact walked.entries idx inside
  · rw [same _ (vaToIdx_lt address)]
    exact walked.absent address
  · rw [same _ (vaToIdx_lt address)]
    intro found
    rw [Function.update_of_ne (apart _ (vaToIdx_lt address) found _ (ptIdx_lt address)).symm]
    exact walked.present address found

end Mapping

/-- The pages of the kernel's directory and its two tables, as they are at the start. -/
structure StaticPages (directory starterPt ioPt : Uptr) (memory : Memory) : Prop where
  aligned : PageAligned directory ∧ PageAligned starterPt ∧ PageAligned ioPt
  nonzero : starterPt ≠ 0 ∧ ioPt ≠ 0
  distinct : starterPt ≠ directory ∧ ioPt ≠ directory ∧ ioPt ≠ starterPt
  zeroed : ∀ idx < numEntries, memory (entryAt directory idx) = 0 ∧ memory (entryAt starterPt idx) = 0 ∧
    memory (entryAt ioPt idx) = 0

/-- All pages of the first 4 MiB but the first are where they are. -/
def identityMapping (page : Nat) : Option Mapping :=
  if page = 0 then some ⟨0, 0⟩
  else if page < 1024 then some ⟨addressOf page, ptePW⟩
  else none

section Setup

variable {directory starterPt ioPt : Uptr} {memory : Memory} {mapped : Nat → Option Mapping}

theorem zeroPage_eq {page : Uptr} (zeroed : ∀ idx < numEntries, memory (entryAt page idx) = 0) :
    zeroPage page memory = memory := by
  funext place
  rw [zeroPage, foldl_update]
  split
  · rename_i found
    obtain ⟨idx, inside, rfl⟩ := found
    exact (zeroed idx (List.mem_range.mp inside)).symm
  · rfl

/-- A table that is all zero is as good as a new one. -/
theorem addPagetable_eq (walked : Walked directory memory mapped) {idx : Nat} {ptable : Uptr}
    (mine : idx < numEntries) (missing : tableAt directory memory idx = 0) (page : PageAligned ptable)
    (apart : ptable ≠ directory) (zeroed : ∀ place < numEntries, memory (entryAt ptable place) = 0)
    (perm : BitVec 8) : PageDirectory.addPagetable directory memory idx ptable perm =
      PagingRun.withTable directory memory idx ptable := by
  have kept : ∀ place < numEntries, Function.update memory (entryAt directory idx)
      (ptable ||| pteP ||| pteW) (entryAt ptable place) = 0 := by
    intro place within
    have elsewhere : entryAt ptable place ≠ entryAt directory idx := by
      rw [Ne, entryAt_inj page walked.tables.base within mine]
      exact fun overlap => apart overlap.1
    rw [Function.update_of_ne elsewhere, zeroed place within]
  unfold tableAt at missing
  rw [PageDirectory.addPagetable, PageDirectoryEntry.addPt, missing, PagingRun.withTable, zeroPage_eq kept]
  rfl

theorem Walked.fresh (aligned : PageAligned directory)
    (zeroed : ∀ idx < numEntries, memory (entryAt directory idx) = 0) :
    Walked directory memory fun _ => none := by
  have valid := Valid.start aligned zeroed
  have none : ∀ idx < numEntries, tableAt directory memory idx = 0 := by
    intro idx inside
    rw [tableAt, zeroed idx inside]
    exact BitVec.zero_and
  refine ⟨valid.paged.tables, fun idx inside => ?_, fun _ _ => rfl, fun address found => ?_,
    fun _ _ mapped => absurd mapped (Option.some_ne_none _).symm⟩
  · rw [none idx inside, if_pos rfl, zeroed idx inside]
  · exact absurd (none _ (vaToIdx_lt address)) found

theorem addressOf_toNat {page : Nat} (small : page < 1024) : (addressOf page).toNat = page * 4096 :=
  Nat.mod_eq_of_lt (by omega)

theorem pageOf_addressOf {page : Nat} (small : page < 1024) : pageOf (addressOf page) = page := by
  rw [pageOf, addressOf_toNat small, Nat.mul_div_cancel _ (by decide)]

theorem vaToIdx_addressOf {page : Nat} (small : page < 1024) : vaToIdx (addressOf page) = 0 := by
  rw [vaToIdx_eq, addressOf_toNat small]
  omega

theorem aligned_of_mod {page : Uptr} (multiple : page.toNat % 4096 = 0) : PageAligned page := by
  apply BitVec.eq_of_toNat_eq
  have mask := Nat.and_two_pow_sub_one_eq_mod page.toNat 12
  rw [BitVec.toNat_and]
  exact mask.trans multiple

theorem getPt_eq {idx : Nat} (there : tableAt directory memory idx ≠ 0) :
    PageDirectoryEntry.getPt (memory (entryAt directory idx)) = some (tableAt directory memory idx) :=
  if_neg there

/-- The entry of the directory maps as the directory does. -/
theorem tryMap_entry {idx : Nat} (there : tableAt directory memory idx ≠ 0) (call : MapCall)
    (entry : vaToIdx call.virtualAddr = idx) :
    PageDirectoryEntry.tryMap memory (memory (entryAt directory idx)) call.virtualAddr call.physicalAddr
      call.perm = some (PageDirectory.tryMap directory memory call).1 := by
  subst entry
  rw [tryMap_mapped there, PageDirectoryEntry.tryMap, getPt_eq there, Option.map_some]

/-- What the loop does to pages of the first 4 MiB. -/
theorem Walked.identityMap (walked : Walked directory memory mapped) (there : tableAt directory memory 0 ≠ 0)
    {pages : List Nat} (small : ∀ page ∈ pages, page < 1024) :
    ∃ after, Kernel.identityMap directory (pages.map addressOf) memory = some after ∧
      (∀ idx < numEntries, tableAt directory after idx = tableAt directory memory idx) ∧
      Walked directory after (storeAll id (fun page => some ⟨addressOf page, ptePW⟩) pages mapped) := by
  induction pages generalizing memory mapped with
  | nil => exact ⟨memory, rfl, fun _ _ => rfl, walked⟩
  | cons page rest ih =>
    rw [List.forall_mem_cons] at small
    have entry := vaToIdx_addressOf small.1
    have aligned : PageAligned (addressOf page) := aligned_of_mod (by
      rw [addressOf_toNat small.1]
      exact Nat.mul_mod_left ..)
    have here : tableAt directory memory (vaToIdx (addressOf page)) ≠ 0 := by rwa [entry]
    obtain ⟨same, next⟩ := walked.map ⟨addressOf page, addressOf page, ptePW, 0⟩ aligned here
    have entered := tryMap_entry there ⟨addressOf page, addressOf page, ptePW, 0⟩ entry
    obtain ⟨after, looped, tables, final⟩ := ih next (by rwa [same 0 (by decide)]) small.2
    have stored : pageOf (addressOf page) = id page := pageOf_addressOf small.1
    refine ⟨after, ?_, fun idx inside => (tables idx inside).trans (same idx inside), ?_⟩
    · simp only [List.map_cons, Kernel.identityMap]
      rw [entered]
      exact looped
    · rw [storeAll, List.foldl_cons, ← stored]
      exact final

theorem identityMapping_eq : storeAll id (fun page => some ⟨addressOf page, ptePW⟩) (List.range' 1 1023)
    (Function.update (fun _ => none) (pageOf 0) (some ⟨0, 0⟩)) = identityMapping := by
  funext page
  have first : pageOf (0 : Uptr) = 0 := by decide
  have stored := @storeAll_apply Nat Nat (Option Mapping) _ id (fun page => some ⟨addressOf page, ptePW⟩)
    (List.range' 1 1023) (Function.update (fun _ => none) (pageOf 0) (some ⟨0, 0⟩))
    (fun page => some ⟨addressOf page, ptePW⟩) (fun _ _ => rfl) page
  rw [stored, List.map_id, first, identityMapping]
  by_cases inside : page ∈ List.range' 1 1023
  · rw [if_pos inside]
    simp only [List.mem_range'] at inside
    rw [if_neg (by omega), if_pos (by omega)]
  · rw [if_neg inside]
    simp only [List.mem_range'] at inside
    by_cases zero : page = 0
    · rw [if_pos zero, zero, Function.update_self]
    · rw [if_neg zero, Function.update_of_ne zero, if_neg]
      exact fun small => inside ⟨page - 1, by omega, by omega⟩

/-- From the zeroed pages of the kernel's image, no assertion fails, and the mapping is the identity. -/
theorem setupPagedir_walked (pages : StaticPages directory starterPt ioPt memory) :
    ∃ after, setupPagedir directory starterPt ioPt memory = some after ∧
      (∀ idx < numEntries, tableAt directory after idx ∈ [0, starterPt, ioPt]) ∧
      Walked directory after identityMapping := by
  obtain ⟨⟨base, starter, io⟩, ⟨nonzero, nonzero'⟩, ⟨apart, apart', other⟩, zeroed⟩ := pages
  have fresh := Walked.fresh base fun idx inside => (zeroed idx inside).1
  have missing : ∀ idx < numEntries, tableAt directory memory idx = 0 := by
    intro idx inside
    rw [tableAt, (zeroed idx inside).1]
    exact BitVec.zero_and
  have low : 0 < numEntries := by decide
  have high : 1019 < numEntries := by decide
  have starts := addPagetable_eq fresh low (missing 0 low) starter apart
    (fun idx inside => (zeroed idx inside).2.1) ptePW
  have first := fresh.withTable low (missing 0 low) starter nonzero apart
    fun idx inside same => nonzero (same.symm.trans (missing idx inside))
  have now := fresh.tables.withTable low starter apart
  have vacant : tableAt directory (PagingRun.withTable directory memory 0 starterPt) 1019 = 0 := by
    rw [now 1019 high, if_neg (by decide), missing 1019 high]
  have kept : ∀ place < numEntries,
      PagingRun.withTable directory memory 0 starterPt (entryAt ioPt place) = 0 := by
    intro place within
    have elsewhere : entryAt ioPt place ≠ entryAt directory 0 := by
      rw [Ne, entryAt_inj io base within low]
      exact fun overlap => apart' overlap.1
    have outside : ∀ idx < numEntries, entryAt starterPt idx ≠ entryAt ioPt place := by
      intro idx inside
      rw [Ne, entryAt_inj starter io inside within]
      exact fun overlap => other overlap.1.symm
    rw [PagingRun.withTable, zeroPage_of_ne outside, Function.update_of_ne elsewhere, (zeroed place within).2.2]
  have continues := addPagetable_eq first high vacant io apart' kept ptePW
  have second := first.withTable high vacant io nonzero' apart' fun idx inside => by
    rw [now idx inside]
    split
    · exact other.symm
    · rw [missing idx inside]
      exact nonzero'.symm
  have there : tableAt directory (PagingRun.withTable directory
      (PagingRun.withTable directory memory 0 starterPt) 1019 ioPt) 0 = starterPt := by
    rw [first.tables.withTable high io apart' 0 low, if_neg (by decide), now 0 low, if_pos rfl]
  have entry : vaToIdx (MapCall.mk 0 0 0 0).virtualAddr = 0 := by decide
  have here : tableAt directory (PagingRun.withTable directory
      (PagingRun.withTable directory memory 0 starterPt) 1019 ioPt)
      (vaToIdx (MapCall.mk 0 0 0 0).virtualAddr) ≠ 0 := by
    rw [entry, there]
    exact nonzero
  obtain ⟨same, third⟩ := second.map ⟨0, 0, 0, 0⟩ (by decide) here
  have within : ∀ page ∈ List.range' 1 1023, page < 1024 := by
    simp only [List.mem_range']
    omega
  obtain ⟨after, looped, tables, final⟩ := third.identityMap (by rw [same 0 low, there]; exact nonzero) within
  rw [identityMapping_eq] at final
  have known : ∀ idx < numEntries, tableAt directory after idx ∈ [0, starterPt, ioPt] := by
    intro idx inside
    rw [tables idx inside, same idx inside, first.tables.withTable high io apart' idx inside,
      now idx inside, missing idx inside]
    split
    · simp
    · split <;> simp
  refine ⟨after, ?_, known, final⟩
  have done : (PageDirectory.tryMap directory (PagingRun.withTable directory
      (PagingRun.withTable directory memory 0 starterPt) 1019 ioPt) ⟨0, 0, 0, 0⟩).2 = true := by
    rw [tryMap_mapped here]
  simp only [setupPagedir, starts, continues, done, if_true]
  exact looped

/-- A page and an offset make the address. -/
theorem addressOf_or (address : Uptr) : addressOf (pageOf address) ||| address &&& 0xFFF = address := by
  have bound := address.isLt
  have offset : (address &&& 0xFFF).toNat = address.toNat % 4096 := Nat.and_two_pow_sub_one_eq_mod _ 12
  have page : (addressOf (pageOf address)).toNat = (address.toNat / 4096) <<< 12 := by
    rw [addressOf, BitVec.toNat_ofNat, Nat.shiftLeft_eq, pageOf]
    omega
  apply BitVec.eq_of_toNat_eq
  rw [BitVec.toNat_or, offset, page, ← Nat.shiftLeft_add_eq_or_of_lt (Nat.mod_lt _ (by decide)),
    Nat.shiftLeft_eq]
  omega

theorem translate_identity (user : Bool) (address : Uptr) : translate identityMapping user address =
    if 0x1000 ≤ address.toNat ∧ address.toNat < 0x400000 ∧ user = false then some address else none := by
  have number : pageOf address = address.toNat / 4096 := rfl
  rw [translate, identityMapping]
  by_cases zero : pageOf address = 0
  · rw [if_pos zero, if_neg (by omega)]
    simp
  · by_cases small : pageOf address < 1024
    · rw [if_neg zero, if_pos small, Option.bind_some, addressOf_or]
      have present : ptePW.getLsbD 0 = true := by decide
      refine if_congr ?_ rfl rfl
      rw [present, Bool.true_and, Bool.not_eq_true']
      exact ⟨fun kernel => ⟨by omega, by omega, kernel⟩, fun inside => inside.2.2⟩
    · rw [if_neg zero, if_neg small, if_neg (by omega)]
      rfl

/-- With the directory that `setup_pagedir` loads, the kernel finds at each address of the first 4 MiB
but the first page what was there without it; every other address, and every access of user code, is a
page fault. -/
theorem setupPagedir_identity (pages : StaticPages directory starterPt ioPt memory) :
    ∃ after, setupPagedir directory starterPt ioPt memory = some after ∧ ∀ user write address,
      walk directory after user write address =
        if 0x1000 ≤ address.toNat ∧ address.toNat < 0x400000 ∧ user = false then some address else none := by
  obtain ⟨after, loaded, -, walked⟩ := setupPagedir_walked pages
  exact ⟨after, loaded, fun user write address =>
    (walked.walk_eq user write address).trans (translate_identity user address)⟩

theorem staticPages_zero : StaticPages 0x101000 0x102000 0x103000 fun _ => 0 where
  aligned := by decide
  nonzero := by decide
  distinct := by decide
  zeroed _ _ := ⟨rfl, rfl, rfl⟩

/-- A write of the kernel to its own code. -/
theorem setupPagedir_identity_kernel : ∃ after, setupPagedir 0x101000 0x102000 0x103000 (fun _ => 0) = some after ∧
    walk 0x101000 after false true 0x100234 = some 0x100234 := by
  obtain ⟨after, loaded, walks⟩ := setupPagedir_identity staticPages_zero
  exact ⟨after, loaded, walks false true 0x100234⟩

end Setup

end WalnutOs.Kernel
