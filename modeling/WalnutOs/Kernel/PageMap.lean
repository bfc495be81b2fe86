import WalnutOs.Kernel.PageTables

/-! The page directory as a partial map from pages to pages, over runs of
`try_map`. -/

namespace WalnutOs.Kernel

open WalnutOs.Lib

/-- The memory, with the partial map that the directory is meant to be. -/
structure PagingRun where
  memory : Memory
  mapped : Nat → Option Uptr

namespace PagingRun

open PageDirectory

/-- A directory before anything is mapped. -/
def start (memory : Memory) : PagingRun := ⟨memory, fun _ => none⟩

def step (directory : Uptr) (run : PagingRun) (call : MapCall) : PagingRun where
  memory := (tryMap directory run.memory call).1
  mapped := if (tryMap directory run.memory call).2 then
    Function.update run.mapped (pageOf call.virtualAddr) (some call.physicalAddr) else run.mapped

/-- The pages are aligned, and a page that `kalloc` returns is neither that of the
directory nor one of its tables. -/
structure Admitted (directory : Uptr) (run : PagingRun) (call : MapCall) : Prop where
  virtual : PageAligned call.virtualAddr
  physical : PageAligned call.physicalAddr
  page : PageAligned call.newPt
  apart : call.newPt ≠ directory
  unused : ∀ idx < numEntries, call.newPt ≠ 0 →
    PageDirectoryEntry.ptAddress (run.memory (entryAt directory idx)) ≠ call.newPt

instance (directory : Uptr) (run : PagingRun) (call : MapCall) :
    Decidable (Admitted directory run call) :=
  decidable_of_iff (PageAligned call.virtualAddr ∧ PageAligned call.physicalAddr ∧
      PageAligned call.newPt ∧ call.newPt ≠ directory ∧ ∀ idx < numEntries, call.newPt ≠ 0 →
        PageDirectoryEntry.ptAddress (run.memory (entryAt directory idx)) ≠ call.newPt)
    ⟨fun ⟨virtual, physical, page, apart, unused⟩ => ⟨virtual, physical, page, apart, unused⟩,
      fun ⟨virtual, physical, page, apart, unused⟩ => ⟨virtual, physical, page, apart, unused⟩⟩

/-- The address of the table that a directory has at an index, or 0. -/
def tableAt (directory : Uptr) (memory : Memory) (idx : Nat) : Uptr :=
  PageDirectoryEntry.ptAddress (memory (entryAt directory idx))

/-- The tables are pages of their own. -/
structure Tables (directory : Uptr) (memory : Memory) : Prop where
  base : PageAligned directory
  aligned : ∀ idx < numEntries, PageAligned (tableAt directory memory idx)
  apart : ∀ idx < numEntries, tableAt directory memory idx ≠ 0 →
    tableAt directory memory idx ≠ directory
  distinct : ∀ idx < numEntries, ∀ other < numEntries, tableAt directory memory idx ≠ 0 →
    tableAt directory memory idx = tableAt directory memory other → idx = other

/-- The tables hold the partial map, with 0 for a page that is not mapped. -/
structure Paged (directory : Uptr) (memory : Memory) (mapped : Nat → Option Uptr) : Prop where
  tables : Tables directory memory
  absent : ∀ address, tableAt directory memory (vaToIdx address) = 0 → mapped (pageOf address) = none
  present : ∀ address, tableAt directory memory (vaToIdx address) ≠ 0 →
    PageTable.vaToPa memory (tableAt directory memory (vaToIdx address)) address =
      (mapped (pageOf address)).getD 0

/-- Some page is mapped for the directory entry that translates this address. -/
def Touched (mapped : Nat → Option Uptr) (address : Uptr) : Prop :=
  ∃ other, vaToIdx other = vaToIdx address ∧ mapped (pageOf other) ≠ none

section Steps

variable {directory : Uptr} {memory : Memory} {mapped : Nat → Option Uptr} {call : MapCall}

theorem tryMap_mapped (there : tableAt directory memory (vaToIdx call.virtualAddr) ≠ 0) :
    tryMap directory memory call = (Function.update memory
      (entryAt (tableAt directory memory (vaToIdx call.virtualAddr))
        (PageTable.ptIdx call.virtualAddr))
      (PageTableEntry.map call.physicalAddr call.perm), true) := by
  have entry : PageDirectoryEntry.getPt (memory (entryAt directory (vaToIdx call.virtualAddr))) =
      some (tableAt directory memory (vaToIdx call.virtualAddr)) := if_neg there
  unfold tableAt at there
  simp only [tryMap, if_neg there, PageDirectoryEntry.tryMap, entry, Option.map_some]

theorem tryMap_refused (missing : tableAt directory memory (vaToIdx call.virtualAddr) = 0)
    (null : call.newPt = 0) : tryMap directory memory call = (memory, false) := by
  unfold tableAt at missing
  simp only [tryMap, if_pos missing, nullable, if_pos null]

/-- The memory after a new table is put into the directory and cleared. -/
def withTable (directory : Uptr) (memory : Memory) (idx : Nat) (newPt : Uptr) : Memory :=
  zeroPage newPt (Function.update memory (entryAt directory idx) (newPt ||| pteP ||| pteW))

theorem tryMap_created (missing : tableAt directory memory (vaToIdx call.virtualAddr) = 0)
    (page : call.newPt ≠ 0)
    (stays : tableAt directory (withTable directory memory (vaToIdx call.virtualAddr) call.newPt)
      (vaToIdx call.virtualAddr) ≠ 0) :
    tryMap directory memory call = tryMap directory
      (withTable directory memory (vaToIdx call.virtualAddr) call.newPt) call := by
  unfold tableAt at missing stays
  unfold tryMap
  simp only [missing, nullable, if_neg page, PageDirectoryEntry.addPt, ne_eq, not_true_eq_false,
    if_false, if_true, if_neg stays]
  rfl

/-- The entry of an address in its table is none of the directory's. -/
theorem Tables.entry_ne (tables : Tables directory memory) {address : Uptr}
    (found : tableAt directory memory (vaToIdx address) ≠ 0) {idx : Nat} (inside : idx < numEntries) :
    entryAt (tableAt directory memory (vaToIdx address)) (PageTable.ptIdx address) ≠
      entryAt directory idx := by
  rw [Ne, entryAt_inj (tables.aligned _ (vaToIdx_lt address)) tables.base (ptIdx_lt _) inside]
  exact fun overlap => tables.apart _ (vaToIdx_lt address) found overlap.1

/-- Two pages have two entries. -/
theorem Tables.entry_ne_of_page (tables : Tables directory memory) {address other : Uptr}
    (found : tableAt directory memory (vaToIdx address) ≠ 0) (apart : pageOf address ≠ pageOf other) :
    entryAt (tableAt directory memory (vaToIdx address)) (PageTable.ptIdx address) ≠
      entryAt (tableAt directory memory (vaToIdx other)) (PageTable.ptIdx other) := by
  have inside := vaToIdx_lt address
  have inside' := vaToIdx_lt other
  rw [Ne, entryAt_inj (tables.aligned _ inside) (tables.aligned _ inside') (ptIdx_lt _) (ptIdx_lt _)]
  rintro ⟨table, place⟩
  exact apart (pageOf_eq_iff.mpr ⟨tables.distinct _ inside _ inside' found table, place⟩)

/-- Mapping a page for which there is a table. -/
theorem Paged.map (paged : Paged directory memory mapped) (physical : PageAligned call.physicalAddr)
    (there : tableAt directory memory (vaToIdx call.virtualAddr) ≠ 0) :
    (∀ idx < numEntries, tableAt directory (tryMap directory memory call).1 idx =
      tableAt directory memory idx) ∧
    Paged directory (tryMap directory memory call).1
      (Function.update mapped (pageOf call.virtualAddr) (some call.physicalAddr)) := by
  obtain ⟨tables, absent, present⟩ := paged
  simp only [tryMap_mapped there]
  have same : ∀ idx < numEntries, tableAt directory (Function.update memory
      (entryAt (tableAt directory memory (vaToIdx call.virtualAddr))
        (PageTable.ptIdx call.virtualAddr))
      (PageTableEntry.map call.physicalAddr call.perm)) idx = tableAt directory memory idx := by
    intro idx inside
    rw [tableAt, Function.update_of_ne (tables.entry_ne there inside).symm, tableAt]
  refine ⟨same, ⟨tables.base, ?_, ?_, ?_⟩, ?_, ?_⟩
  · intro idx inside
    rw [same idx inside]
    exact tables.aligned idx inside
  · intro idx inside
    rw [same idx inside]
    exact tables.apart idx inside
  · intro idx inside other inside'
    rw [same idx inside, same other inside']
    exact tables.distinct idx inside other inside'
  · intro address missing
    rw [same _ (vaToIdx_lt address)] at missing
    have other : pageOf address ≠ pageOf call.virtualAddr := fun here =>
      there ((pageOf_eq_iff.mp here).1 ▸ missing)
    rw [Function.update_of_ne other]
    exact absent address missing
  · intro address found
    rw [same _ (vaToIdx_lt address)] at found ⊢
    rw [PageTable.vaToPa]
    by_cases here : pageOf address = pageOf call.virtualAddr
    · obtain ⟨entry, place⟩ := pageOf_eq_iff.mp here
      rw [here, Function.update_self, entry, place, Function.update_self,
        pageAddress_map physical, Option.getD_some]
    · rw [Function.update_of_ne here, Function.update_of_ne (tables.entry_ne_of_page found here)]
      exact present address found

/-- A page that is aligned and not the directory can be made a table. -/
theorem Tables.withTable {idx : Nat} {newPt : Uptr} (tables : Tables directory memory)
    (mine : idx < numEntries) (page : PageAligned newPt) (apart : newPt ≠ directory)
    (other : Nat) (inside : other < numEntries) :
    tableAt directory (withTable directory memory idx newPt) other =
      if other = idx then newPt else tableAt directory memory other := by
  have outside : ∀ place < numEntries, entryAt newPt place ≠ entryAt directory other := by
    intro place within
    rw [Ne, entryAt_inj page tables.base within inside]
    exact fun overlap => apart overlap.1
  rw [tableAt, PagingRun.withTable, zeroPage_of_ne outside]
  by_cases here : other = idx
  · subst here
    rw [if_pos rfl, Function.update_self, ptAddress_addPt page]
  · have elsewhere : entryAt directory other ≠ entryAt directory idx := by
      rw [Ne, entryAt_inj tables.base tables.base inside mine]
      exact fun overlap => here overlap.2
    rw [if_neg here, Function.update_of_ne elsewhere, tableAt]

/-- A new table translates the pages of its entry to 0. -/
theorem Paged.withTable {idx : Nat} {newPt : Uptr} (paged : Paged directory memory mapped)
    (mine : idx < numEntries) (missing : tableAt directory memory idx = 0)
    (page : PageAligned newPt) (apart : newPt ≠ directory)
    (unused : ∀ other < numEntries, tableAt directory memory other ≠ newPt) :
    Paged directory (withTable directory memory idx newPt) mapped := by
  obtain ⟨tables, absent, present⟩ := paged
  have now := tables.withTable mine page apart
  refine ⟨⟨tables.base, ?_, ?_, ?_⟩, ?_, ?_⟩
  · intro other inside
    rw [now other inside]
    split
    · exact page
    · exact tables.aligned other inside
  · intro other inside
    rw [now other inside]
    split
    · exact fun _ => apart
    · exact tables.apart other inside
  · intro first inside second inside'
    rw [now first inside, now second inside']
    split <;> split <;> intro found same
    · omega
    · exact absurd same.symm (unused second inside')
    · exact absurd same (unused first inside)
    · exact tables.distinct first inside second inside' found same
  · intro address
    rw [now _ (vaToIdx_lt address)]
    split
    · rename_i here
      exact fun _ => absent address (here ▸ missing)
    · exact absent address
  · intro address
    rw [now _ (vaToIdx_lt address)]
    split
    · rename_i here
      intro _
      rw [absent address (here ▸ missing), Option.getD_none, PageTable.vaToPa, PagingRun.withTable,
        zeroPage_entry (ptIdx_lt address)]
      exact BitVec.zero_and
    · intro found
      have kept : ∀ place < numEntries, entryAt newPt place ≠
          entryAt (tableAt directory memory (vaToIdx address)) (PageTable.ptIdx address) := by
        intro place within
        rw [Ne, entryAt_inj page (tables.aligned _ (vaToIdx_lt address)) within (ptIdx_lt _)]
        exact fun overlap => unused _ (vaToIdx_lt address) overlap.1.symm
      rw [← present address found, PageTable.vaToPa, PagingRun.withTable, zeroPage_of_ne kept,
        Function.update_of_ne (tables.entry_ne found mine), PageTable.vaToPa]

/-- What a call does: it is refused for want of a table, or it maps the page. -/
theorem Paged.tryMap (paged : Paged directory memory mapped) {run : PagingRun}
    (here : run.memory = memory) (admitted : Admitted directory run call) :
    PageDirectory.tryMap directory memory call = (memory, false) ∨
      (PageDirectory.tryMap directory memory call).2 = true ∧
      (∀ idx < numEntries, idx ≠ vaToIdx call.virtualAddr →
        tableAt directory (PageDirectory.tryMap directory memory call).1 idx =
          tableAt directory memory idx) ∧
      Paged directory (PageDirectory.tryMap directory memory call).1
        (Function.update mapped (pageOf call.virtualAddr) (some call.physicalAddr)) := by
  subst here
  have mine := vaToIdx_lt call.virtualAddr
  by_cases missing : tableAt directory run.memory (vaToIdx call.virtualAddr) = 0
  · by_cases null : call.newPt = 0
    · exact .inl (tryMap_refused missing null)
    · right
      have now := paged.tables.withTable mine admitted.page admitted.apart
      have created := paged.withTable mine missing admitted.page admitted.apart
        fun other inside => admitted.unused other inside null
      have there : tableAt directory (PagingRun.withTable directory run.memory
          (vaToIdx call.virtualAddr) call.newPt) (vaToIdx call.virtualAddr) ≠ 0 := by
        rw [now _ mine, if_pos rfl]
        exact null
      obtain ⟨same, done⟩ := created.map admitted.physical there
      rw [tryMap_created missing null there]
      refine ⟨by rw [tryMap_mapped there], fun idx inside other => ?_, done⟩
      rw [same idx inside, now idx inside, if_neg other]
  · right
    obtain ⟨same, done⟩ := paged.map admitted.physical missing
    exact ⟨by rw [tryMap_mapped missing], fun idx inside _ => same idx inside, done⟩

theorem Paged.vaToPa (paged : Paged directory memory mapped) (address : Uptr) :
    PageDirectory.vaToPa directory memory address =
      if tableAt directory memory (vaToIdx address) = 0 then none
      else some ((mapped (pageOf address)).getD 0) := by
  have entry : PageDirectoryEntry.getPt (entryOf memory directory address) =
      nullable 0 (tableAt directory memory (vaToIdx address)) := rfl
  rw [PageDirectory.vaToPa, entry, nullable]
  by_cases missing : tableAt directory memory (vaToIdx address) = 0
  · rw [if_pos missing, if_pos missing]
  · rw [if_neg missing, if_neg missing]
    have page : PageTable.vaToPa memory (tableAt directory memory (vaToIdx address)) address ≠ -1 :=
      pageAddress_ne _
    simp only [nullable, if_neg page]
    rw [paged.present address missing]

end Steps

/-- The tables hold the partial map, and there is one only where a page is mapped. -/
structure Valid (directory : Uptr) (run : PagingRun) : Prop where
  paged : Paged directory run.memory run.mapped
  touched : ∀ address, tableAt directory run.memory (vaToIdx address) ≠ 0 →
    Touched run.mapped address

section Runs

variable {directory : Uptr} {run : PagingRun} {call : MapCall}

theorem Valid.start {memory : Memory} (aligned : PageAligned directory)
    (fresh : ∀ idx < numEntries, memory (entryAt directory idx) = 0) :
    Valid directory (start memory) := by
  have none : ∀ idx < numEntries, tableAt directory memory idx = 0 := by
    intro idx inside
    rw [tableAt, fresh idx inside]
    exact BitVec.zero_and
  have absent := fun address : Uptr => none (vaToIdx address) (vaToIdx_lt address)
  refine ⟨⟨⟨aligned, ?_, ?_, ?_⟩, fun _ _ => rfl, ?_⟩, ?_⟩
  · intro idx inside
    rw [PagingRun.start, none idx inside]
    exact BitVec.zero_and
  · exact fun idx inside found => absurd (none idx inside) found
  · exact fun idx inside _ _ found => absurd (none idx inside) found
  · exact fun address found => absurd (absent address) found
  · exact fun address found => absurd (absent address) found

theorem Valid.step (valid : Valid directory run) (admitted : Admitted directory run call) :
    Valid directory (run.step directory call) := by
  rcases valid.paged.tryMap rfl admitted with refused | ⟨done, others, paged⟩
  · have same : run.step directory call = run := by simp [PagingRun.step, refused]
    rwa [same]
  · have mapped : (run.step directory call).mapped =
        Function.update run.mapped (pageOf call.virtualAddr) (some call.physicalAddr) := by
      simp [PagingRun.step, done]
    refine ⟨by rw [mapped]; exact paged, fun address found => ?_⟩
    rw [mapped]
    by_cases here : vaToIdx address = vaToIdx call.virtualAddr
    · exact ⟨call.virtualAddr, here.symm, by rw [Function.update_self]; exact Option.some_ne_none _⟩
    · obtain ⟨other, same, there⟩ := valid.touched address
        ((others _ (vaToIdx_lt address) here) ▸ found)
      have apart : pageOf other ≠ pageOf call.virtualAddr := fun page =>
        here (same.symm.trans (pageOf_eq_iff.mp page).1)
      exact ⟨other, same, by rwa [Function.update_of_ne apart]⟩

/-- `va_to_pa` answers for the address as the partial map does. -/
def Translates (directory : Uptr) (run : PagingRun) (address : Uptr) : Prop :=
  vaToPa directory run.memory address = run.mapped (pageOf address)

/-- A table answers 0, not none, for a page that is not mapped. -/
theorem Valid.translates_iff_touched (valid : Valid directory run) (address : Uptr) :
    Translates directory run address ↔
      run.mapped (pageOf address) ≠ none ∨ ¬ Touched run.mapped address := by
  rw [Translates, valid.paged.vaToPa address]
  by_cases missing : tableAt directory run.memory (vaToIdx address) = 0
  · rw [if_pos missing]
    refine iff_of_true (valid.paged.absent address missing).symm (.inr ?_)
    rintro ⟨other, same, there⟩
    exact there (valid.paged.absent other (same ▸ missing))
  · rw [if_neg missing]
    have touched := valid.touched address missing
    cases run.mapped (pageOf address) with
    | none => simp [touched]
    | some page => simp

/-- A failed call leaves the translation of every address as it was. -/
def FailsQuietly (directory : Uptr) (run : PagingRun) : Prop :=
  ∀ call, Admitted directory run call → (tryMap directory run.memory call).2 = false →
    ∀ address, vaToPa directory (run.step directory call).memory address =
      vaToPa directory run.memory address

theorem Valid.failsQuietly (valid : Valid directory run) : FailsQuietly directory run := by
  intro call admitted failed address
  rcases valid.paged.tryMap rfl admitted with refused | ⟨done, -⟩
  · simp [PagingRun.step, refused]
  · rw [failed] at done
    cases done

end Runs

/-- After every sequence of calls, an address is translated as by the partial map
exactly when its page is mapped or no page of its directory entry is, and failed
calls change nothing. -/
theorem translates_iff {directory : Uptr} {memory : Memory} (aligned : PageAligned directory)
    (fresh : ∀ idx < numEntries, memory (entryAt directory idx) = 0) {calls : List MapCall}
    (admitted : EveryStep (step directory) (Admitted directory) (start memory) calls)
    (address : Uptr) :
    (Translates directory (calls.foldl (step directory) (start memory)) address ↔
      (calls.foldl (step directory) (start memory)).mapped (pageOf address) ≠ none ∨
        ¬ Touched (calls.foldl (step directory) (start memory)).mapped address) ∧
      FailsQuietly directory (calls.foldl (step directory) (start memory)) := by
  have valid := EveryStep.final (fun _ _ valid admitted => Valid.step valid admitted)
    (Valid.start aligned fresh) admitted
  exact ⟨valid.translates_iff_touched address, valid.failsQuietly⟩

/-- Two pages of one table are mapped; a third call finds no memory for its table. -/
theorem translates_mapped : Translates 0x1000 ([⟨0x400000, 0x5000, 3, 0x2000⟩,
      ⟨0x401000, 0x6000, 1, 0⟩, ⟨0x800000, 0x7000, 3, 0⟩].foldl (step 0x1000) (start fun _ => 0))
    0x401234 :=
  (translates_iff (by decide) (fun _ _ => rfl) (by decide +kernel) _).1.mpr
    (.inl (by decide +kernel))

/-- After one page is mapped, the next one is translated to page 0. -/
theorem unmapped_page_is_zero : ¬ ∀ directory memory calls, PageAligned directory →
    (∀ idx < numEntries, memory (entryAt directory idx) = 0) →
    EveryStep (step directory) (Admitted directory) (start memory) calls →
    ∀ address, Translates directory (calls.foldl (step directory) (start memory)) address := by
  intro claim
  have answer := claim 0x1000 (fun _ => 0) [⟨0, 0x5000, 3, 0x2000⟩] (by decide) (fun _ _ => rfl)
    (by decide +kernel) 0x1000
  revert answer
  unfold Translates
  decide +kernel

end PagingRun

end WalnutOs.Kernel
