import WalnutOs.Kernel.Mmu
import WalnutOs.Kernel.AllocRun

/-! The page directory of the kernel over its own page allocator, with the other
users of that allocator. -/

namespace WalnutOs.Kernel

open WalnutOs.Klib WalnutOs.Lib PageDirectory PagingRun

/-- The memory and the allocator, with the mappings that `try_map` has made and the allocations that
others hold. -/
structure KernelMemory where
  heap : AllocRun
  memory : Memory
  mapped : Nat → Option Mapping
  held : List Allocation

inductive MemoryCall where
  | tryMap (virtualAddr physicalAddr : Uptr) (perm : BitVec 8)
  | kalloc (size : BitVec 32)
  | store (place offset : Nat) (value : BitVec 32)

namespace KernelMemory

def pageSize : BitVec 32 := 4096

/-- The state after `setup_pagedir`, before anything is allocated. -/
def start (memory : Memory) : KernelMemory := ⟨.start, memory, identityMapping, []⟩

/-- The address that `kalloc` answers, none for null. -/
def kalloc (size : BitVec 32) (heap : AllocRun) : Option (Option Nat × AllocRun) :=
  match heap.alloc.kalloc size with
  | .error _ => none
  | .ok (none, alloc) => some (none, { heap with alloc })
  | .ok (some addr, alloc) => some (some addr, ⟨alloc, ⟨addr, (listIndex size).toNat⟩ :: heap.live⟩)

/-- `kalloc` is called only where the directory has no table. -/
def newTable (directory : Uptr) (virtualAddr : Uptr) (state : KernelMemory) : Option (Uptr × AllocRun) :=
  if tableAt directory state.memory (vaToIdx virtualAddr) = 0 then
    (kalloc pageSize state.heap).map fun (answer, heap) => (BitVec.ofNat 32 (answer.getD 0), heap)
  else some (0, state.heap)

/-- The call of `try_map`, once there is an answer for a table. -/
def map (directory : Uptr) (state : KernelMemory) (heap : AllocRun) (call : MapCall) : KernelMemory :=
  { state with
    heap
    memory := (PageDirectory.tryMap directory state.memory call).1
    mapped := if (PageDirectory.tryMap directory state.memory call).2 then
      Function.update state.mapped (pageOf call.virtualAddr) (some ⟨call.physicalAddr, call.perm⟩)
      else state.mapped }

/-- `none` is a fault of the allocator. -/
def step (directory : Uptr) (state : KernelMemory) : MemoryCall → Option KernelMemory
  | .tryMap virtualAddr physicalAddr perm =>
    (newTable directory virtualAddr state).map fun (newPt, heap) =>
      map directory state heap ⟨virtualAddr, physicalAddr, perm, newPt⟩
  | .kalloc size =>
    (kalloc size state.heap).map fun (answer, heap) =>
      { state with heap, held := (answer.map fun addr => ⟨addr, (listIndex size).toNat⟩).toList ++ state.held }
  | .store place offset value =>
    (state.held[place]?).map fun held =>
      { state with memory := Function.update state.memory (held.addr + offset) value }

/-- Pages are mapped above the first 4 MiB, and others write words into what they hold. -/
def Admitted (state : KernelMemory) : MemoryCall → Prop
  | .tryMap virtualAddr physicalAddr _ =>
    PageAligned virtualAddr ∧ PageAligned physicalAddr ∧ 0x400000 ≤ virtualAddr.toNat
  | .kalloc size => 1 ≤ size.toNat ∧ size.toNat ≤ 64 * 4096
  | .store place offset _ => ∃ held, state.held[place]? = some held ∧ offset % 4 = 0 ∧
      offset < 2 ^ held.order * 4096

end KernelMemory

namespace AllocRun

open BuddyAllocator

variable {run : AllocRun}

/-- An allocation lies in the pages that are managed. -/
theorem Sound.live_region (sound : Sound run) {held : Allocation} (live : held ∈ run.live) :
    0x20000 ≤ held.addr ∧ held.addr % 4096 = 0 ∧ held.addr + 2 ^ held.order * 4096 ≤ 0x60000 := by
  rcases sound with rfl | ⟨tile, lists, partition, -⟩
  · cases live
  · obtain ⟨idx, -, addr, tiled, -⟩ := partition.owned held live
    have fits := partition.tiling.start_add_le tiled
    rw [addr, indexToAddr, blockOffset]
    omega

instance : Std.Symm Apart := ⟨fun _ _ => Or.symm⟩

/-- No allocation is apart from itself. -/
theorem Apart.irrefl {held : Allocation} : ¬Apart held held := by
  have size : 0 < 2 ^ held.order := Nat.two_pow_pos _
  unfold Apart
  omega

theorem Sound.apart_of_ne (sound : Sound run) {first second : Allocation} (live : first ∈ run.live)
    (live' : second ∈ run.live) (distinct : first ≠ second) : Apart first second :=
  sound.pairwise_apart.forall live live' distinct

/-- A request is refused, or the allocator hands out what was free. -/
theorem Sound.kalloc_cases (sound : Sound run) {size : BitVec 32} (small : size.toNat ≤ 64 * 4096) :
    ∃ answer after, KernelMemory.kalloc size run = some (answer, after) ∧ Sound after ∧
      after.live = (answer.map fun addr => (⟨addr, (listIndex size).toNat⟩ : Allocation)).toList ++ run.live := by
  obtain ⟨order, answered⟩ := kalloc_eq run.alloc small
  have whole : Sound ⟨run.alloc, run.live⟩ := sound
  have later := whole.allocate order (allocate_served run.alloc (by unfold numLists; omega))
  rcases served : run.alloc.allocate (listIndex size).toNat with ⟨_ | addr, alloc⟩
  · rw [served] at later answered
    exact ⟨none, ⟨alloc, run.live⟩, by simp only [KernelMemory.kalloc, answered], later, rfl⟩
  · rw [served] at later answered
    exact ⟨some addr, ⟨alloc, ⟨addr, (listIndex size).toNat⟩ :: run.live⟩,
      by simp only [KernelMemory.kalloc, answered], later, rfl⟩

end AllocRun

namespace KernelMemory

variable {directory : Uptr} {state : KernelMemory}

/-- The tables are pages of the kernel's image, or allocations that no one else holds. -/
structure Kept (directory : Uptr) (state : KernelMemory) : Prop where
  walked : Walked directory state.memory state.mapped
  sound : AllocRun.Sound state.heap
  image : 0x100000 ≤ directory.toNat
  held : ∀ held ∈ state.held, held ∈ state.heap.live
  tables : ∀ idx < numEntries, tableAt directory state.memory idx ≠ 0 →
    0x100000 ≤ (tableAt directory state.memory idx).toNat ∨
      ∃ table ∈ state.heap.live, table ∉ state.held ∧ table.addr = (tableAt directory state.memory idx).toNat
  identity : ∀ page < 1024, state.mapped page = identityMapping page

/-- A word of an allocation that is not a table's is no entry. -/
theorem Kept.store (kept : Kept directory state) {place offset : Nat} {value : BitVec 32}
    (admitted : state.Admitted (.store place offset value)) :
    ∃ after, step directory state (.store place offset value) = some after ∧ Kept directory after := by
  obtain ⟨held, found, -, within⟩ := admitted
  have owned := List.mem_of_getElem? found
  have live := kept.held held owned
  obtain ⟨-, multiple, region⟩ := kept.sound.live_region live
  have outside : ∀ base : Uptr, PageAligned base → (0x100000 ≤ base.toNat ∨
      base.toNat + 4096 ≤ held.addr ∨ held.addr + 2 ^ held.order * 4096 ≤ base.toNat) →
      ∀ idx < numEntries, held.addr + offset ≠ entryAt base idx := by
    intro base _ apart idx inside
    unfold entryAt numEntries at *
    omega
  have beyond := outside directory kept.walked.tables.base (.inl kept.image)
  obtain ⟨same, walked⟩ := kept.walked.store value beyond fun idx inside nonzero => by
    refine outside _ (kept.walked.tables.aligned idx inside) ?_
    rcases kept.tables idx inside nonzero with image | ⟨table, there, mine, addr⟩
    · exact .inl image
    · have distinct : table ≠ held := fun same => mine (same ▸ owned)
      have apart := kept.sound.apart_of_ne there live distinct
      have size : 1 ≤ 2 ^ table.order := Nat.one_le_two_pow
      unfold AllocRun.Apart at apart
      omega
  refine ⟨{ state with memory := Function.update state.memory (held.addr + offset) value },
    by rw [step, found, Option.map_some], walked, kept.sound, kept.image, kept.held, fun idx inside => ?_,
    kept.identity⟩
  rw [same idx inside]
  exact kept.tables idx inside

theorem Kept.kalloc (kept : Kept directory state) {size : BitVec 32}
    (admitted : state.Admitted (.kalloc size)) :
    ∃ after, step directory state (.kalloc size) = some after ∧ Kept directory after := by
  obtain ⟨answer, heap, served, sound, live⟩ := kept.sound.kalloc_cases admitted.2
  have distinct := (List.pairwise_append.mp (live ▸ sound.pairwise_apart)).2.2
  refine ⟨{ state with
      heap, held := (answer.map fun addr => ⟨addr, (listIndex size).toNat⟩).toList ++ state.held },
    by rw [step, served, Option.map_some], kept.walked, sound, kept.image, fun held owned => ?_,
    fun idx inside nonzero => ?_, kept.identity⟩
  · rw [live]
    exact (List.mem_append.mp owned).elim (List.mem_append_left _)
      fun old => List.mem_append_right _ (kept.held held old)
  · rcases kept.tables idx inside nonzero with image | ⟨table, there, mine, addr⟩
    · exact .inl image
    · refine .inr ⟨table, live ▸ List.mem_append_right _ there, fun owned => ?_, addr⟩
      rcases List.mem_append.mp owned with fresh | old
      · exact AllocRun.Apart.irrefl (distinct table fresh table there)
      · exact mine old

theorem identity_kept {virtualAddr : Uptr} (above : 0x400000 ≤ virtualAddr.toNat) (mapping : Mapping)
    {page : Nat} (small : page < 1024) :
    Function.update state.mapped (pageOf virtualAddr) (some mapping) page = state.mapped page := by
  have beyond : page ≠ pageOf virtualAddr := by
    unfold pageOf
    omega
  exact Function.update_of_ne beyond ..

/-- A page for which there is a table. -/
theorem Kept.map (kept : Kept directory state) {call : MapCall} (physical : PageAligned call.physicalAddr)
    (above : 0x400000 ≤ call.virtualAddr.toNat)
    (there : tableAt directory state.memory (vaToIdx call.virtualAddr) ≠ 0) :
    Kept directory (state.map directory state.heap call) := by
  obtain ⟨same, walked⟩ := kept.walked.map call physical there
  have done : (PageDirectory.tryMap directory state.memory call).2 = true := by rw [tryMap_mapped there]
  have mapped : (state.map directory state.heap call).mapped =
      Function.update state.mapped (pageOf call.virtualAddr) (some ⟨call.physicalAddr, call.perm⟩) := by
    rw [KernelMemory.map, if_pos done]
  refine ⟨mapped ▸ walked, kept.sound, kept.image, kept.held, fun idx inside nonzero => ?_,
    fun page small => ?_⟩
  · have now : tableAt directory (state.map directory state.heap call).memory idx =
        tableAt directory state.memory idx := same idx inside
    rw [now] at nonzero ⊢
    exact kept.tables idx inside nonzero
  · rw [mapped, identity_kept above _ small, kept.identity page small]

/-- A page of the allocator becomes a table. -/
theorem Kept.withTable (kept : Kept directory state) {idx : Nat} {table : Allocation} {heap : AllocRun}
    (mine : idx < numEntries) (missing : tableAt directory state.memory idx = 0) (sound : heap.Sound)
    (live : heap.live = table :: state.heap.live) :
    BitVec.ofNat 32 table.addr ≠ 0 ∧
      tableAt directory (PagingRun.withTable directory state.memory idx (BitVec.ofNat 32 table.addr)) idx =
        BitVec.ofNat 32 table.addr ∧
      Kept directory { state with
        heap, memory := PagingRun.withTable directory state.memory idx (BitVec.ofNat 32 table.addr) } := by
  have fresh : table ∈ heap.live := live ▸ List.mem_cons_self
  obtain ⟨low, multiple, high⟩ := sound.live_region fresh
  have size : 0 < 2 ^ table.order := Nat.two_pow_pos _
  have number : (BitVec.ofNat 32 table.addr).toNat = table.addr := Nat.mod_eq_of_lt (by omega)
  have others := (List.pairwise_cons.mp (live ▸ sound.pairwise_apart)).1
  have page : PageAligned (BitVec.ofNat 32 table.addr) := aligned_of_mod (by rw [number]; exact multiple)
  have nonzero : BitVec.ofNat 32 table.addr ≠ 0 := by
    intro zero
    have value : table.addr = 0 := number.symm.trans (congrArg BitVec.toNat zero)
    omega
  have apart : BitVec.ofNat 32 table.addr ≠ directory := by
    intro same
    have image := kept.image
    rw [← same, number] at image
    omega
  have unused : ∀ other < numEntries, tableAt directory state.memory other ≠ BitVec.ofNat 32 table.addr := by
    intro other inside same
    rcases kept.tables other inside (same ▸ nonzero) with image | ⟨old, there, -, addr⟩
    · rw [same, number] at image
      omega
    · have distinct := others old there
      rw [same, number] at addr
      have size' : 0 < 2 ^ old.order := Nat.two_pow_pos _
      unfold AllocRun.Apart at distinct
      omega
  have now := kept.walked.tables.withTable mine page apart
  have older : ∀ old ∈ state.heap.live, old ∈ heap.live := by
    rw [live]
    exact fun old there => List.mem_cons_of_mem _ there
  have held : ∀ held ∈ state.held, held ∈ heap.live := fun held owned => older held (kept.held held owned)
  have walked := kept.walked.withTable mine missing page nonzero apart unused
  refine ⟨nonzero, by rw [now idx mine, if_pos rfl], ?_⟩
  refine ⟨by dsimp only; exact walked, sound, kept.image, held, fun other inside found => ?_, kept.identity⟩
  dsimp only at found ⊢
  have entry := now other inside
  by_cases here : other = idx
  · rw [if_pos here] at entry
    refine .inr ⟨table, fresh, fun owned => AllocRun.Apart.irrefl (others table (kept.held table owned)), ?_⟩
    exact number.symm.trans (congrArg BitVec.toNat entry.symm)
  · rw [if_neg here] at entry
    rw [entry] at found ⊢
    rcases kept.tables other inside found with image | ⟨old, there, free, addr⟩
    · exact .inl image
    · exact .inr ⟨old, older old there, free, addr⟩

/-- A call that makes a table first goes on as if it had been there. -/
theorem map_eq {heap : AllocRun} {call : MapCall} {memory : Memory} (same :
    PageDirectory.tryMap directory state.memory call = PageDirectory.tryMap directory memory call) :
    state.map directory heap call = ({ state with heap, memory } : KernelMemory).map directory heap call := by
  rw [KernelMemory.map, KernelMemory.map, same]

theorem Kept.tryMap (kept : Kept directory state) {virtualAddr physicalAddr : Uptr} {perm : BitVec 8}
    (admitted : state.Admitted (.tryMap virtualAddr physicalAddr perm)) :
    ∃ after, step directory state (.tryMap virtualAddr physicalAddr perm) = some after ∧
      Kept directory after := by
  obtain ⟨-, physical, above⟩ := admitted
  have mine := vaToIdx_lt virtualAddr
  by_cases missing : tableAt directory state.memory (vaToIdx virtualAddr) = 0
  · obtain ⟨answer, heap, served, sound, live⟩ := kept.sound.kalloc_cases (show pageSize.toNat ≤ _ by decide)
    refine ⟨state.map directory heap ⟨virtualAddr, physicalAddr, perm, BitVec.ofNat 32 (answer.getD 0)⟩,
      by rw [step, newTable, if_pos missing, served]; rfl, ?_⟩
    cases answer with
    | none =>
      have refused : PageDirectory.tryMap directory state.memory ⟨virtualAddr, physicalAddr, perm,
          BitVec.ofNat 32 ((none : Option Nat).getD 0)⟩ = (state.memory, false) := tryMap_refused missing rfl
      have same : state.map directory heap ⟨virtualAddr, physicalAddr, perm,
          BitVec.ofNat 32 ((none : Option Nat).getD 0)⟩ = { state with heap } := by
        rw [KernelMemory.map, refused, if_neg Bool.false_ne_true]
      rw [same]
      exact ⟨kept.walked, sound, kept.image, fun held owned => by rw [live]; exact kept.held held owned,
        fun idx inside found => by rw [live]; exact kept.tables idx inside found, kept.identity⟩
    | some addr =>
      obtain ⟨nonzero, table, next⟩ := kept.withTable mine missing sound live
      have created : PageDirectory.tryMap directory state.memory ⟨virtualAddr, physicalAddr, perm,
          BitVec.ofNat 32 addr⟩ = PageDirectory.tryMap directory (PagingRun.withTable directory state.memory
            (vaToIdx virtualAddr) (BitVec.ofNat 32 addr)) ⟨virtualAddr, physicalAddr, perm,
              BitVec.ofNat 32 addr⟩ := tryMap_created missing nonzero (table.symm ▸ nonzero)
      have done := @Kept.map _ _ next ⟨virtualAddr, physicalAddr, perm, BitVec.ofNat 32 addr⟩ physical above
        (by dsimp only; rw [table]; exact nonzero)
      dsimp only at done
      rw [Option.getD_some, map_eq created]
      exact done
  · have next : Kept directory (state.map directory state.heap ⟨virtualAddr, physicalAddr, perm, 0⟩) :=
      kept.map physical above missing
    exact ⟨_, by rw [step, newTable, if_neg missing, Option.map_some], next⟩

/-- No admitted call faults, and the tables stay what they are. -/
theorem Kept.step (kept : Kept directory state) {call : MemoryCall} (admitted : state.Admitted call) :
    ∃ after, step directory state call = some after ∧ Kept directory after := by
  cases call with
  | tryMap virtualAddr physicalAddr perm => exact kept.tryMap admitted
  | kalloc size => exact kept.kalloc admitted
  | store place offset value => exact kept.store admitted

theorem Kept.start {starterPt ioPt : Uptr} {memory loaded : Memory}
    (pages : StaticPages directory starterPt ioPt memory)
    (image : 0x100000 ≤ directory.toNat ∧ 0x100000 ≤ starterPt.toNat ∧ 0x100000 ≤ ioPt.toNat)
    (setUp : setupPagedir directory starterPt ioPt memory = some loaded) :
    Kept directory (start loaded) := by
  obtain ⟨after, answer, known, walked⟩ := setupPagedir_walked pages
  cases Option.some.inj (answer.symm.trans setUp)
  refine ⟨walked, .inl rfl, image.1, nofun, fun idx inside nonzero => .inl ?_, fun _ _ => rfl⟩
  have table := known idx inside
  simp only [List.mem_cons, List.not_mem_nil, or_false] at table
  rcases table with zero | starter | io
  · exact absurd zero nonzero
  · exact starter ▸ image.2.1
  · exact io ▸ image.2.2

end KernelMemory

end WalnutOs.Kernel
