import WalnutOs.Kernel.AllocRun

/-! Which invalid frees `kfree` detects: the flag of a page stays clear after the block
that begins there was merged into a lower one. -/

namespace WalnutOs.Kernel

open WalnutOs.Klib WalnutOs.Lib

namespace BuddyAllocator

variable {alloc after : BuddyAllocator} {idx other : BlockIndex} {listIdx order bound : Nat}

/-- From a block of this order upwards, the buddies flagged free are above it. -/
def MergesAbove (isFree : BlockIndex → Bool) (idx : BlockIndex) : Nat → Nat → Prop
  | 0, _ => True
  | bound + 1, order =>
    match buddyOf idx order with
    | none => True
    | some other => isFree other = true → idx < other ∧ MergesAbove isFree idx bound (order + 1)

instance MergesAbove.decidable (isFree : BlockIndex → Bool) (idx : BlockIndex) :
    (bound order : Nat) → Decidable (MergesAbove isFree idx bound order)
  | 0, _ => .isTrue trivial
  | bound + 1, order => by
    unfold MergesAbove
    cases buddyOf idx order with
    | none => exact .isTrue trivial
    | some other =>
      have := MergesAbove.decidable isFree idx bound (order + 1)
      exact inferInstanceAs (Decidable (_ → _ ∧ _))

/-- Only a block smaller than the whole has a buddy above it. -/
theorem order_lt_of_above (found : buddyOf idx order = some other) (above : idx < other) : order < 6 := by
  rcases Nat.lt_or_ge order 20 with small | large
  · have all : ∀ idx : BlockIndex, ∀ order : Fin 20,
        (buddyOf idx order.val).all (fun other => decide (idx < other → order.val < 6)) = true := by
      decide +kernel
    have one := all idx ⟨order, small⟩
    rw [found] at one
    exact of_decide_eq_true one above
  · obtain ⟨extra, rfl⟩ := Nat.exists_eq_add_of_le large
    have positive := Nat.two_pow_pos extra
    have size : 2 ^ (20 + extra + smallestBlockSize) = 2 ^ 32 * 2 ^ extra := by
      rw [← Nat.pow_add]
      congr 1
      simp only [smallestBlockSize]
      omega
    have inside := idx.isLt
    have same : buddyOf idx (20 + extra) = some idx := by
      have low : (idx.val * 0x1000 + 2 ^ 32 * 2 ^ extra + blockOffset + (2 ^ 32 - blockOffset)) % 2 ^ 32 /
          0x1000 = idx.val := by
        simp only [blockOffset]
        omega
      have high : (idx.val * 0x1000 + (2 ^ 32 - 2 ^ 32 * 2 ^ extra) + blockOffset +
          (2 ^ 32 - blockOffset)) % 2 ^ 32 / 0x1000 = idx.val := by
        simp only [blockOffset]
        omega
      simp only [buddyOf, addrToIndex, size, low, high, numBlocks, inside, dif_pos, ite_self]
    cases Option.some.inj (same.symm.trans found)
    exact absurd above (lt_irrefl _)

theorem removeFromList_ok (answer : alloc.removeFromList other = .ok after) : Removed alloc after other := by
  have listed : alloc.order other < numLists := by
    by_contra large
    have large : ¬(alloc.blocks other).order < numLists := large
    simp only [removeFromList, if_neg large] at answer
    cases answer
  obtain ⟨_, answer', removed⟩ := removeFromList_removed listed
  cases answer.symm.trans answer'
  exact removed

/-- A block that only merges buddies above it keeps its place, and no flag is changed. -/
theorem coalesce_above {order' : Nat} {idx' : BlockIndex} (own : alloc.order idx = order)
    (merges : MergesAbove alloc.isFree idx bound order)
    (answer : alloc.coalesce bound order idx = .ok (order', idx', after)) :
    idx' = idx ∧ after.isFree = alloc.isFree := by
  induction bound generalizing alloc order with
  | zero => cases answer
  | succ bound ih =>
    have index : alloc.buddyIndex idx = buddyOf idx order := by
      rw [buddyIndex, ← own]
      rfl
    by_cases merging : ∃ other, buddyOf idx order = some other ∧ alloc.isFree other = true
    · obtain ⟨other, found, free⟩ := merging
      have unused : (alloc.blocks other).isFree = true := free
      cases taken : alloc.removeFromList other with
      | error fault =>
        simp only [coalesce, index, found, unused, if_true, taken] at answer
        cases answer
      | ok mid =>
        have removed := removeFromList_ok taken
        rw [MergesAbove, found] at merges
        obtain ⟨above, rest⟩ := merges free
        have small := order_lt_of_above found above
        have low : lower idx other = idx := by
          rw [lower, if_neg (not_lt.mpr (le_of_lt above))]
        rw [coalesce_merge (index.trans found) free taken, low] at answer
        have flags : (mid.modify idx fun block => block.setOrder (order + 1)).isFree = alloc.isFree := by
          rw [isFree_modify_setOrder, removed.isFree]
        obtain ⟨place, same⟩ := ih (order_modify_setOrder _ _ _ (by omega)) (by rwa [flags]) answer
        exact ⟨place, same.trans flags⟩
    · have alone : ∀ other, buddyOf idx order = some other → alloc.isFree other = false :=
        fun other found => Bool.eq_false_iff.mpr fun free => merging ⟨other, found, free⟩
      rw [coalesce_stop (by rwa [index])] at answer
      cases answer
      exact ⟨rfl, rfl⟩

/-- Cutting a block clears no flag. -/
theorem isFree_splitDown (listIdx headAddr j : Nat) (free : alloc.isFree other = true) :
    (alloc.splitDown listIdx headAddr j).isFree other = true := by
  induction j generalizing alloc with
  | zero => exact free
  | succ j ih =>
    rw [splitDown]
    split
    · refine ih ?_
      cases addrToIndex (headAddr + 2 ^ (j + smallestBlockSize)) with
      | none => exact free
      | some middle =>
        rw [(pushFreeList_pushed alloc j middle).isFree]
        by_cases same : other = middle
        · rw [same, Function.update_self]
        · rw [Function.update_of_ne same]
          exact free
    · exact free

/-- The only flag that `kalloc` clears is that of the block it returns. -/
theorem Served.isFree {answer : Option Nat × BuddyAllocator} (served : Served alloc listIdx answer)
    (busy : answer.2.isFree other = false) :
    answer.1 = some (indexToAddr other) ∨ alloc.isFree other = false := by
  cases served with
  | none _ => exact .inr busy
  | @whole idx after _ popped =>
    by_cases same : other = idx
    · exact .inl (by rw [same])
    · exact .inr (by rw [← busy, popped.isFree, if_neg same])
  | @cut i idx after _ _ _ _ popped =>
    by_cases same : other = idx
    · exact .inl (by rw [same])
    · refine .inr (Bool.eq_false_iff.mpr fun free => ?_)
      have kept : after.isFree other = true := by rw [popped.isFree, if_neg same, free]
      have still := isFree_splitDown listIdx (indexToAddr idx) i kept
      simp only [BuddyAllocator.isFree, blocks_modify, if_neg same] at busy still
      rw [busy] at still
      cases still

theorem Served.page {answer : Option Nat × BuddyAllocator} {addr : Nat}
    (served : Served alloc listIdx answer) (found : answer.1 = some addr) :
    ∃ idx, addr = indexToAddr idx := by
  cases served with
  | none _ => cases found
  | whole _ _ => exact ⟨_, (Option.some.inj found).symm⟩
  | cut _ _ _ _ _ => exact ⟨_, (Option.some.inj found).symm⟩

/-- A free that merges upwards sets the flag of its block and changes no other. -/
theorem kfree_flags (merges : MergesAbove alloc.isFree idx 8 (alloc.order idx))
    (freed : alloc.kfree (indexToAddr idx) = .ok after) :
    after.isFree = Function.update alloc.isFree idx true := by
  have page : indexToAddr idx % 2 ^ smallestBlockSize = 0 ∧ indexToAddr idx ≥ blockOffset := by
    simp only [indexToAddr, blockOffset, smallestBlockSize]
    omega
  rw [kfree, if_pos page, addrToIndex_indexToAddr] at freed
  simp only at freed
  split at freed
  · cases freed
  · cases answer : alloc.coalesce 8 (alloc.blocks idx).order idx with
    | error fault =>
      rw [answer] at freed
      cases freed
    | ok result =>
      obtain ⟨order', idx', merged⟩ := result
      rw [answer] at freed
      obtain ⟨rfl, flags⟩ := coalesce_above rfl merges answer
      simp only at freed
      split at freed
      · cases freed
        rw [(pushFreeList_pushed merged order' idx').isFree, flags]
      · cases freed

theorem kfree_free (free : alloc.isFree idx = true) : alloc.kfree (indexToAddr idx) =
    .error (.assertion "Attempted to free an already-freed block") := by
  have page : indexToAddr idx % 2 ^ smallestBlockSize = 0 ∧ indexToAddr idx ≥ blockOffset := by
    simp only [indexToAddr, blockOffset, smallestBlockSize]
    omega
  rw [kfree, if_pos page, addrToIndex_indexToAddr]
  exact if_pos free

theorem kfree_behind {addr : Nat} (page : addr % 2 ^ smallestBlockSize = 0 ∧ addr ≥ blockOffset)
    (behind : blockOffset + 64 * 4096 ≤ addr) (bound : addr < 2 ^ 32) :
    alloc.kfree addr = .error .outOfBounds := by
  simp only [kfree, if_pos page, addrToIndex_behind behind bound]

end BuddyAllocator

namespace AllocRun

open BuddyAllocator

variable {run after : AllocRun}

/-- A free merges its block only with buddies above it. -/
def FreesAbove (run : AllocRun) : AllocCall → Prop
  | .kalloc _ => True
  | .kfree place => ∀ held, run.live[place]? = some held → ∀ idx, addrToIndex held.addr = some idx →
      MergesAbove run.alloc.isFree idx 8 (run.alloc.order idx)

/-- An admitted call that, if it frees a block, merges it with buddies above it only. -/
def GuardedAbove (run : AllocRun) (call : AllocCall) : Prop := run.Admitted call ∧ run.FreesAbove call

instance (run : AllocRun) : (call : AllocCall) → Decidable (run.FreesAbove call)
  | .kalloc _ => .isTrue trivial
  | .kfree place =>
    match found : run.live[place]? with
    | none => .isTrue (by simp [FreesAbove, found])
    | some held =>
      decidable_of_iff (∀ idx ∈ addrToIndex held.addr,
        MergesAbove run.alloc.isFree idx 8 (run.alloc.order idx)) (by simp [FreesAbove, found])

instance (run : AllocRun) (call : AllocCall) : Decidable (run.GuardedAbove call) :=
  inferInstanceAs (Decidable (_ ∧ run.FreesAbove call))

/-- Every page whose flag is clear begins a live allocation, and these begin pages. -/
structure Flagged (run : AllocRun) : Prop where
  flag : ∀ idx, run.alloc.isFree idx = false → ∃ held ∈ run.live, held.addr = indexToAddr idx
  page : ∀ held ∈ run.live, ∃ idx, held.addr = indexToAddr idx

theorem Flagged.start : Flagged start := by
  refine ⟨fun idx busy => ?_, by simp [AllocRun.start]⟩
  simp [AllocRun.start, constructed, BuddyAllocator.isFree] at busy

theorem Flagged.kalloc (flagged : Flagged run) {size : BitVec 32} (small : size.toNat ≤ 64 * 4096)
    (taken : run.step (.kalloc size) = some after) : Flagged after := by
  obtain ⟨order, answer⟩ := kalloc_eq run.alloc small
  have served := allocate_served run.alloc (show (listIndex size).toNat < numLists by unfold numLists; omega)
  rcases result : run.alloc.allocate (listIndex size).toNat with ⟨_ | addr, alloc⟩
  · simp only [step, answer, result, Option.some.injEq] at taken
    subst taken
    rw [result] at served
    refine ⟨fun idx busy => ?_, flagged.page⟩
    rcases served.isFree busy with absent | before
    · cases absent
    · exact flagged.flag idx before
  · simp only [step, answer, result, Option.some.injEq] at taken
    subst taken
    rw [result] at served
    constructor
    · intro idx busy
      rcases served.isFree busy with here | before
      · exact ⟨_, List.mem_cons_self, Option.some.inj here⟩
      · obtain ⟨held, member, addr⟩ := flagged.flag idx before
        exact ⟨held, List.mem_cons_of_mem _ member, addr⟩
    · intro held member
      rcases List.mem_cons.mp member with rfl | member
      · exact served.page rfl
      · exact flagged.page held member

theorem Flagged.kfree (flagged : Flagged run) {place : Nat} (above : run.FreesAbove (.kfree place))
    (taken : run.step (.kfree place) = some after) : Flagged after := by
  cases found : run.live[place]? with
  | none =>
    simp only [step, found] at taken
    cases taken
  | some held =>
    obtain ⟨idx, addr⟩ := flagged.page held (List.mem_of_getElem? found)
    have merges := above held found idx (by rw [addr, addrToIndex_indexToAddr])
    cases freed : run.alloc.kfree held.addr with
    | error fault =>
      simp only [step, found, freed] at taken
      cases taken
    | ok alloc =>
      simp only [step, found, freed, Option.some.injEq] at taken
      subst taken
      rw [addr] at freed
      have flags := kfree_flags merges freed
      constructor
      · intro other busy
        have apart : other ≠ idx := by
          rintro rfl
          rw [flags, Function.update_self] at busy
          cases busy
        rw [flags, Function.update_of_ne apart] at busy
        obtain ⟨one, member, addr'⟩ := flagged.flag other busy
        rcases (Live.mem_iff found one).mp member with rfl | left
        · exact absurd (indexToAddr_inj (addr'.symm.trans addr)) apart
        · exact ⟨one, left, addr'⟩
      · intro one member
        exact flagged.page one ((Live.mem_iff found one).mpr (.inr member))

theorem Flagged.of_reach (reached : Reach AllocRun.step GuardedAbove AllocRun.start run) : Flagged run := by
  refine reached.invariant .start fun state call after flagged guarded taken => ?_
  cases call with
  | kalloc size => exact flagged.kalloc guarded.1.2 taken
  | kfree place => exact flagged.kfree guarded.2 taken

/-- `kfree` fails an assertion, before it changes anything. -/
def Detected (alloc : BuddyAllocator) (ptr : BitVec 32) : Prop :=
  ∃ message, alloc.kfree ptr.toNat = .error (.assertion message)

/-- No live allocation begins at the address. -/
def Invalid (run : AllocRun) (ptr : BitVec 32) : Prop := ∀ held ∈ run.live, held.addr ≠ ptr.toNat

/-- As long as every block freed was merged with buddies above it only, `kfree` detects every
invalid address except those of pages behind the 64 of the allocator. -/
theorem kfree_detects_iff (reached : Reach AllocRun.step GuardedAbove AllocRun.start run) (ptr : BitVec 32)
    (invalid : run.Invalid ptr) :
    Detected run.alloc ptr ↔ ¬(ptr.toNat % 4096 = 0 ∧ blockOffset + 64 * 4096 ≤ ptr.toNat) := by
  have bound := ptr.isLt
  by_cases page : ptr.toNat % 2 ^ smallestBlockSize = 0 ∧ ptr.toNat ≥ blockOffset
  · have aligned : ptr.toNat % 4096 = 0 := page.1
    by_cases inside : ptr.toNat < blockOffset + 64 * 4096
    · refine iff_of_true ?_ fun behind => absurd behind.2 (Nat.not_le_of_lt inside)
      obtain ⟨idx, index⟩ : ∃ idx, ptr.toNat = indexToAddr idx := by
        have start := page.2
        refine ⟨⟨(ptr.toNat - blockOffset) / 4096, by omega⟩, ?_⟩
        simp only [indexToAddr, blockOffset] at start ⊢
        omega
      have free : run.alloc.isFree idx = true := by
        by_contra busy
        obtain ⟨held, member, addr⟩ := (Flagged.of_reach reached).flag idx (Bool.eq_false_iff.mpr busy)
        exact invalid held member (addr.trans index.symm)
      rw [Detected, index]
      exact ⟨_, kfree_free free⟩
    · refine iff_of_false ?_ fun before => before ⟨aligned, Nat.le_of_not_lt inside⟩
      rintro ⟨message, answer⟩
      rw [kfree_behind page (Nat.le_of_not_lt inside) bound] at answer
      cases answer
  · refine iff_of_true ⟨_, if_neg page⟩ fun behind => page ⟨behind.1, by omega⟩

/-- A block freed above a live one is found free when it is freed again. -/
theorem kfree_detects_again : ∃ run, Reach AllocRun.step GuardedAbove AllocRun.start run ∧
    run.Invalid 0x21000 ∧ Detected run.alloc 0x21000 := by
  have freed : (follow AllocRun.step GuardedAbove AllocRun.start
      [.kalloc 1, .kalloc 1, .kfree 0]).map (·.live) = some [⟨0x20000, 0⟩] := by
    decide +kernel
  obtain ⟨run, taken, live⟩ := Option.map_eq_some_iff.mp freed
  have reached : Reach AllocRun.step GuardedAbove AllocRun.start run := .of_follow .start taken
  have invalid : run.Invalid 0x21000 := by
    intro held member
    rw [live] at member
    rw [List.mem_singleton.mp member]
    decide
  exact ⟨run, reached, invalid, (kfree_detects_iff reached 0x21000 invalid).mpr (by decide)⟩

/-- The second of two pages, freed after the first and merged into it, is freed again unnoticed. -/
theorem not_kfree_detects : ¬∀ run, Reach AllocRun.step Admitted AllocRun.start run →
    ∀ ptr : BitVec 32, run.Invalid ptr → Detected run.alloc ptr := by
  intro claim
  have freed : (follow AllocRun.step Admitted AllocRun.start
      [.kalloc 1, .kalloc 1, .kfree 1, .kfree 0]).map (fun run =>
        (run.live, (run.alloc.kfree 0x21000).toOption.isSome)) = some ([], true) := by
    decide +kernel
  obtain ⟨run, taken, final⟩ := Option.map_eq_some_iff.mp freed
  obtain ⟨nothing, unnoticed⟩ := Prod.mk.inj final
  have invalid : run.Invalid 0x21000 := by
    intro held member
    rw [nothing] at member
    cases member
  obtain ⟨message, answer⟩ := claim run (.of_follow .start taken) 0x21000 invalid
  have noticed : run.alloc.kfree 0x21000 = .error (.assertion message) := answer
  rw [noticed] at unnoticed
  cases unnoticed

end AllocRun

end WalnutOs.Kernel
