import WalnutOs.Kernel.AllocRun

/-! Which requests `kalloc` answers with a block inside the managed region: the list
computed is compared with the number of pages, and the first block is on a list too large. -/

namespace WalnutOs.Kernel

open WalnutOs.Klib WalnutOs.Lib

namespace BuddyAllocator

variable {alloc : BuddyAllocator} {size : BitVec 32}

/-- `kalloc` stays within its lists and returns null or a block of the 64 pages, aligned
to the request rounded up to a power of two pages. -/
def Respects (alloc : BuddyAllocator) (size : BitVec 32) : Prop :=
  ∃ answer after, alloc.kalloc size = .ok (answer, after) ∧ ∀ addr, answer = some addr →
    blockOffset ≤ addr ∧ max (2 ^ Nat.clog 2 size.toNat) 4096 ∣ addr - blockOffset ∧
      addr + size.toNat ≤ blockOffset + 64 * 4096

/-- The request is for at most 64 pages, or for so much that no list is computed; or it is
for at most 256 pages and the first block has been taken. -/
def FitsRegion (alloc : BuddyAllocator) (size : BitVec 32) : Prop :=
  size.toNat ≤ 2 ^ 18 ∨ 2 ^ 31 < size.toNat ∨ (size.toNat ≤ 2 ^ 20 ∧ alloc.freeLists 8 = none)

instance (alloc : BuddyAllocator) (size : BitVec 32) : Decidable (alloc.FitsRegion size) :=
  inferInstanceAs (Decidable (_ ∨ _ ∨ _ ∧ _))

theorem rounded_eq (num : Nat) : max (2 ^ Nat.clog 2 num) 4096 = 2 ^ Nat.clog 2 (max num 4096) := by
  have twelve : Nat.clog 2 4096 = 12 := Nat.clog_pow 2 12 Nat.one_lt_two
  rw [(Nat.clog_monotone 2).map_max, twelve, (pow_right_mono₀ one_le_two).map_max]
  rfl

/-- A request of up to 64 pages is for the list of the block that it is rounded up to. -/
theorem rounded_listIndex (small : size.toNat ≤ 2 ^ 18) :
    max (2 ^ Nat.clog 2 size.toNat) 4096 = 2 ^ (listIndex size).toNat * 4096 ∧
      size.toNat ≤ 2 ^ (listIndex size).toNat * 4096 := by
  obtain ⟨-, rounded⟩ := two_pow_listIndex (small.trans (by decide))
  refine ⟨by rw [rounded, rounded_eq], ?_⟩
  rw [rounded]
  exact (Nat.le_max_left _ _).trans (Nat.le_pow_clog Nat.one_lt_two _)

theorem kalloc_huge (huge : 2 ^ 31 < size.toNat) : alloc.kalloc size = .ok (none, alloc) := by
  rw [kalloc, listIndex_eq, if_neg (Nat.not_le_of_lt huge)]
  rfl

theorem listIndex_of_bounds (low high : Nat) (above : 2 ^ (low + 12) < size.toNat)
    (below : size.toNat ≤ 2 ^ (high + 12)) (most : high ≤ 19) :
    low + 1 ≤ listIndex size ∧ listIndex size ≤ high := by
  have small : size.toNat ≤ 2 ^ 31 := below.trans (Nat.pow_le_pow_right Nat.two_pos (by omega))
  have least : 2 ^ 12 ≤ 2 ^ (low + 12) := Nat.pow_le_pow_right Nat.two_pos (by omega)
  have page : max size.toNat 4096 = size.toNat := Nat.max_eq_left (by omega)
  have first : low + 12 < Nat.clog 2 size.toNat := (Nat.lt_clog_iff_pow_lt Nat.one_lt_two).mpr above
  have last : Nat.clog 2 size.toNat ≤ high + 12 := Nat.clog_le_of_le_pow below
  rw [listIndex_eq, if_pos small, page]
  omega

/-- The list computed is compared with the number of pages, not with that of the lists. -/
theorem kalloc_outside (above : 2 ^ 20 < size.toNat) (below : size.toNat ≤ 2 ^ 31) :
    alloc.kalloc size = .error .outOfBounds := by
  obtain ⟨low, high⟩ := listIndex_of_bounds 8 19 above below (Nat.le_refl _)
  have few : ¬(numBlocks : Int) ≤ listIndex size := by
    simp only [numBlocks]
    omega
  have none : ¬(0 ≤ listIndex size ∧ listIndex size < numLists) := by
    simp only [numLists]
    omega
  rw [kalloc, if_neg few, if_neg none]

/-- Requests of 65 to 256 pages are for the lists 7 and 8. -/
theorem kalloc_upper (alloc : BuddyAllocator) (above : 2 ^ 18 < size.toNat) (below : size.toNat ≤ 2 ^ 20) :
    ∃ listIdx, 7 ≤ listIdx ∧ listIdx ≤ 8 ∧ alloc.kalloc size = .ok (alloc.allocate listIdx) := by
  obtain ⟨low, high⟩ := listIndex_of_bounds 6 8 above below (by decide)
  refine ⟨(listIndex size).toNat, by omega, by omega, ?_⟩
  have few : ¬(numBlocks : Int) ≤ listIndex size := by
    simp only [numBlocks]
    omega
  have inside : 0 ≤ listIndex size ∧ listIndex size < numLists := by
    simp only [numLists]
    omega
  rw [kalloc, if_neg few, if_pos inside]

/-- A block of the size of the request, inside the 64 pages and aligned to its size. -/
theorem Respects.of_block {answer : Option Nat} {after : BuddyAllocator} (small : size.toNat ≤ 2 ^ 18)
    (answered : alloc.kalloc size = .ok (answer, after))
    (block : ∀ addr, answer = some addr → ∃ idx : BlockIndex, addr = indexToAddr idx ∧
      2 ^ (listIndex size).toNat ∣ idx.val ∧ idx.val + 2 ^ (listIndex size).toNat ≤ 64) :
    alloc.Respects size := by
  refine ⟨answer, after, answered, fun addr found => ?_⟩
  obtain ⟨idx, rfl, aligned, inside⟩ := block addr found
  obtain ⟨rounded, holds⟩ := rounded_listIndex small
  simp only [indexToAddr, rounded, blockOffset]
  generalize 2 ^ (listIndex size).toNat = pages at aligned inside holds ⊢
  clear rounded
  refine ⟨by omega, ?_, by omega⟩
  rw [Nat.add_sub_cancel]
  exact Nat.mul_dvd_mul_right aligned 4096

theorem Respects.of_null {after : BuddyAllocator} (answered : alloc.kalloc size = .ok (none, after)) :
    alloc.Respects size :=
  ⟨none, after, answered, nofun⟩

end BuddyAllocator

namespace AllocRun

open BuddyAllocator

variable {run : AllocRun} {size : BitVec 32}

/-- Requests are of any size, and only live allocations are freed. -/
def FreesLive (run : AllocRun) : AllocCall → Prop
  | .kalloc _ => True
  | .kfree place => place < run.live.length

/-- The requests fit the region, and the blocks that are freed merge whole buddies. -/
def GuardedRegion (run : AllocRun) : AllocCall → Prop
  | .kalloc size => run.alloc.FitsRegion size
  | .kfree place => run.Guarded (.kfree place)

instance (run : AllocRun) : (call : AllocCall) → Decidable (run.GuardedRegion call)
  | .kalloc size => inferInstanceAs (Decidable (run.alloc.FitsRegion size))
  | .kfree place => inferInstanceAs (Decidable (run.Guarded (.kfree place)))

/-- No block is larger than the whole, so that only the constructor fills a list above 6. -/
theorem Sound.upper_lists (sound : Sound run) : run = start ∨
    ∀ i, 6 < i → run.alloc.freeLists i = none := by
  rcases sound with initial | ⟨tile, lists, partition, -⟩
  · exact .inl initial
  · refine .inr fun i above => ?_
    cases head : run.alloc.freeLists i with
    | none => rfl
    | some idx =>
      obtain ⟨rest, nodes, -⟩ := partition.head_listed head
      have tiled := (partition.listed (nodes ▸ List.mem_cons_self : idx ∈ lists i)).2.1
      have small := (partition.tiling.within tiled).1
      omega

/-- Once the first block is taken there is none for more than 64 pages. -/
theorem Sound.kalloc_upper (sound : Sound run) (taken : run.alloc.freeLists 8 = none)
    (above : 2 ^ 18 < size.toNat) (below : size.toNat ≤ 2 ^ 20) :
    run.alloc.kalloc size = .ok (none, run.alloc) := by
  have empty : ∀ i, 6 < i → run.alloc.freeLists i = none := by
    rcases sound.upper_lists with rfl | empty
    · cases taken
    · exact empty
  obtain ⟨listIdx, low, high, answer⟩ := run.alloc.kalloc_upper above below
  rw [answer]
  have served := allocate_served run.alloc (show listIdx < numLists by simp only [numLists]; omega)
  generalize run.alloc.allocate listIdx = result at served ⊢
  cases served with
  | none _ => rfl
  | whole head _ =>
    rw [empty listIdx low] at head
    cases head
  | cut more _ _ head _ =>
    rw [empty _ (by omega)] at head
    cases head

/-- A block that serves a request of up to 64 pages lies in the region. -/
theorem Sound.respects_small (sound : Sound run) (small : size.toNat ≤ 2 ^ 18) :
    run.alloc.Respects size := by
  obtain ⟨order, answered⟩ := kalloc_eq run.alloc small
  have served := allocate_served run.alloc (show (listIndex size).toNat < numLists by unfold numLists; omega)
  generalize run.alloc.allocate (listIndex size).toNat = result at answered served
  obtain ⟨answer, after⟩ := result
  refine Respects.of_block small answered ?_
  generalize (listIndex size).toNat = listIdx at order served ⊢
  have inside : ∀ {i : Nat} {idx : BlockIndex}, listIdx ≤ i → run.alloc.freeLists i = some idx →
      2 ^ listIdx ∣ idx.val ∧ idx.val + 2 ^ listIdx ≤ 64 := by
    intro i idx low head
    rcases sound with rfl | ⟨tile, lists, partition, -⟩
    · have eight : i = 8 := by
        by_contra other
        cases (if_neg other).symm.trans head
      subst eight
      cases head
      have bound : 2 ^ listIdx ≤ 2 ^ 6 := Nat.pow_le_pow_right Nat.two_pos order
      exact ⟨Nat.dvd_zero _, by simpa using bound⟩
    · obtain ⟨rest, nodes, -⟩ := partition.head_listed head
      have tiled := (partition.listed (nodes ▸ List.mem_cons_self : idx ∈ lists i)).2.1
      have fits := partition.tiling.start_add_le tiled
      have smaller : 2 ^ listIdx ≤ 2 ^ i := Nat.pow_le_pow_right Nat.two_pos low
      exact ⟨(Nat.pow_dvd_pow 2 low).trans (partition.tiling.within tiled).2.1, by omega⟩
  intro addr found
  cases served with
  | none _ => cases found
  | whole head _ => exact ⟨_, (Option.some.inj found).symm, inside (Nat.le_refl _) head⟩
  | cut above _ _ head _ => exact ⟨_, (Option.some.inj found).symm, inside (Nat.le_of_lt above) head⟩

/-- The first block is handed out whole, of whatever size it was asked to be. -/
theorem not_respects_first (above : 2 ^ 18 < size.toNat) (below : size.toNat ≤ 2 ^ 20) :
    ¬constructed.Respects size := by
  rintro ⟨answer, after, answered, block⟩
  obtain ⟨listIdx, low, high, answer'⟩ := constructed.kalloc_upper above below
  have served := allocate_served constructed (show listIdx < numLists by simp only [numLists]; omega)
  rw [← Except.ok.inj (answered.symm.trans answer')] at served
  have region : ∀ addr, answer = some addr → addr ≠ blockOffset := by
    rintro addr found rfl
    have fits := (block blockOffset found).2.2
    omega
  have only : ∀ {i : Nat} {idx : BlockIndex}, constructed.freeLists i = some idx →
      indexToAddr idx = blockOffset := by
    intro i idx head
    have zero : some 0 = some idx := by
      by_cases eight : i = 8
      · exact (if_pos eight).symm.trans head
      · cases (if_neg eight).symm.trans head
    cases zero
    decide
  cases served with
  | none empty => cases empty 8 high (by decide)
  | whole head _ => exact region _ rfl (only head)
  | cut _ _ _ head _ => exact region _ rfl (only head)

theorem Sound.respects_iff (sound : Sound run) (size : BitVec 32) :
    run.alloc.Respects size ↔ run.alloc.FitsRegion size := by
  rcases Nat.lt_or_ge (2 ^ 31) size.toNat with huge | below
  · exact iff_of_true (.of_null (kalloc_huge huge)) (.inr (.inl huge))
  rcases Nat.lt_or_ge (2 ^ 20) size.toNat with outside | below'
  · refine iff_of_false ?_ ?_
    · rintro ⟨_, _, answered, -⟩
      rw [kalloc_outside outside below] at answered
      cases answered
    · rintro (small | huge | ⟨upper, -⟩) <;> omega
  rcases Nat.lt_or_ge (2 ^ 18) size.toNat with above | small
  · by_cases taken : run.alloc.freeLists 8 = none
    · exact iff_of_true (.of_null (sound.kalloc_upper taken above below')) (.inr (.inr ⟨below', taken⟩))
    · rcases sound.upper_lists with rfl | empty
      · refine iff_of_false (not_respects_first above below') ?_
        rintro (small | huge | ⟨-, taken'⟩)
        · omega
        · omega
        · exact taken taken'
      · exact absurd (empty 8 (by decide)) taken
  · exact iff_of_true (sound.respects_small small) (.inl small)

/-- Requests that fit the region keep the tiling, as frees of whole buddies do. -/
theorem Sound.region_step (sound : Sound run) {call : AllocCall} {after : AllocRun}
    (guarded : run.GuardedRegion call) (taken : run.step call = some after) : Sound after := by
  cases call with
  | kfree place =>
    obtain ⟨after', taken', sound'⟩ := sound.step guarded
    cases Option.some.inj (taken.symm.trans taken')
    exact sound'
  | kalloc size =>
    have unchanged (null : run.alloc.kalloc size = .ok (none, run.alloc)) : Sound after := by
      simp only [AllocRun.step, null, Option.some.injEq] at taken
      exact taken ▸ sound
    rcases Nat.lt_or_ge (2 ^ 18) size.toNat with above | small
    · rcases guarded with small | huge | ⟨below, first⟩
      · omega
      · exact unchanged (kalloc_huge huge)
      · exact unchanged (sound.kalloc_upper first above below)
    · obtain ⟨after', taken', sound'⟩ := sound.kalloc small
      cases Option.some.inj (taken.symm.trans taken')
      exact sound'

/-- In every run whose requests fit the region and whose frees merge whole buddies, `kalloc`
respects the region for exactly the requests that fit it. -/
theorem kalloc_respects_iff (reached : Reach AllocRun.step GuardedRegion start run) (size : BitVec 32) :
    run.alloc.Respects size ↔ run.alloc.FitsRegion size :=
  Sound.respects_iff (reached.invariant (.inl rfl) fun _ _ _ sound guarded taken =>
    sound.region_step guarded taken) size

/-- After one page is taken, a request for 65 pages is refused. -/
theorem kalloc_respects_taken : ∃ run, Reach AllocRun.step GuardedRegion start run ∧
    run.alloc.Respects 266240 := by
  have first : (follow AllocRun.step GuardedRegion start [.kalloc 1]).map (fun run =>
      run.alloc.freeLists 8) = some none := by decide +kernel
  obtain ⟨run, taken, empty⟩ := Option.map_eq_some_iff.mp first
  have reached : Reach AllocRun.step GuardedRegion start run := .of_follow .start taken
  exact ⟨run, reached, (kalloc_respects_iff reached 266240).mpr (.inr (.inr ⟨by decide, empty⟩))⟩

/-- A request for 257 pages reads list 9 of nine. -/
theorem not_kalloc_respects : ¬∀ run, Reach AllocRun.step FreesLive start run →
    ∀ size, run.alloc.Respects size := by
  intro claim
  obtain ⟨_, _, answered, -⟩ := claim start .start 1052672
  rw [kalloc_outside (by decide) (by decide)] at answered
  cases answered

end AllocRun

end WalnutOs.Kernel
