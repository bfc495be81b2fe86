import WalnutOs.Kernel.AllocMerge
import WalnutOs.Lib.Run

/-! Runs of the page allocator: what is handed out does not overlap, and what
is given back is one block again, as long as only whole buddies are merged. -/

namespace WalnutOs.Kernel

open WalnutOs.Klib WalnutOs.Lib

/-- The allocator with the allocations that are live, the latest first. -/
structure AllocRun where
  alloc : BuddyAllocator
  live : List Allocation

/-- `place` is a place in the list of live allocations. -/
inductive AllocCall where
  | kalloc (size : BitVec 32)
  | kfree (place : Nat)

namespace AllocRun

open BuddyAllocator

def start : AllocRun := ⟨constructed, []⟩

def step (run : AllocRun) : AllocCall → Option AllocRun
  | .kalloc size =>
    match run.alloc.kalloc size with
    | .error _ => none
    | .ok (none, alloc) => some { run with alloc }
    | .ok (some addr, alloc) => some ⟨alloc, ⟨addr, (listIndex size).toNat⟩ :: run.live⟩
  | .kfree place =>
    match run.live[place]? with
    | none => none
    | some held =>
      match run.alloc.kfree held.addr with
      | .error _ => none
      | .ok alloc => some ⟨alloc, run.live.eraseIdx place⟩

/-- Requests are for 1 to 64 pages of bytes, and only live allocations are freed. -/
def Admitted (run : AllocRun) : AllocCall → Prop
  | .kalloc size => 1 ≤ size.toNat ∧ size.toNat ≤ 64 * 4096
  | .kfree place => place < run.live.length

/-- On the way up from a block that is freed, every buddy flagged free has the
order reached and is fine to merge. -/
def Frees (fine : BuddyAllocator → BlockIndex → Prop) (run : AllocRun) : AllocCall → Prop
  | .kalloc _ => True
  | .kfree place => ∀ held, run.live[place]? = some held → ∀ idx, addrToIndex held.addr = some idx →
      run.alloc.Merges (fine run.alloc) 8 idx (run.alloc.order idx)

/-- An admitted call that, if it frees a block, merges whole buddies with right links. -/
def Guarded (run : AllocRun) (call : AllocCall) : Prop :=
  run.Admitted call ∧ run.Frees LinksAgree call

instance (run : AllocRun) : (call : AllocCall) → Decidable (run.Admitted call)
  | .kalloc size => inferInstanceAs (Decidable (1 ≤ size.toNat ∧ size.toNat ≤ 64 * 4096))
  | .kfree place => inferInstanceAs (Decidable (place < run.live.length))

instance (fine : BuddyAllocator → BlockIndex → Prop) [∀ alloc, DecidablePred (fine alloc)]
    (run : AllocRun) : (call : AllocCall) → Decidable (run.Frees fine call)
  | .kalloc _ => .isTrue trivial
  | .kfree place =>
    match found : run.live[place]? with
    | none => .isTrue (by simp [Frees, found])
    | some held =>
      decidable_of_iff (∀ idx ∈ addrToIndex held.addr,
        run.alloc.Merges (fine run.alloc) 8 idx (run.alloc.order idx)) (by simp [Frees, found])

instance (run : AllocRun) (call : AllocCall) : Decidable (run.Guarded call) :=
  inferInstanceAs (Decidable (_ ∧ run.Frees LinksAgree call))

/-- The pages of two allocations do not overlap. -/
def Apart (first second : Allocation) : Prop :=
  first.addr + 2 ^ first.order * 4096 ≤ second.addr ∨
    second.addr + 2 ^ second.order * 4096 ≤ first.addr

instance (first second : Allocation) : Decidable (Apart first second) :=
  inferInstanceAs (Decidable (_ ∨ _))

/-- The tiling describes the run, and a block of all pages that is free is listed. -/
structure Tiled (run : AllocRun) (tile : Nat → Option Nat) (lists : Nat → List BlockIndex) : Prop where
  partition : Partition run.alloc run.live tile lists none
  whole : tile 0 = some 6 → run.alloc.isFree 0 = true → run.alloc.freeLists 6 = some 0

/-- The constructor's state is no tiling yet: its block of all pages has order 0
and is on list 8. -/
def Sound (run : AllocRun) : Prop := run = start ∨ ∃ tile lists, Tiled run tile lists

end AllocRun

namespace BuddyAllocator

variable {alloc after : BuddyAllocator} {live : List Allocation} {tile : Nat → Option Nat}
variable {lists : Nat → List BlockIndex} {idx : BlockIndex} {i listIdx : Nat}

/-- The first block is taken from list 8. -/
theorem Popped.first (popped : Popped constructed after 8 0) :
    Partition after [] (Function.update (fun _ => none) 0 (some 6)) (fun _ => []) (some 0) := by
  have only : ∀ {page order}, Function.update (fun _ => none) 0 (some 6) page = some order →
      page = 0 ∧ order = 6 := by
    intro page order found
    by_cases zero : page = 0
    · subst zero
      exact ⟨rfl, by simpa [eq_comm] using found⟩
    · simp [zero] at found
  have hole : ∀ {idx : BlockIndex} {order}, some (0 : BlockIndex) ≠ some idx →
      Function.update (fun _ => none) 0 (some 6) idx.val ≠ some order := by
    intro idx order apart found
    exact apart (congrArg some (Fin.ext (only found).1.symm))
  refine ⟨⟨?_, ?_, ?_⟩, fun apart found => absurd found (hole apart), by simp,
    fun apart found => absurd found (hole apart), .nil, ?_, by simp,
    fun apart _ found => absurd found (hole apart)⟩
  · intro page order found
    obtain ⟨rfl, rfl⟩ := only found
    exact ⟨Nat.le_refl _, Nat.dvd_zero _, Nat.two_pow_pos _⟩
  · intro page order other order' found found' _ _
    rw [(only found).1, (only found').1]
  · intro page bound
    exact ⟨0, 6, Function.update_self .., Nat.zero_le _, by omega⟩
  · intro i
    rw [popped.freeLists]
    by_cases eight : i = 8
    · subst eight
      rw [Function.update_self]
      rfl
    · rw [Function.update_of_ne eight]
      exact if_neg eight

/-- The hole, once cut down, is handed out. -/
theorem Partition.handOut (partition : Partition alloc live tile lists (some idx))
    (tiled : tile idx = some listIdx) :
    Partition (alloc.modify idx fun block => (block.setOrder listIdx).clearFree)
        (⟨indexToAddr idx, listIdx⟩ :: live) tile lists none ∧
      (alloc.modify idx fun block => (block.setOrder listIdx).clearFree).isFree idx = false := by
  have small := (partition.tiling.within tiled).1
  have busy : (alloc.modify idx fun block => (block.setOrder listIdx).clearFree).isFree idx = false := by
    simp [isFree]
  refine ⟨(partition.modify_hole _).place tiled ?_ busy, busy⟩
  simp [BuddyAllocator.order, Block.order_setOrder _ (show listIdx < 128 by omega)]

end BuddyAllocator

namespace AllocRun

open BuddyAllocator

variable {run after : AllocRun} {tile : Nat → Option Nat} {lists : Nat → List BlockIndex}

/-- Once something is live, the block of all pages is not free. -/
theorem Tiled.of_busy (partition : Partition run.alloc run.live tile lists none) {idx : BlockIndex}
    {order : Nat} (tiled : tile idx = some order) (busy : run.alloc.isFree idx = false) :
    Tiled run tile lists := by
  refine ⟨partition, fun top free => ?_⟩
  have zero : idx = 0 := Fin.ext (partition.tiling.eq_zero_of_top top tiled)
  rw [zero, free] at busy
  cases busy

/-- A request leaves the allocator as it is or hands out a block. -/
theorem Sound.allocate {alloc : BuddyAllocator} {live : List Allocation} (sound : Sound ⟨alloc, live⟩)
    {listIdx : Nat} (small : listIdx ≤ 6) {answer : Option Nat × BuddyAllocator}
    (served : Served alloc listIdx answer) :
    Sound ⟨answer.2, match answer.1 with
      | none => live
      | some addr => ⟨addr, listIdx⟩ :: live⟩ := by
  rcases sound with initial | ⟨tile, lists, partition, whole⟩
  · cases initial
    cases served with
    | none empty =>
      cases empty 8 (by omega) (by decide)
    | whole head popped =>
      exact absurd ((if_neg (by omega)).symm.trans head) (by simp)
    | @cut i idx after above bound empty head popped =>
      have eight : i = 8 := by
        by_contra other
        exact absurd ((if_neg other).symm.trans head) (by simp)
      subst eight
      cases head
      obtain ⟨tile', lists', tiled, cut, -⟩ := popped.first.splitDown (fun _ _ _ => True) listIdx
        (j := 8) (by simp) trivial rfl (by omega) (Nat.le_refl _)
      obtain ⟨partition, busy⟩ := cut.handOut tiled
      exact .inr ⟨tile', lists', .of_busy partition tiled busy⟩
  · cases served with
    | none empty => exact .inr ⟨tile, lists, partition, whole⟩
    | whole head popped =>
      obtain ⟨tiled, cut⟩ := partition.pop head popped
      have busy : _ = false := (popped.isFree _).trans (if_pos rfl)
      exact .inr ⟨tile, _, .of_busy (cut.place tiled (popped.own (by omega)) busy) tiled busy⟩
    | @cut i idx after above bound empty head popped =>
      obtain ⟨tiled, cut⟩ := partition.pop head popped
      have top : i ≤ 6 := (partition.tiling.within tiled).1
      obtain ⟨tile', lists', tiled', cut', -⟩ := cut.splitDown (fun _ _ _ => True) listIdx (j := i)
        (by simp) trivial (by rw [tiled, Nat.min_eq_left top]) (by omega) (by omega)
      obtain ⟨partition', busy⟩ := cut'.handOut tiled'
      exact .inr ⟨tile', lists', .of_busy partition' tiled' busy⟩

theorem kalloc_eq {size : BitVec 32} (alloc : BuddyAllocator) (small : size.toNat ≤ 64 * 4096) :
    (listIndex size).toNat ≤ 6 ∧
      alloc.kalloc size = .ok (alloc.allocate (listIndex size).toNat) := by
  obtain ⟨low, high⟩ := listIndex_bounds small
  have few : ¬ (numBlocks : Int) ≤ listIndex size := by
    unfold numBlocks
    omega
  have inside : 0 ≤ listIndex size ∧ listIndex size < numLists := by
    unfold numLists
    omega
  exact ⟨by omega, by rw [kalloc, if_neg few, if_pos inside]⟩

theorem Sound.kalloc (sound : Sound run) {size : BitVec 32} (small : size.toNat ≤ 64 * 4096) :
    ∃ after, run.step (.kalloc size) = some after ∧ Sound after := by
  obtain ⟨order, answer⟩ := kalloc_eq run.alloc small
  have whole : Sound ⟨run.alloc, run.live⟩ := sound
  have later := whole.allocate order (allocate_served run.alloc (by unfold numLists; omega))
  rcases served : run.alloc.allocate (listIndex size).toNat with ⟨_ | addr, alloc⟩
  · rw [served] at later
    exact ⟨⟨alloc, run.live⟩, by simp only [AllocRun.step, answer, served], later⟩
  · rw [served] at later
    exact ⟨⟨alloc, ⟨addr, (listIndex size).toNat⟩ :: run.live⟩,
      by simp only [AllocRun.step, answer, served], later⟩

/-- `kfree` runs its loop on the block's record and pushes what the loop returns. -/
theorem kfree_eq {alloc merged : BuddyAllocator} {idx blockIdx : BlockIndex} {addr order newListIdx : Nat}
    (address : addr = indexToAddr idx) (own : alloc.order idx = order)
    (busy : alloc.isFree idx = false)
    (answer : alloc.coalesce 8 order idx = .ok (newListIdx, blockIdx, merged))
    (small : newListIdx < numLists) :
    alloc.kfree addr = .ok (merged.pushFreeList newListIdx blockIdx) := by
  have page : addr % 2 ^ smallestBlockSize = 0 ∧ addr ≥ blockOffset := by
    rw [address]
    simp only [indexToAddr, blockOffset, smallestBlockSize]
    omega
  have used : ¬ (alloc.blocks idx).isFree = true := Bool.eq_false_iff.mp busy
  have own : (alloc.blocks idx).order = order := own
  rw [BuddyAllocator.kfree, if_pos page, address, addrToIndex_indexToAddr]
  simp only [if_neg used, own, answer, if_pos small]

/-- A block that is freed comes back with the buddies that the loop's invariant
let it merge. -/
theorem Tiled.kfree (tiled : Tiled run tile lists) {place : Nat} {held : Allocation}
    (found : run.live[place]? = some held) {fine : BuddyAllocator → BlockIndex → Prop}
    (frees : run.Frees fine (.kfree place))
    {inv : Nat → BuddyAllocator → (Nat → Option Nat) → (Nat → List BlockIndex) → BlockIndex → Nat →
      Prop}
    (rule : MergeInvariant (run.live.eraseIdx place) inv)
    (initial : ∀ idx : BlockIndex, tile idx = some held.order → run.alloc.order idx = held.order →
      run.alloc.isFree idx = false →
      Partition run.alloc (run.live.eraseIdx place) tile lists (some idx) →
      run.alloc.Merges (fine run.alloc) 8 idx held.order → inv 8 run.alloc tile lists idx held.order) :
    ∃ merged tile' lists' idx' order' bound',
      run.step (.kfree place) =
        some ⟨merged.pushFreeList order' idx', run.live.eraseIdx place⟩ ∧
      inv bound' merged tile' lists' idx' order' ∧
      Tiled ⟨merged.pushFreeList order' idx', run.live.eraseIdx place⟩ tile'
        (Function.update lists' order' (idx' :: lists' order')) := by
  obtain ⟨idx, addr, covered, own, busy, hole⟩ := tiled.partition.lift found
  have merges := frees held found idx (by rw [addr, addrToIndex_indexToAddr])
  rw [own] at merges
  obtain ⟨order', idx', merged, bound', tile', lists', answer, kept, alone⟩ :=
    rule.coalesce (initial idx covered own busy hole merges) (by omega)
  obtain ⟨partition, tiled', -⟩ := rule.partition kept
  have small := (partition.tiling.within tiled').1
  have pushed := pushFreeList_pushed merged order' idx'
  have taken := kfree_eq addr own busy answer (by unfold numLists; omega)
  refine ⟨merged, tile', lists', idx', order', bound', by simp only [step, found, taken], kept,
    partition.release tiled' alone pushed, fun top _ => ?_⟩
  have zero : idx' = 0 := Fin.ext (partition.tiling.eq_zero_of_top top tiled')
  have six : order' = 6 := by
    rw [zero] at tiled'
    exact Option.some.inj (tiled'.symm.trans top)
  rw [pushed.freeLists, zero, six, Function.update_self]

/-- No admitted call that merges only whole buddies faults, and the tiling is kept. -/
theorem Sound.step (sound : Sound run) {call : AllocCall} (guarded : run.Guarded call) :
    ∃ after, run.step call = some after ∧ Sound after := by
  obtain ⟨admitted, frees⟩ := guarded
  cases call with
  | kalloc size => exact sound.kalloc admitted.2
  | kfree place =>
    rcases sound with rfl | ⟨tile, lists, tiled⟩
    · exact absurd admitted (Nat.not_lt_zero place)
    · obtain ⟨_, _, _, _, _, _, taken, -, later⟩ := tiled.kfree
        (List.getElem?_eq_getElem admitted) frees (mergingWhole_invariant _)
        (fun _ covered own _ hole merges => ⟨hole, covered, own, merges⟩)
      exact ⟨_, taken, .inr ⟨_, _, later⟩⟩

theorem Sound.of_reach (reached : Reach AllocRun.step Guarded start run) : Sound run := by
  refine reached.invariant (.inl rfl) fun state call after sound guarded taken => ?_
  obtain ⟨after', taken', sound'⟩ := sound.step guarded
  cases Option.some.inj (taken.symm.trans taken')
  exact sound'

theorem Sound.pairwise_apart (sound : Sound run) : run.live.Pairwise Apart := by
  rcases sound with rfl | ⟨tile, lists, partition, -⟩
  · exact .nil
  · refine partition.distinct.imp_of_mem fun first_live second_live distinct => ?_
    rename_i first second
    obtain ⟨idx, -, addr, tiled, -⟩ := partition.owned first first_live
    obtain ⟨other, -, addr', tiled', -⟩ := partition.owned second second_live
    have starts : other.val ≠ idx.val := by
      intro same
      rw [addr, addr', Fin.ext same] at distinct
      exact distinct rfl
    have pages := partition.tiling.disjoint tiled tiled' starts
    simp only [Apart, addr, addr', indexToAddr, blockOffset]
    omega

/-- With nothing live every block is free, and the buddies are all merged. -/
theorem Sound.whole_of_nil (sound : Sound run) (nothing : run.live = []) :
    ∃ addr alloc, run.alloc.kalloc (BitVec.ofNat 32 (64 * 4096)) = .ok (some addr, alloc) := by
  rw [(kalloc_eq run.alloc (by decide)).2]
  have six : (listIndex (BitVec.ofNat 32 (64 * 4096))).toNat = 6 := by decide +kernel
  rw [six]
  rcases sound with rfl | ⟨tile, lists, partition, whole⟩
  · have served : Served constructed 6 (constructed.allocate 6) := allocate_served constructed (by decide)
    rcases answer : constructed.allocate 6 with ⟨_ | addr, alloc⟩
    · rw [answer] at served
      cases served with
      | none empty => cases empty 8 (by omega) (by decide)
    · exact ⟨addr, alloc, congrArg Except.ok answer⟩
  · have free : ∀ (idx : BlockIndex) {k}, tile idx = some k → run.alloc.isFree idx = true := by
      intro idx k tiled
      by_contra busy
      have live := partition.owner (by simp) tiled (Bool.eq_false_iff.mpr busy)
      rw [nothing] at live
      cases live
    have top : tile 0 = some 6 := by
      refine partition.tiling.eq_single fun first order tiled tiled' => ?_
      have inside := (partition.tiling.within tiled).2.2
      have inside' := (partition.tiling.within tiled').2.2
      have low := free ⟨first, inside⟩ tiled
      have high := free ⟨buddy first order, inside'⟩ tiled'
      exact partition.unpaired (by simp) (by simp) tiled tiled' low high rfl
    obtain ⟨alloc, answer, -⟩ := popFreeList_some (whole top (free 0 top))
    exact ⟨_, alloc, by rw [BuddyAllocator.allocate, answer]⟩

/-- Along every run that merges only whole buddies, no two live allocations
share a page. -/
theorem allocations_disjoint (reached : Reach step Guarded start run) : run.live.Pairwise Apart :=
  (Sound.of_reach reached).pairwise_apart

/-- Blocks of two orders are split and merged. -/
theorem allocations_disjoint_merged : ∃ run, follow step Guarded start
    [.kalloc 8192, .kalloc 1, .kalloc 4097, .kfree 1, .kfree 0] = some run ∧
      run.live.Pairwise Apart := by
  obtain ⟨run, taken⟩ := Option.isSome_iff_exists.mp (show (follow step Guarded start
    [.kalloc 8192, .kalloc 1, .kalloc 4097, .kfree 1, .kfree 0]).isSome = true by decide +kernel)
  exact ⟨run, taken, allocations_disjoint (.of_follow .start taken)⟩

/-- Pages 0 to 1, 2 and 3 are handed out, then 2 and 0 are freed. Page 2 is flagged
free and taken for the buddy of pages 0 to 1, with page 3, which is still live. -/
theorem small_buddy_overlaps : ¬ ∀ run, Reach step Admitted start run → run.live.Pairwise Apart := by
  intro claim
  have handed : (follow step Admitted start [.kalloc 8192, .kalloc 1, .kalloc 1, .kfree 1, .kfree 1,
      .kalloc 262144]).map (·.live) = some [⟨indexToAddr 0, 6⟩, ⟨indexToAddr 3, 0⟩] := by
    decide +kernel
  obtain ⟨run, taken, live⟩ := Option.map_eq_some_iff.mp handed
  have apart := claim run (.of_follow .start taken)
  rw [live] at apart
  revert apart
  decide

/-- Along every run that merges only whole buddies, when nothing is live all
pages can be had at once. -/
theorem nothing_lost (reached : Reach step Guarded start run) (nothing : run.live = []) :
    ∃ addr alloc, run.alloc.kalloc (BitVec.ofNat 32 (64 * 4096)) = .ok (some addr, alloc) :=
  (Sound.of_reach reached).whole_of_nil nothing

/-- Three blocks are freed in another order than they were allocated. -/
theorem nothing_lost_three : ∃ run, follow step Guarded start
    [.kalloc 8192, .kalloc 1, .kalloc 4097, .kfree 1, .kfree 0, .kfree 0] = some run ∧
      ∃ addr alloc, run.alloc.kalloc (BitVec.ofNat 32 (64 * 4096)) = .ok (some addr, alloc) := by
  have freed : (follow step Guarded start [.kalloc 8192, .kalloc 1, .kalloc 4097, .kfree 1, .kfree 0,
      .kfree 0]).map (·.live) = some [] := by
    decide +kernel
  obtain ⟨run, taken, nothing⟩ := Option.map_eq_some_iff.mp freed
  exact ⟨run, taken, nothing_lost (.of_follow .start taken) nothing⟩

/-- Three pages are allocated and freed in the order 0, 2, 1. Freeing page 2 merges
page 0 as if it were pages 0 and 1. -/
theorem pages_lost : ¬ ∀ run, Reach step Admitted start run → run.live = [] →
    ∃ addr alloc, run.alloc.kalloc (BitVec.ofNat 32 (64 * 4096)) = .ok (some addr, alloc) := by
  intro claim
  have freed : (follow step Admitted start [.kalloc 1, .kalloc 1, .kalloc 1, .kfree 2, .kfree 0,
      .kfree 0]).map (fun run => (run.live, (run.alloc.kalloc
        (BitVec.ofNat 32 (64 * 4096))).toOption.map (·.1))) = some ([], some none) := by
    decide +kernel
  obtain ⟨run, taken, final⟩ := Option.map_eq_some_iff.mp freed
  obtain ⟨nothing, refused⟩ := Prod.mk.inj final
  obtain ⟨addr, alloc, answer⟩ := claim run (.of_follow .start taken) nothing
  rw [answer] at refused
  cases refused

end AllocRun

end WalnutOs.Kernel
