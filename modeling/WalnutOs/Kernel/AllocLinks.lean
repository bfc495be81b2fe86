import WalnutOs.Kernel.AllocRun

/-! The representation of the free lists: links in both directions, flags and
orders, and every block that was pushed and not taken since. -/

namespace WalnutOs.Kernel

open WalnutOs.Klib WalnutOs.Lib

/-- The list that a block was last pushed to, if it was not popped or removed since. -/
def pending : List ListEvent → BlockIndex → Option Nat
  | [], _ => none
  | .pushed i block :: earlier, idx => if block = idx then some i else pending earlier idx
  | .popped block :: earlier, idx => if block = idx then none else pending earlier idx
  | .removed block :: earlier, idx => if block = idx then none else pending earlier idx

namespace BuddyAllocator

/-- The nine lists, each from its head on, are these. -/
structure Represents (alloc : BuddyAllocator) (lists : Nat → List BlockIndex) : Prop where
  chain : ∀ i < numLists, IsChain alloc.next (alloc.freeLists i) (lists i)
  distinct : ∀ i < numLists, (lists i).Nodup
  free : ∀ i < numLists, ∀ idx ∈ lists i, alloc.isFree idx = true ∧ alloc.order idx = i
  backed : ∀ i < numLists, IsBacked alloc.prev none (lists i)
  apart : ∀ i < numLists, ∀ j < numLists, ∀ idx, idx ∈ lists i → idx ∈ lists j → i = j
  kept : ∀ idx i, pending alloc.events idx = some i → i < numLists ∧ idx ∈ lists i

def ListsValid (alloc : BuddyAllocator) : Prop := ∃ lists, alloc.Represents lists

/-- The first list from this one on that is not empty begins with its only block. -/
def PopsLast (alloc : BuddyAllocator) (listIdx : Nat) : Prop :=
  ∀ i < numLists, listIdx ≤ i → (∀ j < i, listIdx ≤ j → alloc.freeLists j = none) →
    ∀ idx ∈ alloc.freeLists i, alloc.next idx = none

instance (alloc : BuddyAllocator) (listIdx : Nat) : Decidable (alloc.PopsLast listIdx) :=
  inferInstanceAs (Decidable (∀ i < numLists, listIdx ≤ i →
    (∀ j < i, listIdx ≤ j → alloc.freeLists j = none) →
      ∀ idx ∈ alloc.freeLists i, alloc.next idx = none))

/-- Nothing follows the block on its list. -/
def IsLast (alloc : BuddyAllocator) (idx : BlockIndex) : Prop := alloc.next idx = none

instance (alloc : BuddyAllocator) : DecidablePred alloc.IsLast := fun idx =>
  inferInstanceAs (Decidable (alloc.next idx = none))

/-- The `prev` fields are right, and the lists have every block that was pushed
and every free one. -/
structure Linked (alloc : BuddyAllocator) (tile : Nat → Option Nat)
    (lists : Nat → List BlockIndex) (hole : Option BlockIndex) : Prop where
  backed : ∀ i, IsBacked alloc.prev none (lists i)
  kept : ∀ {idx i}, pending alloc.events idx = some i → idx ∈ lists i
  complete : ∀ {idx : BlockIndex} {k}, hole ≠ some idx → tile idx = some k →
    alloc.isFree idx = true → idx ∈ lists k

variable {alloc after : BuddyAllocator} {live : List Allocation} {tile tile' : Nat → Option Nat}
variable {lists : Nat → List BlockIndex} {hole hole' : Option BlockIndex} {idx other : BlockIndex}
variable {i k order : Nat}

theorem Partition.represents (partition : Partition alloc live tile lists none)
    (linked : Linked alloc tile lists none) : alloc.ListsValid := by
  refine ⟨lists, fun i _ => partition.chain i, fun i _ => (partition.chain i).nodup, ?_,
    fun i _ => linked.backed i, fun i _ j _ idx first second => partition.eq_of_listed second first, ?_⟩
  · intro i _ idx member
    exact ⟨(partition.listed member).2.2, partition.order_of_listed member⟩
  · intro idx i pushed
    have member := linked.kept pushed
    have small := (partition.tiling.within (partition.listed member).2.1).1
    exact ⟨by unfold numLists; omega, member⟩

namespace Linked

/-- Taking the only block of a list. -/
theorem pop (linked : Linked alloc tile lists none)
    (partition : Partition alloc live tile lists none) (head : alloc.freeLists i = some idx)
    (popped : Popped alloc after i idx) (last : alloc.next idx = none) :
    Linked after tile (Function.update lists i ((lists i).tail.take 1)) (some idx) := by
  obtain ⟨rest, nodes, later, -⟩ := partition.head_listed head
  rw [last] at later
  have only : lists i = [idx] := by rw [nodes, later.nil_iff.mpr rfl]
  have elsewhere : ∀ {other : BlockIndex} {j}, other ≠ idx → other ∈ lists j →
      other ∈ Function.update lists i ((lists i).tail.take 1) j := by
    intro other j apart member
    have here : j ≠ i := by
      rintro rfl
      rw [only] at member
      exact apart (by simpa using member)
    rwa [Function.update_of_ne here]
  constructor
  · intro j
    by_cases here : j = i
    · subst here
      simp [only, IsBacked]
    · rw [Function.update_of_ne here]
      refine (linked.backed j).frame fun other member => ?_
      have apart : other ≠ idx := by
        rintro rfl
        exact here (partition.eq_of_listed (by rw [only]; simp) member)
      rw [popped.prev, if_neg apart]
  · intro other j pushed
    rw [popped.events, pending] at pushed
    split at pushed
    · cases pushed
    · rename_i apart
      exact elsewhere (Ne.symm apart) (linked.kept pushed)
  · intro other k apart tiled free
    rw [popped.isFree, if_neg (Partition.ne_hole apart)] at free
    exact elsewhere (Partition.ne_hole apart) (linked.complete (by simp) tiled free)

/-- Pushing a block that is on no list. -/
theorem push (linked : Linked alloc tile lists hole)
    (partition : Partition alloc live tile lists hole) (unlisted : ∀ j, idx ∉ lists j)
    (pushed : Pushed alloc after k idx)
    (covers : ∀ {other : BlockIndex} {order}, hole' ≠ some other → tile' other = some order →
      after.isFree other = true → (other = idx ∧ order = k) ∨
        (hole ≠ some other ∧ tile other = some order ∧ alloc.isFree other = true)) :
    Linked after tile' (Function.update lists k (idx :: lists k)) hole' := by
  constructor
  · intro j
    by_cases here : j = k
    · subst here
      rw [Function.update_self]
      refine ⟨by rw [pushed.prev, if_pos rfl], ?_⟩
      -- the old head gets its `prev`, the blocks after it keep theirs
      have chain := partition.chain j
      have backed := linked.backed j
      have absent := unlisted j
      cases nodes : lists j with
      | nil => trivial
      | cons first rest =>
        rw [nodes] at chain backed absent
        have distinct := List.nodup_cons.mp chain.nodup
        refine ⟨?_, backed.2.frame fun other member => ?_⟩
        · have apart : first ≠ idx := fun same => absent (same ▸ List.mem_cons_self)
          rw [pushed.prev, if_neg apart, if_pos chain.1]
        · have apart : other ≠ idx := fun same => absent (same ▸ List.mem_cons_of_mem _ member)
          have inner : alloc.freeLists j ≠ some other := by
            intro head
            cases Option.some.inj (chain.1.symm.trans head)
            exact distinct.1 member
          rw [pushed.prev, if_neg apart, if_neg inner]
    · rw [Function.update_of_ne here]
      refine (linked.backed j).frame fun other member => ?_
      have apart : other ≠ idx := fun same => unlisted j (same ▸ member)
      have inner : alloc.freeLists k ≠ some other := by
        intro head
        obtain ⟨rest, nodes, -⟩ := partition.head_listed head
        exact here (partition.eq_of_listed (nodes ▸ List.mem_cons_self) member)
      rw [pushed.prev, if_neg apart, if_neg inner]
  · intro other j later
    rw [pushed.events, pending] at later
    split at later
    · rename_i same
      cases Option.some.inj later
      exact mem_update_cons.mpr (.inl ⟨rfl, same.symm⟩)
    · exact mem_update_cons.mpr (.inr (linked.kept later))
  · intro other order apart tiled free
    rcases covers apart tiled free with ⟨rfl, rfl⟩ | ⟨apart, tiled, free⟩
    · exact mem_update_cons.mpr (.inl ⟨rfl, rfl⟩)
    · exact mem_update_cons.mpr (.inr (linked.complete apart tiled free))

/-- The links to a free block are right. -/
theorem links (linked : Linked alloc tile lists hole)
    (partition : Partition alloc live tile lists hole) (member : other ∈ lists k) :
    ∀ i, ∀ one ∈ lists i, alloc.next one = some other ↔ alloc.prev other = some one := by
  intro i one inside
  rw [(linked.backed k).prev_eq_iff (partition.chain k) member]
  constructor
  · intro link
    have here := (partition.chain i).next_mem inside link
    rw [partition.eq_of_listed here member]
    exact ⟨inside, link⟩
  · exact And.right

/-- A buddy that nothing follows leaves its list. -/
theorem merge (linked : Linked alloc tile lists (some idx))
    (partition : Partition alloc live tile lists (some idx)) (tiled : tile idx = some order)
    (buddies : other.val = buddy idx order) (last : alloc.next other = none)
    (removed : Removed alloc after other) :
    Linked after (Tiling.merge tile (lower idx other) order) (fun i => (lists i).erase other)
      (some (lower idx other)) := by
  constructor
  · intro i
    rw [removed.prev]
    exact (linked.backed i).erase (partition.chain i) last
  · intro one i pushed
    rw [removed.events, pending] at pushed
    split at pushed
    · cases pushed
    · rename_i apart
      exact (List.mem_erase_of_ne (Ne.symm apart)).mpr (linked.kept pushed)
  · intro one order' apart found free
    have aligned := (partition.tiling.within tiled).2.1
    obtain ⟨first, second, found⟩ :=
      Partition.of_merge aligned buddies (Partition.ne_hole apart) found
    rw [removed.isFree] at free
    exact (List.mem_erase_of_ne second).mpr (linked.complete (by simpa using first.symm) found free)

/-- Nothing is known of the hole, so that its record may change. -/
theorem modify_hole (linked : Linked alloc tile lists (some idx)) (change : Block → Block)
    (same : ∀ block, (change block).prev = block.prev) :
    Linked (alloc.modify idx change) tile lists (some idx) := by
  constructor
  · intro i
    refine (linked.backed i).frame fun other _ => ?_
    by_cases here : other = idx <;> simp [prev, here, same]
  · exact linked.kept
  · intro other k apart found free
    refine linked.complete apart found ?_
    simpa [isFree, Partition.ne_hole apart] using free

/-- A block that is not free need not be on a list. -/
theorem place (linked : Linked alloc tile lists (some idx)) (busy : alloc.isFree idx = false) :
    Linked alloc tile lists none := by
  refine ⟨linked.backed, linked.kept, fun {other k} _ found free => linked.complete ?_ found free⟩
  intro same
  cases Option.some.inj same
  rw [busy] at free
  cases free

theorem lift (linked : Linked alloc tile lists none) : Linked alloc tile lists (some idx) :=
  ⟨linked.backed, linked.kept, fun _ => linked.complete (by simp)⟩

/-- The second half of the hole goes to a list. -/
theorem split (partition : Partition alloc live tile lists (some idx)) (tiled : tile idx = some (k + 1))
    (middle : other.val = idx.val + 2 ^ k) (pushed : Pushed alloc after k other)
    (linked : Linked alloc tile lists (some idx)) :
    Linked after (Tiling.split tile idx k) (Function.update lists k (other :: lists k)) (some idx) := by
  have positive : 0 < 2 ^ k := Nat.two_pow_pos k
  have unlisted : ∀ j, other ∉ lists j := by
    intro j member
    have pages := partition.tiling.disjoint tiled (partition.listed member).2.1 (by omega)
    rw [Nat.pow_succ] at pages
    have size := Nat.two_pow_pos j
    omega
  refine linked.push partition unlisted pushed fun {one order} apart found free => ?_
  have distinct := Fin.val_ne_of_ne (Partition.ne_hole apart)
  rcases Tiling.split_eq_some_iff.mp found with ⟨here | here, rfl⟩ | ⟨-, there, found⟩
  · exact absurd here distinct
  · exact .inl ⟨Fin.ext (here.trans middle.symm), rfl⟩
  · have apart' : one ≠ other := fun same => there (same ▸ middle)
    rw [pushed.isFree, Function.update_of_ne apart'] at free
    exact .inr ⟨apart, found, free⟩

theorem release (linked : Linked alloc tile lists (some idx))
    (partition : Partition alloc live tile lists (some idx)) (tiled : tile idx = some k)
    (pushed : Pushed alloc after k idx) :
    Linked after tile (Function.update lists k (idx :: lists k)) none := by
  refine linked.push partition (fun j member => (partition.listed member).1 rfl) pushed
    fun {one order} _ found free => ?_
  by_cases same : one = idx
  · subst same
    exact .inl ⟨rfl, Option.some.inj (found.symm.trans tiled)⟩
  · rw [pushed.isFree, Function.update_of_ne same] at free
    exact .inr ⟨by simpa using Ne.symm same, found, free⟩

end Linked

/-- What the loop of `kfree` keeps when whole buddies that nothing follows are merged. -/
structure MergingLast (live : List Allocation) (bound : Nat) (alloc : BuddyAllocator)
    (tile : Nat → Option Nat) (lists : Nat → List BlockIndex) (idx : BlockIndex) (order : Nat) :
    Prop where
  partition : Partition alloc live tile lists (some idx)
  tiled : tile idx = some order
  own : alloc.order idx = order
  linked : Linked alloc tile lists (some idx)
  merges : alloc.Merges alloc.IsLast bound idx order

theorem mergingLast_invariant (live : List Allocation) : MergeInvariant live (MergingLast live) where
  partition := fun merging => ⟨merging.partition, merging.tiled, merging.own⟩
  allows := by
    intro bound alloc tile lists idx order other merging found free
    obtain ⟨same, -, -⟩ := merging.merges.of_free found free
    obtain ⟨small, aligned, -⟩ := merging.partition.tiling.within merging.tiled
    obtain ⟨proper, value⟩ := buddyOf_spec aligned small found
    obtain ⟨order', -, tiled⟩ := merging.partition.tiling.buddy_tiled merging.tiled proper
    rw [← value] at tiled
    have apart : some idx ≠ some other := by
      intro hole
      cases Option.some.inj hole
      exact buddy_ne idx.val aligned value.symm
    exact ⟨same, merging.linked.links merging.partition (merging.linked.complete apart tiled free)⟩
  keeps := by
    intro bound alloc after tile lists idx order other merging found free removed merged remaining
    obtain ⟨same, last, rest⟩ := merging.merges.of_free found free
    obtain ⟨small, aligned, -⟩ := merging.partition.tiling.within merging.tiled
    obtain ⟨proper, value⟩ := buddyOf_spec aligned small found
    refine ⟨remaining.modify_hole _, merged, order_modify_setOrder _ _ _ (by omega),
      (merging.linked.merge merging.partition merging.tiled value last removed).modify_hole
        _ (fun _ => rfl),
      rest.after_merge merging.partition merging.tiled found removed fun ahead _ none => ?_⟩
    rw [IsLast, next_modify_setOrder, removed.next]
    split
    · exact last
    · exact none

end BuddyAllocator

namespace AllocRun

open BuddyAllocator

variable {run after first : AllocRun} {tile : Nat → Option Nat} {lists : Nat → List BlockIndex}

/-- A request is served from a list of one block. -/
def TakesLast (run : AllocRun) : AllocCall → Prop
  | .kalloc size => run.alloc.PopsLast (listIndex size).toNat
  | .kfree _ => True

/-- An admitted call that takes and merges only blocks that nothing follows on
their lists, and merges only whole buddies. -/
def GuardedLast (run : AllocRun) (call : AllocCall) : Prop :=
  run.Admitted call ∧ run.Frees IsLast call ∧ run.TakesLast call

instance (run : AllocRun) : (call : AllocCall) → Decidable (run.TakesLast call)
  | .kalloc size => inferInstanceAs (Decidable (run.alloc.PopsLast (listIndex size).toNat))
  | .kfree _ => .isTrue trivial

instance (run : AllocRun) (call : AllocCall) : Decidable (run.GuardedLast call) :=
  inferInstanceAs (Decidable (_ ∧ run.Frees IsLast call ∧ _))

/-- The tiling describes the run, and the lists have all free blocks. -/
def Valid (run : AllocRun) : Prop :=
  ∃ tile lists, Tiled run tile lists ∧ Linked run.alloc tile lists none

theorem Valid.handOut {alloc : BuddyAllocator} {live : List Allocation} {idx : BlockIndex}
    {i listIdx : Nat} (partition : Partition alloc live tile lists (some idx))
    (linked : Linked alloc tile lists (some idx)) (tiled : tile idx = some (min i 6))
    (wanted : listIdx ≤ min i 6) (small : i ≤ 8) :
    Valid ⟨(alloc.splitDown listIdx (indexToAddr idx) i).modify idx fun block =>
      (block.setOrder listIdx).clearFree, ⟨indexToAddr idx, listIdx⟩ :: live⟩ := by
  obtain ⟨tile', lists', tiled', cut, cut_linked⟩ := partition.splitDown
    (fun alloc tile lists => Linked alloc tile lists (some idx)) listIdx
    (fun partition tiled middle pushed linked => linked.split partition tiled middle pushed)
    linked tiled wanted small
  obtain ⟨partition', busy⟩ := cut.handOut tiled'
  have settled := cut_linked.modify_hole (fun block => (block.setOrder listIdx).clearFree)
    fun _ => rfl
  exact ⟨tile', lists', .of_busy partition' tiled' busy, settled.place busy⟩

/-- The first request takes the block of all pages from list 8. -/
theorem Valid.initial {listIdx : Nat} (small : listIdx ≤ 6) {answer : Option Nat × BuddyAllocator}
    (served : Served constructed listIdx answer) :
    Valid ⟨answer.2, match answer.1 with
      | none => []
      | some addr => [⟨addr, listIdx⟩]⟩ := by
  have only : ∀ {i idx}, constructed.freeLists i = some idx → i = 8 := by
    intro i idx head
    by_contra other
    exact absurd ((if_neg other).symm.trans head) (by simp)
  cases served with
  | none empty => cases empty 8 (by omega) (by decide)
  | whole head popped =>
    have eight := only head
    omega
  | @cut i idx after above bound empty head popped =>
    cases only head
    cases head
    refine Valid.handOut popped.first ⟨fun _ => trivial, ?_, ?_⟩ rfl (by omega) (Nat.le_refl _)
    · intro idx i pushed
      rw [popped.events, pending] at pushed
      split at pushed <;> cases pushed
    · intro idx k apart found _
      have zero : idx.val ≠ 0 := fun zero => apart (congrArg some (Fin.ext zero.symm))
      rw [Function.update_of_ne zero] at found
      cases found

/-- A request that takes the only block of a list, or none. -/
theorem Valid.allocate {alloc : BuddyAllocator} {live : List Allocation} (valid : Valid ⟨alloc, live⟩)
    {listIdx : Nat} (small : listIdx ≤ 6) (last : alloc.PopsLast listIdx)
    {answer : Option Nat × BuddyAllocator} (served : Served alloc listIdx answer) :
    Valid ⟨answer.2, match answer.1 with
      | none => live
      | some addr => ⟨addr, listIdx⟩ :: live⟩ := by
  obtain ⟨tile, lists, tiling, linked⟩ := valid
  have partition := tiling.partition
  cases served with
  | none empty => exact ⟨tile, lists, tiling, linked⟩
  | @whole idx after head popped =>
    obtain ⟨tiled, cut⟩ := partition.pop head popped
    have busy : after.isFree idx = false := (popped.isFree _).trans (if_pos rfl)
    have alone := last listIdx (by unfold numLists; omega) (Nat.le_refl _)
      (fun j below above => absurd above (Nat.not_le_of_lt below)) idx head
    exact ⟨tile, _, .of_busy (cut.place tiled (popped.own (by omega)) busy) tiled busy,
      (linked.pop partition head popped alone).place busy⟩
  | @cut i idx after above bound empty head popped =>
    obtain ⟨tiled, cut⟩ := partition.pop head popped
    have top : i ≤ 6 := (partition.tiling.within tiled).1
    have alone := last i bound (Nat.le_of_lt above) (fun j below above' => empty j above' below) idx head
    exact Valid.handOut cut (linked.pop partition head popped alone)
      (by rw [tiled, Nat.min_eq_left top]) (by omega) (by omega)

theorem Valid.kalloc {size : BitVec 32} (small : size.toNat ≤ 64 * 4096)
    (taken : run.step (.kalloc size) = some after)
    (allocated : ∀ {answer}, Served run.alloc (listIndex size).toNat answer →
      Valid ⟨answer.2, match answer.1 with
        | none => run.live
        | some addr => ⟨addr, (listIndex size).toNat⟩ :: run.live⟩) : Valid after := by
  obtain ⟨order, answer⟩ := kalloc_eq run.alloc small
  have later := allocated (allocate_served run.alloc (by unfold numLists; omega))
  simp only [step, answer] at taken
  rcases served : run.alloc.allocate (listIndex size).toNat with ⟨_ | addr, alloc⟩ <;>
    rw [served] at taken later <;> cases taken <;> exact later

theorem Valid.kfree (valid : Valid run) {place : Nat} (live : place < run.live.length)
    (frees : run.Frees IsLast (.kfree place)) (taken : run.step (.kfree place) = some after) :
    Valid after := by
  obtain ⟨tile, lists, tiling, linked⟩ := valid
  obtain ⟨merged, tile', lists', idx, order, _, taken', kept, later⟩ := tiling.kfree
    (List.getElem?_eq_getElem live) frees (mergingLast_invariant _)
    (fun _ covered own _ hole merges => ⟨hole, covered, own, linked.lift, merges⟩)
  cases Option.some.inj (taken.symm.trans taken')
  exact ⟨tile', _, later,
    kept.linked.release kept.partition kept.tiled (pushFreeList_pushed merged order idx)⟩

/-- Along every run of at least one call in which no block that has a successor on
its list is taken or merged, and only whole buddies are merged, the lists are valid. -/
theorem lists_valid {size : BitVec 32} (small : size.toNat ≤ 64 * 4096)
    (begun : start.step (.kalloc size) = some first)
    (reached : Reach step GuardedLast first run) : run.alloc.ListsValid := by
  have initial : Valid first :=
    Valid.kalloc small begun fun served => Valid.initial (kalloc_eq constructed small).1 served
  have valid : Valid run := by
    refine reached.invariant initial fun state call after valid guarded taken => ?_
    obtain ⟨admitted, frees, last⟩ := guarded
    cases call with
    | kalloc size =>
      exact Valid.kalloc admitted.2 taken fun served =>
        valid.allocate (kalloc_eq state.alloc admitted.2).1 last served
    | kfree place => exact valid.kfree admitted frees taken
  obtain ⟨tile, lists, tiling, linked⟩ := valid
  exact tiling.partition.represents linked

/-- Two pages are allocated, and given back and merged with all the others. -/
theorem lists_valid_merged : ∃ first run, start.step (.kalloc 1) = some first ∧
    follow step GuardedLast first [.kalloc 1, .kfree 0, .kfree 0] = some run ∧
      run.alloc.ListsValid := by
  have done : ((start.step (.kalloc 1)).bind fun first =>
      follow step GuardedLast first [.kalloc 1, .kfree 0, .kfree 0]).isSome = true := by decide +kernel
  obtain ⟨run, taken⟩ := Option.isSome_iff_exists.mp done
  obtain ⟨first, begun, taken⟩ := Option.bind_eq_some_iff.mp taken
  exact ⟨first, run, begun, taken, lists_valid (by decide) begun (.of_follow .start taken)⟩

/-- Page 0 is pushed before page 3 and popped again: page 3 is the head, and its
`prev` is still page 0. -/
theorem popped_head_leaves_prev : ¬ ∀ run, Reach step Admitted start run → run.alloc.ListsValid := by
  intro claim
  have links : (follow step Admitted start [.kalloc 1, .kalloc 1, .kalloc 1, .kfree 2, .kalloc 1]).map
      (fun run => (run.alloc.freeLists 0, run.alloc.prev 3)) = some (some 3, some 0) := by
    decide +kernel
  obtain ⟨run, taken, final⟩ := Option.map_eq_some_iff.mp links
  obtain ⟨head, back⟩ := Prod.mk.inj final
  obtain ⟨lists, represents⟩ := claim run (.of_follow .start taken)
  have chain := represents.chain 0 (by decide)
  have backed := represents.backed 0 (by decide)
  rw [head] at chain
  obtain ⟨rest, nodes, -⟩ := chain.of_some
  rw [nodes] at backed
  cases back.symm.trans backed.1

end AllocRun

end WalnutOs.Kernel
