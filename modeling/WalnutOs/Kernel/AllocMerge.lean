import WalnutOs.Kernel.AllocLoops

/-! The loop of `kfree`: a rule for its invariants, and the one that holds as long
as each buddy merged is a whole block of the order reached with right links. -/

namespace WalnutOs.Kernel

open WalnutOs.Klib WalnutOs.Lib

namespace BuddyAllocator

/-- The blocks met along `next` on a free list. -/
def onList (alloc : BuddyAllocator) (i : Nat) : List BlockIndex :=
  walk alloc.next numBlocks (alloc.freeLists i)

/-- On the free lists, the blocks whose `next` is this one are what its `prev` says. -/
def LinksAgree (alloc : BuddyAllocator) (idx : BlockIndex) : Prop :=
  ∀ i < numLists, ∀ other ∈ alloc.onList i, alloc.next other = some idx ↔ alloc.prev idx = some other

instance (alloc : BuddyAllocator) (idx : BlockIndex) : Decidable (alloc.LinksAgree idx) :=
  inferInstanceAs (Decidable (∀ i < numLists, ∀ other ∈ alloc.onList i,
    alloc.next other = some idx ↔ alloc.prev idx = some other))

/-- From a block of this order upwards, the buddies flagged free have the order
reached and are fine to merge. -/
def Merges (alloc : BuddyAllocator) (fine : BlockIndex → Prop) : Nat → BlockIndex → Nat → Prop
  | 0, _, _ => True
  | bound + 1, idx, order =>
    match buddyOf idx order with
    | none => True
    | some other => alloc.isFree other = true → alloc.order other = order ∧ fine other ∧
        Merges alloc fine bound (lower idx other) (order + 1)

instance Merges.decidable (alloc : BuddyAllocator) (fine : BlockIndex → Prop) [DecidablePred fine] :
    (bound : Nat) → (idx : BlockIndex) → (order : Nat) → Decidable (alloc.Merges fine bound idx order)
  | 0, _, _ => .isTrue trivial
  | bound + 1, idx, order => by
    unfold Merges
    cases buddyOf idx order with
    | none => exact .isTrue trivial
    | some other =>
      have := Merges.decidable alloc fine bound (lower idx other) (order + 1)
      exact inferInstanceAs (Decidable (_ → _ ∧ _ ∧ _))

variable {alloc after : BuddyAllocator} {live : List Allocation} {tile : Nat → Option Nat}
variable {lists : Nat → List BlockIndex} {hole : Option BlockIndex} {idx other : BlockIndex}
variable {order bound : Nat}

theorem Merges.of_free {fine : BlockIndex → Prop} (merges : alloc.Merges fine (bound + 1) idx order)
    (found : buddyOf idx order = some other) (free : alloc.isFree other = true) :
    alloc.order other = order ∧ fine other ∧ alloc.Merges fine bound (lower idx other) (order + 1) := by
  unfold Merges at merges
  rw [found] at merges
  exact merges free

/-- What lies ahead of a merge is not changed by it: the block that is merged
next is outside of the block that was. -/
theorem Merges.transport {fine fine' : BlockIndex → Prop} (low : BlockIndex)
    (isFree : after.isFree = alloc.isFree)
    (orders : ∀ other, other ≠ low → after.order other = alloc.order other)
    (still : ∀ other, order ≤ alloc.order other → fine other → fine' other)
    (aligned : 2 ^ order ∣ idx.val) (small : order ≤ 6) (above : idx.val ≤ low.val)
    (below : low.val < idx.val + 2 ^ order) (merges : alloc.Merges fine bound idx order) :
    after.Merges fine' bound idx order := by
  induction bound generalizing idx order with
  | zero => trivial
  | succ bound ih =>
    unfold Merges
    cases found : buddyOf idx order with
    | none => trivial
    | some other =>
      intro free
      rw [isFree] at free
      obtain ⟨same, good, rest⟩ := merges.of_free found free
      obtain ⟨proper, value⟩ := buddyOf_spec aligned small found
      obtain ⟨low_aligned, halves⟩ := buddy_halves aligned
      rw [← value, ← lower_val] at low_aligned halves
      have unit : 2 ^ (order + 1) = 2 ^ order + 2 ^ order := by rw [Nat.pow_succ]; omega
      have apart : other ≠ low := by
        rintro rfl
        have distinct := buddy_ne idx.val aligned
        omega
      refine ⟨by rw [orders other apart, same], still other same.ge good, ?_⟩
      exact ih (fun other high => still other (by omega)) low_aligned (by omega) (by omega) (by omega)
        rest

theorem coalesce_stop
    (alone : ∀ other, alloc.buddyIndex idx = some other → alloc.isFree other = false) :
    alloc.coalesce (bound + 1) order idx = .ok (order, idx, alloc) := by
  rw [coalesce]
  cases found : alloc.buddyIndex idx with
  | none => rfl
  | some other => exact if_neg (Bool.eq_false_iff.mp (alone other found))

theorem coalesce_merge (found : alloc.buddyIndex idx = some other)
    (free : alloc.isFree other = true) (answer : alloc.removeFromList other = .ok after) :
    alloc.coalesce (bound + 1) order idx =
      (after.modify (lower idx other) fun block => block.setOrder (order + 1)).coalesce bound
        (order + 1) (lower idx other) := by
  have unused : (alloc.blocks other).isFree = true := free
  simp only [coalesce, found, unused, if_true, answer]

/-- An invariant of the loop of `kfree`, which has the block merged so far as the
hole: it allows each merge and is kept by it. -/
structure MergeInvariant (live : List Allocation)
    (inv : Nat → BuddyAllocator → (Nat → Option Nat) → (Nat → List BlockIndex) → BlockIndex → Nat →
      Prop) : Prop where
  partition : ∀ {bound alloc tile lists idx order}, inv bound alloc tile lists idx order →
    Partition alloc live tile lists (some idx) ∧ tile idx = some order ∧ alloc.order idx = order
  allows : ∀ {bound alloc tile lists idx order other}, inv (bound + 1) alloc tile lists idx order →
    buddyOf idx order = some other → alloc.isFree other = true → alloc.order other = order ∧
      ∀ i, ∀ one ∈ lists i, alloc.next one = some other ↔ alloc.prev other = some one
  keeps : ∀ {bound alloc after tile lists idx order other},
    inv (bound + 1) alloc tile lists idx order → buddyOf idx order = some other →
    alloc.isFree other = true → Removed alloc after other →
    Tiling.merge tile (lower idx other) order (lower idx other) = some (order + 1) →
    Partition after live (Tiling.merge tile (lower idx other) order)
      (fun i => (lists i).erase other) (some (lower idx other)) →
    inv bound (after.modify (lower idx other) fun block => block.setOrder (order + 1))
      (Tiling.merge tile (lower idx other) order) (fun i => (lists i).erase other)
      (lower idx other) (order + 1)

/-- The loop ends at a block that has no free buddy, with its invariant. -/
theorem MergeInvariant.coalesce
    {inv : Nat → BuddyAllocator → (Nat → Option Nat) → (Nat → List BlockIndex) → BlockIndex → Nat →
      Prop}
    (rule : MergeInvariant live inv) (initial : inv bound alloc tile lists idx order)
    (enough : 6 < order + bound) :
    ∃ order' idx' after bound' tile' lists', alloc.coalesce bound order idx = .ok (order', idx', after) ∧
      inv bound' after tile' lists' idx' order' ∧
      ∀ other : BlockIndex, other.val = buddy idx' order' → after.isFree other = false := by
  induction bound generalizing alloc tile lists idx order with
  | zero =>
    obtain ⟨partition, tiled, -⟩ := rule.partition initial
    have small := (partition.tiling.within tiled).1
    omega
  | succ bound ih =>
    obtain ⟨partition, tiled, own⟩ := rule.partition initial
    obtain ⟨small, aligned, -⟩ := partition.tiling.within tiled
    have index : alloc.buddyIndex idx = buddyOf idx order := by
      rw [buddyIndex, ← own]
      rfl
    have stop (alone : ∀ other, buddyOf idx order = some other → alloc.isFree other = false) :
        ∀ other : BlockIndex, other.val = buddy idx order → alloc.isFree other = false := by
      intro other value
      cases found : buddyOf idx order with
      | none => exact absurd value (buddyOf_none aligned small found)
      | some other' =>
        rw [Fin.ext (value.trans (buddyOf_spec aligned small found).2.symm)]
        exact alone other' found
    by_cases merging : ∃ other, buddyOf idx order = some other ∧ alloc.isFree other = true
    · obtain ⟨other, found, free⟩ := merging
      obtain ⟨same, links⟩ := rule.allows initial found free
      obtain ⟨proper, value⟩ := buddyOf_spec aligned small found
      have listed : alloc.order other < numLists := by
        rw [same]
        unfold numLists
        omega
      obtain ⟨mid, answer, removed⟩ := removeFromList_removed listed
      obtain ⟨merged, remaining⟩ := partition.merge tiled proper value free same links removed
      rw [coalesce_merge (index.trans found) free answer]
      exact ih (rule.keeps initial found free removed merged remaining) (by omega)
    · have alone : ∀ other, buddyOf idx order = some other → alloc.isFree other = false :=
        fun other found => Bool.eq_false_iff.mpr fun free => merging ⟨other, found, free⟩
      exact ⟨order, idx, alloc, bound + 1, tile, lists, coalesce_stop (by rwa [index]), initial,
        stop alone⟩

theorem Partition.onList_eq (partition : Partition alloc live tile lists hole) (i : Nat) :
    alloc.onList i = lists i :=
  (partition.chain i).walk_eq (by simpa [numBlocks] using (partition.chain i).nodup.length_le_card)

theorem Partition.order_of_listed (partition : Partition alloc live tile lists hole) {i : Nat}
    (member : idx ∈ lists i) : alloc.order idx = i :=
  partition.order (partition.listed member).1 (partition.listed member).2.1

/-- Links that agree do so on every list of the partition. -/
theorem Partition.links (partition : Partition alloc live tile lists hole)
    (agree : alloc.LinksAgree other) :
    ∀ i, ∀ one ∈ lists i, alloc.next one = some other ↔ alloc.prev other = some one := by
  intro i one member
  have small := (partition.tiling.within (partition.listed member).2.1).1
  refine agree i ?_ one (by rwa [partition.onList_eq])
  unfold numLists
  omega

/-- A block of a larger order has the same links after a buddy has left its list. -/
theorem LinksAgree.removed {ahead : BlockIndex} {tile' : Nat → Option Nat}
    {hole' : Option BlockIndex} (partition : Partition alloc live tile lists hole)
    (remaining : Partition after live tile' (fun i => (lists i).erase other) hole')
    (removed : Removed alloc after other) (agree : alloc.LinksAgree other)
    (larger : alloc.order other < alloc.order ahead) (links : alloc.LinksAgree ahead) :
    after.LinksAgree ahead := by
  intro i _ one member
  rw [remaining.onList_eq] at member
  have member := List.mem_of_mem_erase member
  have here := partition.links agree i one member
  have there := partition.links links i one member
  rw [removed.next, removed.prev]
  by_cases before : alloc.prev other = some one
  · have link := here.mpr before
    have inside := (partition.chain i).next_mem member link
    have after_ne : alloc.next other ≠ some ahead := by
      intro link'
      have inside' := (partition.chain i).next_mem inside link'
      have := partition.order_of_listed inside
      have := partition.order_of_listed inside'
      omega
    have prev_ne : alloc.prev ahead ≠ some one := by
      intro back
      cases Option.some.inj (link.symm.trans (there.mpr back))
      exact Nat.lt_irrefl _ larger
    rw [if_pos before]
    exact iff_of_false after_ne prev_ne
  · rw [if_neg before]
    exact there

section SetOrder

variable (alloc : BuddyAllocator) (idx : BlockIndex) (number : Nat)

@[simp] theorem next_modify_setOrder :
    (alloc.modify idx fun block => block.setOrder number).next = alloc.next := by
  funext other
  by_cases same : other = idx <;> simp [next, same]

@[simp] theorem prev_modify_setOrder :
    (alloc.modify idx fun block => block.setOrder number).prev = alloc.prev := by
  funext other
  by_cases same : other = idx <;> simp [prev, same]

@[simp] theorem isFree_modify_setOrder :
    (alloc.modify idx fun block => block.setOrder number).isFree = alloc.isFree := by
  funext other
  by_cases same : other = idx <;> simp [isFree, same]

theorem order_modify_setOrder (small : number < 128) :
    (alloc.modify idx fun block => block.setOrder number).order idx = number := by
  simp [BuddyAllocator.order, Block.order_setOrder _ small]

theorem linksAgree_modify_setOrder (other : BlockIndex) :
    (alloc.modify idx fun block => block.setOrder number).LinksAgree other ↔
      alloc.LinksAgree other := by
  simp [LinksAgree, onList]

end SetOrder

/-- After a merge the condition on what lies ahead holds from the merged block on. -/
theorem Merges.after_merge {fine fine' : BlockIndex → Prop}
    (partition : Partition alloc live tile lists (some idx)) (tiled : tile idx = some order)
    (found : buddyOf idx order = some other) (removed : Removed alloc after other)
    (still : ∀ ahead, order + 1 ≤ alloc.order ahead → fine ahead → fine' ahead)
    (rest : alloc.Merges fine bound (lower idx other) (order + 1)) :
    (after.modify (lower idx other) fun block => block.setOrder (order + 1)).Merges fine' bound
      (lower idx other) (order + 1) := by
  obtain ⟨small, aligned, -⟩ := partition.tiling.within tiled
  obtain ⟨proper, value⟩ := buddyOf_spec aligned small found
  obtain ⟨low_aligned, -⟩ := buddy_halves aligned
  rw [← value, ← lower_val] at low_aligned
  refine rest.transport (lower idx other) ?_ ?_ still low_aligned (by omega) (Nat.le_refl _)
    (Nat.lt_add_of_pos_right (Nat.two_pow_pos _))
  · rw [isFree_modify_setOrder, removed.isFree]
  · intro other apart
    rw [← removed.order]
    simp [BuddyAllocator.order, apart]

/-- What the loop keeps when whole buddies with right links are merged. -/
structure MergingWhole (live : List Allocation) (bound : Nat) (alloc : BuddyAllocator)
    (tile : Nat → Option Nat) (lists : Nat → List BlockIndex) (idx : BlockIndex) (order : Nat) :
    Prop where
  partition : Partition alloc live tile lists (some idx)
  tiled : tile idx = some order
  own : alloc.order idx = order
  merges : alloc.Merges alloc.LinksAgree bound idx order

theorem mergingWhole_invariant (live : List Allocation) : MergeInvariant live (MergingWhole live) where
  partition := fun merging => ⟨merging.partition, merging.tiled, merging.own⟩
  allows := by
    intro bound alloc tile lists idx order other merging found free
    obtain ⟨same, agree, -⟩ := merging.merges.of_free found free
    exact ⟨same, merging.partition.links agree⟩
  keeps := by
    intro bound alloc after tile lists idx order other merging found free removed merged remaining
    obtain ⟨same, agree, rest⟩ := merging.merges.of_free found free
    have small := (remaining.tiling.within merged).1
    refine ⟨remaining.modify_hole _, merged, order_modify_setOrder _ _ _ (by omega), ?_⟩
    refine rest.after_merge merging.partition merging.tiled found removed ?_
    intro ahead larger links
    rw [linksAgree_modify_setOrder]
    exact LinksAgree.removed merging.partition remaining removed agree (by omega) links

end BuddyAllocator

end WalnutOs.Kernel
