import WalnutOs.Kernel.AllocIndex
import WalnutOs.Kernel.AllocLists
import WalnutOs.Lib.Live

/-! The 64 pages as a tiling by blocks that are allocated or free, and what each
routine of the page allocator does to it. -/

namespace WalnutOs.Kernel

open WalnutOs.Klib WalnutOs.Lib

/-- A request that was served: the address returned and the list computed. -/
structure Allocation where
  addr : Nat
  order : Nat
  deriving DecidableEq

namespace BuddyAllocator

/-- The records and lists describe the tiling, except for one block, the hole,
that a routine has in its hands. Free blocks may be missing from the lists. -/
structure Partition (alloc : BuddyAllocator) (live : List Allocation) (tile : Nat → Option Nat)
    (lists : Nat → List BlockIndex) (hole : Option BlockIndex) : Prop where
  tiling : Tiling 6 tile
  order : ∀ {idx : BlockIndex} {k}, hole ≠ some idx → tile idx = some k → alloc.order idx = k
  owned : ∀ held ∈ live, ∃ idx : BlockIndex, hole ≠ some idx ∧ held.addr = indexToAddr idx ∧
    tile idx = some held.order ∧ alloc.isFree idx = false
  owner : ∀ {idx : BlockIndex} {k}, hole ≠ some idx → tile idx = some k →
    alloc.isFree idx = false → ⟨indexToAddr idx, k⟩ ∈ live
  distinct : live.Pairwise fun first second => first.addr ≠ second.addr
  chain : ∀ i, IsChain alloc.next (alloc.freeLists i) (lists i)
  listed : ∀ {i} {idx : BlockIndex}, idx ∈ lists i →
    hole ≠ some idx ∧ tile idx = some i ∧ alloc.isFree idx = true
  unpaired : ∀ {idx other : BlockIndex} {k}, hole ≠ some idx → hole ≠ some other →
    tile idx = some k → tile other = some k → alloc.isFree idx = true →
    alloc.isFree other = true → other.val ≠ buddy idx k

namespace Partition

variable {alloc after : BuddyAllocator} {live : List Allocation} {tile : Nat → Option Nat}
variable {lists : Nat → List BlockIndex} {hole : Option BlockIndex} {idx other : BlockIndex}
variable {i k : Nat}

theorem ne_hole (apart : some idx ≠ some other) : other ≠ idx :=
  fun same => apart (congrArg some same.symm)

/-- A list that begins with a block is that block and a chain from its `next`. -/
theorem head_listed (partition : Partition alloc live tile lists hole)
    (head : alloc.freeLists i = some idx) :
    ∃ rest, lists i = idx :: rest ∧ IsChain alloc.next (alloc.next idx) rest ∧ idx ∉ rest := by
  have chain := partition.chain i
  rw [head] at chain
  obtain ⟨rest, nodes, later⟩ := chain.of_some
  rw [nodes] at chain
  exact ⟨rest, nodes, later, (List.nodup_cons.mp chain.nodup).1⟩

theorem eq_of_listed (partition : Partition alloc live tile lists hole) {j : Nat}
    (first : idx ∈ lists i) (second : idx ∈ lists j) : j = i := by
  have here := (partition.listed first).2.1
  have there := (partition.listed second).2.1
  exact Option.some.inj (there.symm.trans here)

/-- `pop_free_list` makes the head of a list the hole and cuts the list after
its second block. -/
theorem pop (partition : Partition alloc live tile lists none)
    (head : alloc.freeLists i = some idx) (popped : Popped alloc after i idx) :
    tile idx = some i ∧
      Partition after live tile (Function.update lists i ((lists i).tail.take 1)) (some idx) := by
  obtain ⟨rest, nodes, later, absent⟩ := partition.head_listed head
  have first : idx ∈ lists i := nodes ▸ List.mem_cons_self
  obtain ⟨-, tiled, free⟩ := partition.listed first
  have sublist : (lists i).tail.take 1 ⊆ rest := by
    rw [nodes]
    exact List.take_subset 1 rest
  refine ⟨tiled, partition.tiling, ?_, ?_, ?_, partition.distinct, ?_, ?_, ?_⟩
  · intro other k apart found
    rw [popped.order other (ne_hole apart)]
    exact partition.order (by simp) found
  · intro held member
    obtain ⟨other, -, addr, found, busy⟩ := partition.owned held member
    have apart : other ≠ idx := by
      rintro rfl
      rw [free] at busy
      cases busy
    exact ⟨other, by simpa using apart.symm, addr, found, by rw [popped.isFree, if_neg apart, busy]⟩
  · intro other k apart found busy
    rw [popped.isFree, if_neg (ne_hole apart)] at busy
    exact partition.owner (by simp) found busy
  · intro j
    rw [popped.freeLists]
    by_cases here : j = i
    · subst here
      simp only [Function.update_self, nodes, List.tail_cons]
      cases rest with
      | nil => exact later
      | cons second rest =>
        refine ⟨later.1, ?_⟩
        rw [popped.next, if_pos (.inr later.1)]
        rfl
    · simp only [Function.update_of_ne here]
      refine (partition.chain j).frame fun other member => ?_
      have unpopped : other ≠ idx := by
        rintro rfl
        exact here (partition.eq_of_listed first member)
      have unlinked : alloc.next idx ≠ some other := fun link =>
        here (partition.eq_of_listed ((partition.chain i).next_mem first link) member)
      rw [popped.next, if_neg (by simp [unpopped, unlinked])]
  · intro j other member
    have before : other ∈ lists j ∧ other ≠ idx := by
      by_cases here : j = i
      · subst here
        rw [Function.update_self] at member
        have inside := sublist member
        exact ⟨nodes ▸ List.mem_cons_of_mem _ inside, fun same => absent (same ▸ inside)⟩
      · rw [Function.update_of_ne here] at member
        refine ⟨member, ?_⟩
        rintro rfl
        exact here (partition.eq_of_listed first member)
    obtain ⟨-, found, unused⟩ := partition.listed before.1
    exact ⟨by simpa using before.2.symm, found, by rw [popped.isFree, if_neg before.2, unused]⟩
  · intro one other k apart apart' found found' unused unused'
    rw [popped.isFree, if_neg (ne_hole apart)] at unused
    rw [popped.isFree, if_neg (ne_hole apart')] at unused'
    exact partition.unpaired (by simp) (by simp) found found' unused unused'

/-- Nothing is known of the hole's own record, so that it may change. -/
theorem modify_hole (partition : Partition alloc live tile lists (some idx)) (change : Block → Block) :
    Partition (alloc.modify idx change) live tile lists (some idx) := by
  have order : ∀ {other}, some idx ≠ some other → (alloc.modify idx change).order other =
      alloc.order other := fun apart => by simp [BuddyAllocator.order, ne_hole apart]
  have isFree : ∀ {other}, some idx ≠ some other → (alloc.modify idx change).isFree other =
      alloc.isFree other := fun apart => by simp [BuddyAllocator.isFree, ne_hole apart]
  refine ⟨partition.tiling, ?_, ?_, ?_, partition.distinct, ?_, ?_, ?_⟩
  · intro other k apart found
    rw [order apart]
    exact partition.order apart found
  · intro held member
    obtain ⟨other, apart, addr, found, busy⟩ := partition.owned held member
    exact ⟨other, apart, addr, found, by rw [isFree apart, busy]⟩
  · intro other k apart found busy
    exact partition.owner apart found (by rw [← isFree apart, busy])
  · intro j
    refine (partition.chain j).frame fun other member => ?_
    simp [BuddyAllocator.next, ne_hole (partition.listed member).1]
  · intro j other member
    obtain ⟨apart, found, unused⟩ := partition.listed member
    exact ⟨apart, found, by rw [isFree apart, unused]⟩
  · intro one other k apart apart' found found' unused unused'
    rw [isFree apart] at unused
    rw [isFree apart'] at unused'
    exact partition.unpaired apart apart' found found' unused unused'

/-- A block that is neither half is there before a split exactly when it is afterwards. -/
theorem split_other (middle : other.val = idx.val + 2 ^ k) {one : BlockIndex} (apart : one ≠ idx)
    (apart' : one ≠ other) : Tiling.split tile idx k one = tile one := by
  have first := Fin.val_ne_of_ne apart
  have second := Fin.val_ne_of_ne apart'
  rw [middle] at second
  rw [Tiling.split, Function.update_of_ne second, Function.update_of_ne first]

/-- No block begins in the middle of another. -/
theorem untiled_middle (partition : Partition alloc live tile lists hole)
    (tiled : tile idx = some (k + 1)) (middle : other.val = idx.val + 2 ^ k) (order : Nat) :
    tile other ≠ some order := by
  intro found
  have positive : 0 < 2 ^ k := Nat.two_pow_pos k
  have unit : 2 ^ (k + 1) = 2 ^ k + 2 ^ k := by rw [Nat.pow_succ]; omega
  have same := partition.tiling.apart tiled found (by omega) (by omega)
  omega

/-- The second half of the hole goes to a list. -/
theorem split (partition : Partition alloc live tile lists (some idx)) (tiled : tile idx = some (k + 1))
    (middle : other.val = idx.val + 2 ^ k) (pushed : Pushed alloc after k other) :
    Partition after live (Tiling.split tile idx k) (Function.update lists k (other :: lists k))
      (some idx) := by
  have positive : 0 < 2 ^ k := Nat.two_pow_pos k
  obtain ⟨small, aligned, -⟩ := partition.tiling.within tiled
  have apart_of_tiled : ∀ {one : BlockIndex} {order}, tile one = some order → one ≠ other := by
    rintro one order found rfl
    exact partition.untiled_middle tiled middle order found
  have kept : ∀ {one : BlockIndex} {order}, some idx ≠ some one → tile one = some order →
      Tiling.split tile idx k one = some order := fun apart found =>
    (split_other middle (ne_hole apart) (apart_of_tiled found)).trans found
  have old : ∀ {one : BlockIndex} {order}, some idx ≠ some one → one ≠ other →
      Tiling.split tile idx k one = some order → tile one = some order := fun apart apart' found =>
    (split_other middle (ne_hole apart) apart').symm.trans found
  have unheld : some idx ≠ some other := by
    intro same
    cases Option.some.inj same
    omega
  have half : Tiling.split tile idx k other = some k :=
    Tiling.split_eq_some_iff.mpr (.inl ⟨.inr middle, rfl⟩)
  refine ⟨partition.tiling.split_tiling tiled, ?_, ?_, ?_, partition.distinct, ?_, ?_, ?_⟩
  · intro one order apart found
    rw [pushed.order (by omega)]
    by_cases same : one = other
    · subst same
      rw [half] at found
      rw [Function.update_self, Option.some.inj found]
    · rw [Function.update_of_ne same]
      exact partition.order apart (old apart same found)
  · intro held member
    obtain ⟨one, apart, addr, found, busy⟩ := partition.owned held member
    refine ⟨one, apart, addr, kept apart found, ?_⟩
    rw [pushed.isFree, Function.update_of_ne (apart_of_tiled found), busy]
  · intro one order apart found busy
    by_cases same : one = other
    · subst same
      rw [pushed.isFree, Function.update_self] at busy
      cases busy
    · rw [pushed.isFree, Function.update_of_ne same] at busy
      exact partition.owner apart (old apart same found) busy
  · exact pushed.chain partition.chain fun j member =>
      apart_of_tiled (partition.listed member).2.1 rfl
  · intro j one member
    rw [pushed.isFree]
    rcases mem_update_cons.mp member with ⟨rfl, rfl⟩ | member
    · exact ⟨unheld, half, Function.update_self ..⟩
    · obtain ⟨apart, found, unused⟩ := partition.listed member
      exact ⟨apart, kept apart found, by rw [Function.update_of_ne (apart_of_tiled found), unused]⟩
  · intro one two order apart apart' found found' unused unused' buddies
    rw [pushed.isFree] at unused unused'
    have one_aligned := ((partition.tiling.split_tiling tiled).within found).2.1
    -- the buddy of the half that is pushed is the hole
    by_cases same : one = other
    · subst same
      rw [half] at found
      cases found
      rw [middle, buddy_high aligned] at buddies
      exact ne_hole apart' (Fin.ext buddies)
    · by_cases same' : two = other
      · subst same'
        rw [half] at found'
        cases found'
        have back := buddy_buddy one_aligned
        rw [← buddies, middle, buddy_high aligned] at back
        exact ne_hole apart (Fin.ext back.symm)
      · rw [Function.update_of_ne same] at unused
        rw [Function.update_of_ne same'] at unused'
        exact partition.unpaired apart apart' (old apart same found) (old apart' same' found')
          unused unused' buddies

/-- The hole becomes a live allocation. -/
theorem place (partition : Partition alloc live tile lists (some idx)) (tiled : tile idx = some k)
    (order : alloc.order idx = k) (busy : alloc.isFree idx = false) :
    Partition alloc (⟨indexToAddr idx, k⟩ :: live) tile lists none := by
  have unfree : ∀ {other}, alloc.isFree other = true → some idx ≠ some other := by
    intro other free same
    cases Option.some.inj same
    rw [busy] at free
    cases free
  refine ⟨partition.tiling, ?_, ?_, ?_, ?_, partition.chain, ?_, ?_⟩
  · intro other k' _ found
    by_cases same : other = idx
    · subst same
      exact order.trans (Option.some.inj (tiled.symm.trans found))
    · exact partition.order (by simpa using Ne.symm same) found
  · intro held member
    rcases List.mem_cons.mp member with rfl | member
    · exact ⟨idx, by simp, rfl, tiled, busy⟩
    · obtain ⟨other, -, rest⟩ := partition.owned held member
      exact ⟨other, by simp, rest⟩
  · intro other k' _ found unused
    by_cases same : other = idx
    · subst same
      cases Option.some.inj (tiled.symm.trans found)
      exact List.mem_cons_self
    · exact List.mem_cons_of_mem _ (partition.owner (by simpa using Ne.symm same) found unused)
  · refine List.pairwise_cons.mpr ⟨fun held member same => ?_, partition.distinct⟩
    obtain ⟨other, apart, addr, -⟩ := partition.owned held member
    exact apart (congrArg some (indexToAddr_inj (same.trans addr)))
  · intro j other member
    obtain ⟨-, rest⟩ := partition.listed member
    exact ⟨by simp, rest⟩
  · intro one two k' _ _ found found' unused unused'
    exact partition.unpaired (unfree unused) (unfree unused') found found' unused unused'

/-- A live allocation becomes the hole. -/
theorem lift (partition : Partition alloc live tile lists none) {place : Nat} {held : Allocation}
    (found : live[place]? = some held) :
    ∃ idx : BlockIndex, held.addr = indexToAddr idx ∧ tile idx = some held.order ∧
      alloc.order idx = held.order ∧ alloc.isFree idx = false ∧
      Partition alloc (live.eraseIdx place) tile lists (some idx) := by
  obtain ⟨idx, -, addr, tiled, busy⟩ := partition.owned held (List.mem_of_getElem? found)
  refine ⟨idx, addr, tiled, partition.order (by simp) tiled, busy, ?_⟩
  refine ⟨partition.tiling, fun _ => partition.order (by simp), ?_, ?_, ?_, partition.chain, ?_, ?_⟩
  · intro other member
    obtain ⟨one, -, addr', rest⟩ := partition.owned other ((Live.mem_iff found _).mpr (.inr member))
    refine ⟨one, ?_, addr', rest⟩
    intro same
    cases Option.some.inj same
    exact Live.key_ne_of_mem_eraseIdx partition.distinct found member (addr'.trans addr.symm)
  · intro one k apart tiled' unused
    rcases (Live.mem_iff found _).mp (partition.owner (by simp) tiled' unused) with same | member
    · have addrs := congrArg Allocation.addr same
      exact absurd (congrArg some (indexToAddr_inj (addr.symm.trans addrs.symm))) apart
    · exact member
  · exact partition.distinct.sublist (List.eraseIdx_sublist live place)
  · intro j one member
    obtain ⟨-, tiled', free⟩ := partition.listed member
    refine ⟨?_, tiled', free⟩
    intro same
    cases Option.some.inj same
    rw [busy] at free
    cases free
  · exact fun _ _ => partition.unpaired (by simp) (by simp)

/-- Where both halves were before a merge, only the whole is afterwards. -/
theorem of_merge (aligned : 2 ^ k ∣ idx.val) (buddies : other.val = buddy idx k)
    {one : BlockIndex} {order : Nat} (apart : one ≠ lower idx other)
    (found : Tiling.merge tile (lower idx other) k one = some order) :
    one ≠ idx ∧ one ≠ other ∧ tile one = some order := by
  obtain ⟨-, halves⟩ := buddy_halves aligned
  rw [← buddies, ← lower_val] at halves
  have apart := Fin.val_ne_of_ne apart
  rcases Tiling.merge_eq_some_iff.mp found with ⟨here, -⟩ | ⟨-, apart', found⟩
  · exact absurd here apart
  · refine ⟨?_, ?_, found⟩ <;>
    · rintro rfl
      omega

/-- A block that is neither half stays when the halves are joined. -/
theorem to_merge (aligned : 2 ^ k ∣ idx.val) (buddies : other.val = buddy idx k)
    {one : BlockIndex} {order : Nat} (apart : one ≠ idx) (apart' : one ≠ other)
    (found : tile one = some order) : some (lower idx other) ≠ some one ∧
      Tiling.merge tile (lower idx other) k one = some order := by
  obtain ⟨-, halves⟩ := buddy_halves aligned
  rw [← buddies, ← lower_val] at halves
  have apart := Fin.val_ne_of_ne apart
  have apart' := Fin.val_ne_of_ne apart'
  refine ⟨?_, Tiling.merge_eq_some_iff.mpr (.inr ⟨by omega, by omega, found⟩)⟩
  intro same
  have value := congrArg Fin.val (Option.some.inj same)
  omega

theorem merge_tiling (tiling : Tiling 6 tile) (buddies : other.val = buddy idx k)
    (tiled : tile idx = some k) (tiled' : tile other = some k) :
    Tiling 6 (Tiling.merge tile (lower idx other) k) := by
  obtain ⟨low_aligned, halves⟩ := buddy_halves (tiling.within tiled).2.1
  rw [← buddies, ← lower_val] at low_aligned halves
  rcases halves with ⟨first, second⟩ | ⟨first, second⟩
  · exact tiling.merge_tiling low_aligned (first ▸ tiled) (second ▸ tiled')
  · exact tiling.merge_tiling low_aligned (second ▸ tiled') (first ▸ tiled)

/-- A free buddy of the hole's order, to which `next` and `prev` fields agree,
leaves its list, and the hole becomes the block of both. -/
theorem merge (partition : Partition alloc live tile lists (some idx)) (tiled : tile idx = some k)
    (proper : k < 6) (buddies : other.val = buddy idx k) (free : alloc.isFree other = true)
    (order : alloc.order other = k)
    (links : ∀ i, ∀ one ∈ lists i, alloc.next one = some other ↔ alloc.prev other = some one)
    (removed : Removed alloc after other) :
    Tiling.merge tile (lower idx other) k (lower idx other) = some (k + 1) ∧
      Partition after live (Tiling.merge tile (lower idx other) k) (fun i => (lists i).erase other)
        (some (lower idx other)) := by
  obtain ⟨-, aligned, -⟩ := partition.tiling.within tiled
  have distinct : other ≠ idx := fun same => buddy_ne idx.val aligned (same ▸ buddies.symm)
  have hole : some idx ≠ some other := by simpa using distinct.symm
  obtain ⟨k', -, found⟩ := partition.tiling.buddy_tiled tiled proper
  rw [← buddies] at found
  have tiled' : tile other = some k := by
    rw [found, ← partition.order hole found, order]
  have old {one : BlockIndex} {order : Nat} (apart : some (lower idx other) ≠ some one)
      (found : Tiling.merge tile (lower idx other) k one = some order) :
      some idx ≠ some one ∧ tile one = some order := by
    obtain ⟨first, -, found⟩ := of_merge aligned buddies (ne_hole apart) found
    exact ⟨by simpa using first.symm, found⟩
  refine ⟨Tiling.merge_eq_some_iff.mpr (.inl ⟨rfl, rfl⟩),
    merge_tiling partition.tiling buddies tiled tiled', ?_, ?_, ?_, partition.distinct, ?_, ?_, ?_⟩
  · intro one order apart found
    obtain ⟨apart, found⟩ := old apart found
    rw [removed.order]
    exact partition.order apart found
  · intro held member
    obtain ⟨one, apart, addr, found, busy⟩ := partition.owned held member
    have unmerged : one ≠ other := by
      rintro rfl
      rw [free] at busy
      cases busy
    obtain ⟨apart, found⟩ := to_merge aligned buddies (ne_hole apart) unmerged found
    exact ⟨one, apart, addr, found, by rw [removed.isFree, busy]⟩
  · intro one order apart found busy
    obtain ⟨apart, found⟩ := old apart found
    exact partition.owner apart found (by rw [← removed.isFree, busy])
  · intro j
    have relinked : ∀ one ∈ lists j,
        after.next one = if alloc.next one = some other then alloc.next other else alloc.next one := by
      intro one member
      rw [removed.next]
      exact if_congr (links j one member).symm rfl rfl
    have unlinked := (partition.chain j).unlink relinked
    rw [removed.freeLists]
    refine Eq.subst (motive := fun head => IsChain after.next head _) ?_ unlinked
    refine if_congr ?_ rfl rfl
    constructor
    · intro head
      obtain ⟨rest, nodes, -⟩ := partition.head_listed head
      have here := (partition.listed (nodes ▸ List.mem_cons_self : other ∈ lists j)).2.1
      exact ⟨(Option.some.inj (tiled'.symm.trans here)).symm.trans order.symm, head⟩
    · exact And.right
  · intro j one member
    obtain ⟨apart', member⟩ := (partition.chain j).nodup.mem_erase_iff.mp member
    obtain ⟨apart, found, unused⟩ := partition.listed member
    obtain ⟨apart, found⟩ := to_merge aligned buddies (ne_hole apart) apart' found
    exact ⟨apart, found, by rw [removed.isFree, unused]⟩
  · intro one two order apart apart' found found' unused unused'
    obtain ⟨apart, found⟩ := old apart found
    obtain ⟨apart', found'⟩ := old apart' found'
    rw [removed.isFree] at unused unused'
    exact partition.unpaired apart apart' found found' unused unused'

/-- The hole, which has no free buddy, goes to a list. -/
theorem release (partition : Partition alloc live tile lists (some idx)) (tiled : tile idx = some k)
    (alone : ∀ other : BlockIndex, other.val = buddy idx k → alloc.isFree other = false)
    (pushed : Pushed alloc after k idx) :
    Partition after live tile (Function.update lists k (idx :: lists k)) none := by
  obtain ⟨small, aligned, -⟩ := partition.tiling.within tiled
  have isFree : ∀ {other}, other ≠ idx → after.isFree other = alloc.isFree other := fun apart => by
    rw [pushed.isFree, Function.update_of_ne apart]
  refine ⟨partition.tiling, ?_, ?_, ?_, partition.distinct, ?_, ?_, ?_⟩
  · intro other k' _ found
    rw [pushed.order (by omega)]
    by_cases same : other = idx
    · subst same
      rw [Function.update_self, Option.some.inj (tiled.symm.trans found)]
    · rw [Function.update_of_ne same]
      exact partition.order (by simpa using Ne.symm same) found
  · intro held member
    obtain ⟨other, apart, addr, found, busy⟩ := partition.owned held member
    exact ⟨other, by simp, addr, found, by rw [isFree (ne_hole apart), busy]⟩
  · intro other k' _ found busy
    by_cases same : other = idx
    · subst same
      rw [pushed.isFree, Function.update_self] at busy
      cases busy
    · rw [isFree same] at busy
      exact partition.owner (by simpa using Ne.symm same) found busy
  · exact pushed.chain partition.chain fun j member => (partition.listed member).1 rfl
  · intro j one member
    rcases mem_update_cons.mp member with ⟨rfl, rfl⟩ | member
    · exact ⟨by simp, tiled, by rw [pushed.isFree, Function.update_self]⟩
    · obtain ⟨apart, found, unused⟩ := partition.listed member
      exact ⟨by simp, found, by rw [isFree (ne_hole apart), unused]⟩
  · intro one two k' _ _ found found' unused unused' buddies
    have one_aligned := (partition.tiling.within found).2.1
    by_cases same : one = idx
    · subst same
      cases Option.some.inj (tiled.symm.trans found)
      by_cases same' : two = one
      · subst same'
        exact buddy_ne two.val one_aligned buddies.symm
      · rw [isFree same', alone two buddies] at unused'
        cases unused'
    · rw [isFree same] at unused
      by_cases same' : two = idx
      · subst same'
        cases Option.some.inj (tiled.symm.trans found')
        rw [alone one (by rw [buddies, buddy_buddy one_aligned])] at unused
        cases unused
      · rw [isFree same'] at unused'
        exact partition.unpaired (by simpa using Ne.symm same) (by simpa using Ne.symm same')
          found found' unused unused' buddies

end Partition

end BuddyAllocator

end WalnutOs.Kernel
