import WalnutOs.Kernel.AllocPartition

/-! The loops of `kalloc` and `kfree` over the tiling. -/

namespace WalnutOs.Kernel

open WalnutOs.Klib WalnutOs.Lib

namespace BuddyAllocator

variable {alloc : BuddyAllocator} {live : List Allocation} {tile : Nat → Option Nat}
variable {lists : Nat → List BlockIndex} {idx : BlockIndex} {listIdx k : Nat}

theorem splitDown_of_lt {j : Nat} (more : listIdx < j + 1) (small : j ≤ 8) :
    splitDown listIdx (indexToAddr idx) (j + 1) alloc =
      splitDown listIdx (indexToAddr idx) j
        (if inside : idx.val + 2 ^ j < 64 then alloc.pushFreeList j ⟨idx.val + 2 ^ j, inside⟩
          else alloc) := by
  rw [splitDown, if_pos more]
  simp only [addrToIndex_middle idx small]
  by_cases inside : idx.val + 2 ^ j < 64
  · simp only [dif_pos inside]
  · simp only [dif_neg inside]

theorem splitDown_of_eq {headAddr j : Nat} (done : listIdx = j) :
    splitDown listIdx headAddr j alloc = alloc := by
  subst done
  cases listIdx with
  | zero => rfl
  | succ j => rw [splitDown, if_neg (Nat.lt_irrefl _)]

/-- Cutting the hole down to the order wanted keeps the partition, and whatever
each push keeps. The lists 7 and 8 name the block of all 64 pages as list 6 does. -/
theorem Partition.splitDown
    (extra : BuddyAllocator → (Nat → Option Nat) → (Nat → List BlockIndex) → Prop) (listIdx : Nat)
    (keeps : ∀ {alloc after tile lists k other}, Partition alloc live tile lists (some idx) →
      tile idx = some (k + 1) → other.val = idx.val + 2 ^ k → Pushed alloc after k other →
      extra alloc tile lists →
      extra after (Tiling.split tile idx k) (Function.update lists k (other :: lists k)))
    {j : Nat} (partition : Partition alloc live tile lists (some idx))
    (initial : extra alloc tile lists)
    (tiled : tile idx = some (min j 6)) (wanted : listIdx ≤ min j 6) (small : j ≤ 8) :
    ∃ tile' lists', tile' idx.val = some listIdx ∧
      Partition (alloc.splitDown listIdx (indexToAddr idx) j) live tile' lists' (some idx) ∧
      extra (alloc.splitDown listIdx (indexToAddr idx) j) tile' lists' := by
  induction j generalizing alloc tile lists with
  | zero =>
    have done : listIdx = 0 := by omega
    rw [splitDown_of_eq done, done]
    exact ⟨tile, lists, tiled, partition, initial⟩
  | succ j ih =>
    by_cases more : listIdx < j + 1
    · rw [splitDown_of_lt more (by omega)]
      rcases Nat.lt_or_ge j 6 with low | high
      · rw [Nat.min_eq_left (by omega)] at tiled
        have fits := partition.tiling.start_add_le tiled
        have positive : 0 < 2 ^ j := Nat.two_pow_pos j
        have inside : idx.val + 2 ^ j < 64 := by
          rw [Nat.pow_succ] at fits
          omega
        rw [dif_pos inside]
        have pushed := pushFreeList_pushed alloc j ⟨idx.val + 2 ^ j, inside⟩
        refine ih (partition.split tiled rfl pushed) (keeps partition tiled rfl pushed initial) ?_
          (by omega) (by omega)
        rw [Nat.min_eq_left (by omega)]
        exact Tiling.split_eq_some_iff.mpr (.inl ⟨.inl rfl, rfl⟩)
      · rw [Nat.min_eq_right (by omega)] at tiled
        have size : 2 ^ 6 ≤ 2 ^ j := Nat.pow_le_pow_right Nat.two_pos high
        rw [dif_neg (by omega)]
        refine ih partition initial ?_ (by omega) (by omega)
        rw [Nat.min_eq_right (by omega)]
        exact tiled
    · have done : listIdx = j + 1 := by omega
      rw [splitDown_of_eq done, done]
      rw [Nat.min_eq_left (by omega)] at tiled
      exact ⟨tile, lists, tiled, partition, initial⟩

/-- How `kalloc` is served: from the first list that is not empty, or not at all. -/
inductive Served (alloc : BuddyAllocator) (listIdx : Nat) : Option Nat × BuddyAllocator → Prop where
  | none (empty : ∀ i, listIdx ≤ i → i < numLists → alloc.freeLists i = none) :
      Served alloc listIdx (none, alloc)
  | whole {idx : BlockIndex} {after : BuddyAllocator} (head : alloc.freeLists listIdx = some idx)
      (popped : Popped alloc after listIdx idx) : Served alloc listIdx (some (indexToAddr idx), after)
  | cut {i : Nat} {idx : BlockIndex} {after : BuddyAllocator} (above : listIdx < i) (bound : i < numLists)
      (empty : ∀ j, listIdx ≤ j → j < i → alloc.freeLists j = none)
      (head : alloc.freeLists i = some idx) (popped : Popped alloc after i idx) :
      Served alloc listIdx (some (indexToAddr idx),
        (after.splitDown listIdx (indexToAddr idx) i).modify idx fun block =>
          (block.setOrder listIdx).clearFree)

theorem searchLists_served {count from' : Nat} (above : listIdx < from')
    (last : from' + count = numLists)
    (empty : ∀ j, listIdx ≤ j → j < from' → alloc.freeLists j = none) :
    Served alloc listIdx (searchLists listIdx (List.range' from' count) alloc) := by
  induction count generalizing from' with
  | zero => exact .none fun i low high => empty i low (by omega)
  | succ count ih =>
    rw [List.range'_succ, searchLists]
    cases head : alloc.freeLists from' with
    | none =>
      rw [popFreeList_none head]
      refine ih (by omega) (by omega) fun j low high => ?_
      rcases Nat.lt_or_eq_of_le (Nat.le_of_lt_succ high) with before | rfl
      · exact empty j low before
      · exact head
    | some idx =>
      obtain ⟨after, answer, popped⟩ := popFreeList_some head
      rw [answer]
      exact .cut above (by omega) empty head popped

theorem allocate_served (alloc : BuddyAllocator) (bound : listIdx < numLists) :
    Served alloc listIdx (alloc.allocate listIdx) := by
  rw [allocate]
  cases head : alloc.freeLists listIdx with
  | none =>
    rw [popFreeList_none head]
    refine searchLists_served (Nat.lt_succ_self _) (by omega) fun j low high => ?_
    obtain rfl : j = listIdx := by omega
    exact head
  | some idx =>
    obtain ⟨after, answer, popped⟩ := popFreeList_some head
    rw [answer]
    exact .whole head popped

end BuddyAllocator

end WalnutOs.Kernel
