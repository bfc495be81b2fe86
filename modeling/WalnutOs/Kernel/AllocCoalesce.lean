import WalnutOs.Kernel.AllocRun

/-! The loop of `kfree` over the 16-bit indices of the source, in which an access past
the 64 blocks or the nine lists is a fault. -/

namespace WalnutOs.Kernel

open WalnutOs.Klib WalnutOs.Lib

def nullBlock : Nat := 0xFFFF

/-- `addr_to_index`, as the number that it returns. -/
def addrToU16 (addr : Nat) : Nat :=
  let index := (addr + (2 ^ 32 - blockOffset)) % 2 ^ 32 / 0x1000
  if index ≥ numBlocks then nullBlock else index

/-- `buddy_index` of a block of this order. -/
def buddyU16 (blockIdx order : Nat) : Nat :=
  let blockAddress := blockIdx * 0x1000
  if blockAddress % 2 ^ (order + smallestBlockSize + 1) = 0 then
    addrToU16 (blockAddress + 2 ^ (order + smallestBlockSize) + blockOffset)
  else addrToU16 (blockAddress + (2 ^ 32 - 2 ^ (order + smallestBlockSize)) + blockOffset)

/-- `blocks[idx]`. -/
def blockAt (idx : Nat) : Except Fault BlockIndex :=
  if inside : idx < numBlocks then .ok ⟨idx, inside⟩ else .error .outOfBounds

theorem blockAt_val (idx : BlockIndex) : blockAt idx.val = .ok idx := dif_pos idx.isLt

theorem addrToU16_eq (addr : Nat) :
    addrToU16 addr = match addrToIndex addr with
      | none => nullBlock
      | some idx => idx.val := by
  by_cases inside : (addr + (2 ^ 32 - blockOffset)) % 2 ^ 32 / 0x1000 < numBlocks
  · have index : addrToIndex addr = some ⟨_, inside⟩ := dif_pos inside
    have number : addrToU16 addr = (addr + (2 ^ 32 - blockOffset)) % 2 ^ 32 / 0x1000 :=
      if_neg (Nat.not_le_of_lt inside)
    rw [index, number]
  · have index : addrToIndex addr = none := dif_neg inside
    have number : addrToU16 addr = nullBlock := if_pos (Nat.le_of_not_lt inside)
    rw [index, number]

theorem buddyU16_eq (idx : BlockIndex) (order : Nat) :
    buddyU16 idx.val order = match buddyOf idx order with
      | none => nullBlock
      | some other => other.val := by
  unfold buddyU16 buddyOf
  by_cases aligned : idx.val * 0x1000 % 2 ^ (order + smallestBlockSize + 1) = 0
  · simp only [if_pos aligned, addrToU16_eq]
  · simp only [if_neg aligned, addrToU16_eq]

theorem ite_val (idx other : BlockIndex) :
    (if idx.val > other.val then other.val else idx.val) = (lower idx other).val := by
  rw [lower_val]
  split <;> omega

namespace BuddyAllocator

/-- The loop of `kfree`; `buddy_is_free` compares the index with 64 before it reads the block. -/
def coalesceU16 : Nat → Nat → Nat → BuddyAllocator → Except Fault (Nat × Nat × BuddyAllocator)
  | 0, _, _, _ => .error .diverges
  | bound + 1, newListIdx, blockIdx, alloc =>
    match blockAt blockIdx with
    | .error fault => .error fault
    | .ok block =>
      let buddyIdx := buddyU16 blockIdx (alloc.blocks block).order
      if buddyIdx > numBlocks then .ok (newListIdx, blockIdx, alloc)
      else
        match blockAt buddyIdx with
        | .error fault => .error fault
        | .ok buddy =>
          if (alloc.blocks buddy).isFree then
            match alloc.removeFromList buddy with
            | .error fault => .error fault
            | .ok alloc =>
              let blockIdx := if blockIdx > buddyIdx then buddyIdx else blockIdx
              match blockAt blockIdx with
              | .error fault => .error fault
              | .ok block =>
                coalesceU16 bound (newListIdx + 1) blockIdx
                  (alloc.modify block fun block => block.setOrder (newListIdx + 1))
          else .ok (newListIdx, blockIdx, alloc)

/-- From a block the loop never leaves the blocks. -/
theorem coalesceU16_eq (bound newListIdx : Nat) (idx : BlockIndex) (alloc : BuddyAllocator) :
    alloc.coalesceU16 bound newListIdx idx.val =
      (alloc.coalesce bound newListIdx idx).map fun result => (result.1, result.2.1.val, result.2.2) := by
  induction bound generalizing newListIdx idx alloc with
  | zero => rfl
  | succ bound ih =>
    simp only [coalesceU16, coalesce, blockAt_val, buddyU16_eq, buddyIndex]
    cases buddyOf idx (alloc.blocks idx).order with
    | none =>
      have far : nullBlock > numBlocks := by decide
      simp only [if_pos far]
      rfl
    | some other =>
      have near : ¬other.val > numBlocks := Nat.not_lt_of_lt other.isLt
      simp only [if_neg near, blockAt_val, ite_val]
      cases (alloc.blocks other).isFree with
      | false => rfl
      | true =>
        simp only [if_true]
        cases alloc.removeFromList other with
        | error fault => rfl
        | ok after => exact ih _ _ _

/-- Only a block smaller than the whole has a buddy. -/
theorem order_lt_of_buddy {idx other : BlockIndex} {order : Nat} (small : order ≤ 8)
    (found : buddyOf idx order = some other) : order < 6 := by
  have all : ∀ idx : BlockIndex, ∀ order : Fin 9, (buddyOf idx order.val).isSome = true → order.val < 6 := by
    decide +kernel
  exact all idx ⟨order, Nat.lt_succ_of_le small⟩ (Option.isSome_of_eq_some found)

variable {alloc after : BuddyAllocator} {idx : BlockIndex} {order bound : Nat}

/-- What the loop leaves: a list that is one of the nine, orders of at most 8, and a block
removed from its list for each of the merges, of which there is one for each order reached. -/
structure Coalesced (alloc : BuddyAllocator) (order most : Nat) (result : Nat × BlockIndex × BuddyAllocator) :
    Prop where
  list : result.1 < numLists
  orders : ∀ other, result.2.2.order other ≤ 8
  merges : ∃ merged : List BlockIndex, result.2.2.events = merged.map .removed ++ alloc.events ∧
    merged.length ≤ most ∧ result.1 = order + merged.length

theorem Coalesced.stop (orders : ∀ other, alloc.order other ≤ 8) (small : order ≤ 8) (most : Nat) :
    Coalesced alloc order most (order, idx, alloc) :=
  ⟨Nat.lt_succ_of_le small, orders, [], rfl, Nat.zero_le most, rfl⟩

/-- Each turn raises the order of the block, which has a buddy below order 6 only. -/
theorem coalesce_coalesced (orders : ∀ other, alloc.order other ≤ 8) (own : alloc.order idx = order)
    (enough : 6 - order < bound) :
    ∃ result, alloc.coalesce bound order idx = .ok result ∧ Coalesced alloc order (6 - order) result := by
  have small : order ≤ 8 := own ▸ orders idx
  induction bound generalizing alloc idx order with
  | zero => cases enough
  | succ bound ih =>
    have index : alloc.buddyIndex idx = buddyOf idx order := by
      rw [buddyIndex, ← own]
      rfl
    by_cases merging : ∃ other, buddyOf idx order = some other ∧ alloc.isFree other = true
    · obtain ⟨other, found, free⟩ := merging
      have proper := order_lt_of_buddy small found
      obtain ⟨mid, taken, removed⟩ := removeFromList_removed (Nat.lt_succ_of_le (orders other))
      have raised : ∀ one,
          (mid.modify (lower idx other) fun block => block.setOrder (order + 1)).order one ≤ 8 := by
        intro one
        by_cases same : one = lower idx other
        · rw [same, order_modify_setOrder _ _ _ (by omega)]
          omega
        · have kept : mid.order one ≤ 8 := removed.order ▸ orders one
          simpa [BuddyAllocator.order, same] using kept
      obtain ⟨result, answer, merged⟩ := ih raised (order_modify_setOrder _ _ _ (by omega))
        (by omega) (by omega)
      refine ⟨result, ?_, merged.list, merged.orders, ?_⟩
      · rw [coalesce_merge (index.trans found) free taken, answer]
      · obtain ⟨others, events, few, count⟩ := merged.merges
        refine ⟨others ++ [other], ?_, ?_, ?_⟩
        · rw [events, events_modify, removed.events, List.map_append, List.append_assoc]
          rfl
        · rw [List.length_append, List.length_singleton]
          omega
        · rw [List.length_append, List.length_singleton]
          omega
    · have alone : ∀ other, buddyOf idx order = some other → alloc.isFree other = false :=
        fun other found => Bool.eq_false_iff.mpr fun free => merging ⟨other, found, free⟩
      exact ⟨_, coalesce_stop (by rwa [index]), .stop orders small _⟩

theorem order_pushFreeList (orders : ∀ other, alloc.order other ≤ 8) (listed : order < numLists)
    (other : BlockIndex) : (alloc.pushFreeList order idx).order other ≤ 8 := by
  have listed : order < 9 := listed
  rw [(pushFreeList_pushed alloc order idx).order (by omega), Function.update_apply]
  split
  · exact Nat.le_of_lt_succ listed
  · exact orders other

/-- The loop of `kfree` ends after at most six merges and accesses no block and no list that
does not exist; nor does the push after it, and the orders stay in range. -/
def CoalescesInBounds (alloc : BuddyAllocator) (blockIdx : BlockIndex) : Prop :=
  ∃ (newListIdx : Nat) (idx : BlockIndex) (after : BuddyAllocator) (merged : List BlockIndex),
    alloc.coalesceU16 8 (alloc.order blockIdx) blockIdx.val = .ok (newListIdx, idx.val, after) ∧
    after.events = merged.map .removed ++ alloc.events ∧ merged.length ≤ 6 ∧
    newListIdx = alloc.order blockIdx + merged.length ∧ newListIdx < numLists ∧
    (∀ other, after.order other ≤ 8) ∧ (∀ other, (after.pushFreeList newListIdx idx).order other ≤ 8) ∧
    (alloc.isFree blockIdx = false →
      alloc.kfree (indexToAddr blockIdx) = .ok (after.pushFreeList newListIdx idx))

/-- Only the orders matter, whatever the flags, the links and the heads of the lists are. -/
theorem coalesces_in_bounds (alloc : BuddyAllocator) (orders : ∀ other, alloc.order other ≤ 8)
    (blockIdx : BlockIndex) : alloc.CoalescesInBounds blockIdx := by
  obtain ⟨⟨newListIdx, idx, after⟩, answer, coalesced⟩ :=
    coalesce_coalesced orders rfl (show 6 - alloc.order blockIdx < 8 by omega)
  obtain ⟨merged, events, few, count⟩ := coalesced.merges
  refine ⟨newListIdx, idx, after, merged, ?_, events, by omega, count, coalesced.list, coalesced.orders,
    order_pushFreeList coalesced.orders coalesced.list, fun busy => ?_⟩
  · rw [coalesceU16_eq, answer]
    rfl
  · exact AllocRun.kfree_eq rfl rfl busy answer coalesced.list

/-- A page among free ones is merged with all of them. -/
theorem coalesces_in_bounds_page : (constructed.modify 5 Block.clearFree).CoalescesInBounds 5 :=
  coalesces_in_bounds _ (by decide) 5

end BuddyAllocator

end WalnutOs.Kernel
