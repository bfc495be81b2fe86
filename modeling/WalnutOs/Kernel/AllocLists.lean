import WalnutOs.Kernel.Alloc
import WalnutOs.Lib.Chain
import Mathlib.Data.Fintype.Card

/-! What each of the list routines of the page allocator changes. -/

namespace WalnutOs.Kernel

open WalnutOs.Klib WalnutOs.Lib

namespace Block

variable (block : Block)

@[simp] theorem isFree_setFree : block.setFree.isFree = true := by
  have all : ∀ bits : BitVec 8, ((bits ||| 1#8) &&& 1#8 != 0#8) = true := by decide +kernel
  exact all block.orderAndFree

@[simp] theorem isFree_clearFree : block.clearFree.isFree = false := by
  have all : ∀ bits : BitVec 8, ((bits &&& ~~~1#8) &&& 1#8 != 0#8) = false := by decide +kernel
  exact all block.orderAndFree

@[simp] theorem isFree_setOrder (order : Nat) : (block.setOrder order).isFree = block.isFree := by
  have low : ∀ bits shifted : BitVec 8,
      (bits &&& 1#8 ||| shifted <<< 1) &&& 1#8 = bits &&& 1#8 := by
    intro bits shifted
    ext place inside
    rcases place with _ | place <;> simp
  simp only [isFree, setOrder, low]

@[simp] theorem order_clearFree : block.clearFree.order = block.order := by
  have all : ∀ bits : BitVec 8, (bits &&& ~~~1#8) >>> 1 = bits >>> 1 := by decide +kernel
  exact congrArg BitVec.toNat (all block.orderAndFree)

theorem order_setOrder {order : Nat} (small : order < 128) : (block.setOrder order).order = order := by
  have high : ∀ bits shifted : BitVec 8,
      (bits &&& 1#8 ||| shifted <<< 1) >>> 1 = shifted <<< 1 >>> 1 := by
    intro bits shifted
    ext place inside
    simp
  simp only [Block.order, setOrder, high, BitVec.toNat_ushiftRight, BitVec.toNat_shiftLeft,
    BitVec.toNat_ofNat]
  omega

section Fields

variable (link : Option BlockIndex) (number : Nat)

@[simp] theorem next_setNext : (block.setNext link).next = link := rfl
@[simp] theorem next_setPrev : (block.setPrev link).next = block.next := rfl
@[simp] theorem next_setFree : block.setFree.next = block.next := rfl
@[simp] theorem next_clearFree : block.clearFree.next = block.next := rfl
@[simp] theorem next_setOrder : (block.setOrder number).next = block.next := rfl
@[simp] theorem prev_setNext : (block.setNext link).prev = block.prev := rfl
@[simp] theorem prev_setPrev : (block.setPrev link).prev = link := rfl
@[simp] theorem prev_setFree : block.setFree.prev = block.prev := rfl
@[simp] theorem prev_clearFree : block.clearFree.prev = block.prev := rfl
@[simp] theorem prev_setOrder : (block.setOrder number).prev = block.prev := rfl
@[simp] theorem isFree_setNext : (block.setNext link).isFree = block.isFree := rfl
@[simp] theorem isFree_setPrev : (block.setPrev link).isFree = block.isFree := rfl
@[simp] theorem order_setNext : (block.setNext link).order = block.order := rfl
@[simp] theorem order_setPrev : (block.setPrev link).order = block.order := rfl

end Fields

end Block

namespace BuddyAllocator

def next (alloc : BuddyAllocator) (idx : BlockIndex) : Option BlockIndex := (alloc.blocks idx).next
def prev (alloc : BuddyAllocator) (idx : BlockIndex) : Option BlockIndex := (alloc.blocks idx).prev
def isFree (alloc : BuddyAllocator) (idx : BlockIndex) : Bool := (alloc.blocks idx).isFree
def order (alloc : BuddyAllocator) (idx : BlockIndex) : Nat := (alloc.blocks idx).order

section Fields

variable (alloc : BuddyAllocator) (idx : Nat) (blockIdx other : BlockIndex) (event : ListEvent)
variable (head : Option BlockIndex) (change : Block → Block)

@[simp] theorem blocks_modify : (alloc.modify blockIdx change).blocks other =
    if other = blockIdx then change (alloc.blocks other) else alloc.blocks other := by
  by_cases same : other = blockIdx
  · subst same
    simp [modify]
  · simp [modify, same]

@[simp] theorem freeLists_modify : (alloc.modify blockIdx change).freeLists = alloc.freeLists := rfl

@[simp] theorem events_modify : (alloc.modify blockIdx change).events = alloc.events := rfl

@[simp] theorem blocks_setHead : (alloc.setHead idx head).blocks = alloc.blocks := rfl

@[simp] theorem freeLists_setHead :
    (alloc.setHead idx head).freeLists = Function.update alloc.freeLists idx head := rfl

@[simp] theorem events_setHead : (alloc.setHead idx head).events = alloc.events := rfl

@[simp] theorem blocks_record : (alloc.record event).blocks = alloc.blocks := rfl

@[simp] theorem freeLists_record : (alloc.record event).freeLists = alloc.freeLists := rfl

@[simp] theorem events_record : (alloc.record event).events = event :: alloc.events := rfl

@[simp] theorem blocks_passHead (block : Block) :
    (alloc.passHead blockIdx block).blocks = alloc.blocks := by
  unfold passHead
  split <;> rfl

@[simp] theorem events_passHead (block : Block) :
    (alloc.passHead blockIdx block).events = alloc.events := by
  unfold passHead
  split <;> rfl

theorem freeLists_passHead (block : Block) : (alloc.passHead blockIdx block).freeLists idx =
    if idx = block.order ∧ alloc.freeLists idx = some blockIdx then block.next
    else alloc.freeLists idx := by
  unfold passHead
  by_cases here : idx = block.order
  · subst here
    by_cases head : alloc.freeLists block.order = some blockIdx <;> simp [head]
  · split <;> simp [here]

end Fields

variable {alloc after : BuddyAllocator} {idx : Nat} {blockIdx headIdx : BlockIndex}

theorem popFreeList_none (empty : alloc.freeLists idx = none) :
    alloc.popFreeList idx = (none, alloc) := by
  simp only [popFreeList, empty]

/-- What `pop_free_list` leaves when it takes the block `headIdx`. -/
structure Popped (alloc after : BuddyAllocator) (idx : Nat) (headIdx : BlockIndex) : Prop where
  freeLists : after.freeLists = Function.update alloc.freeLists idx (alloc.next headIdx)
  next : ∀ other, after.next other =
    if other = headIdx ∨ alloc.next headIdx = some other then none else alloc.next other
  prev : ∀ other, after.prev other = if other = headIdx then none else alloc.prev other
  isFree : ∀ other, after.isFree other = if other = headIdx then false else alloc.isFree other
  order : ∀ other, other ≠ headIdx → after.order other = alloc.order other
  own : idx < 128 → after.order headIdx = idx
  events : after.events = .popped headIdx :: alloc.events

theorem popFreeList_some (head : alloc.freeLists idx = some headIdx) :
    ∃ after, alloc.popFreeList idx = (some headIdx, after) ∧ Popped alloc after idx headIdx := by
  simp only [popFreeList, head]
  refine ⟨_, rfl, ?_⟩
  cases link : (alloc.blocks headIdx).next with
  | none =>
    constructor
    · simp [next, link]
    · intro other
      by_cases same : other = headIdx <;> simp [next, link, same]
    · intro other
      by_cases same : other = headIdx <;> simp [prev, same]
    · intro other
      by_cases same : other = headIdx <;> simp [isFree, same]
    · intro other apart
      simp [order, apart]
    · intro small
      simp [order, Block.order_setOrder, small]
    · simp
  | some nextIdx =>
    constructor
    · simp [next, link]
    · intro other
      by_cases linked : nextIdx = other
      · subst linked
        by_cases same : nextIdx = headIdx <;> simp [next, link, same]
      · by_cases same : other = headIdx <;> simp [next, link, same, linked, Ne.symm linked]
    · intro other
      by_cases linked : nextIdx = other
      · subst linked
        by_cases same : nextIdx = headIdx <;> simp [prev, same]
      · by_cases same : other = headIdx <;> simp [prev, same, Ne.symm linked]
    · intro other
      by_cases linked : nextIdx = other
      · subst linked
        by_cases same : nextIdx = headIdx <;> simp [isFree, same]
      · by_cases same : other = headIdx <;> simp [isFree, same, Ne.symm linked]
    · intro other apart
      by_cases linked : nextIdx = other
      · subst linked
        simp [order, apart]
      · simp [order, apart, Ne.symm linked]
    · intro small
      simp [order, Block.order_setOrder, small]
    · simp

/-- What `push_free_list` leaves; an order below 128 fits its field. -/
structure Pushed (alloc after : BuddyAllocator) (idx : Nat) (blockIdx : BlockIndex) : Prop where
  freeLists : after.freeLists = Function.update alloc.freeLists idx (some blockIdx)
  next : after.next = Function.update alloc.next blockIdx (alloc.freeLists idx)
  prev : ∀ other, after.prev other = if other = blockIdx then none
    else if alloc.freeLists idx = some other then some blockIdx else alloc.prev other
  isFree : after.isFree = Function.update alloc.isFree blockIdx true
  order : idx < 128 → after.order = Function.update alloc.order blockIdx idx
  events : after.events = .pushed idx blockIdx :: alloc.events

theorem pushFreeList_pushed (alloc : BuddyAllocator) (idx : Nat) (blockIdx : BlockIndex) :
    Pushed alloc (alloc.pushFreeList idx blockIdx) idx blockIdx := by
  cases head : alloc.freeLists idx with
  | none =>
    constructor
    · simp [pushFreeList, head]
    · funext other
      by_cases same : other = blockIdx <;> simp [pushFreeList, head, next, same]
    · intro other
      by_cases same : other = blockIdx <;> simp [pushFreeList, head, prev, same]
    · funext other
      by_cases same : other = blockIdx <;> simp [pushFreeList, head, isFree, same]
    · intro small
      funext other
      by_cases same : other = blockIdx <;>
        simp [pushFreeList, head, order, same, Block.order_setOrder, small]
    · simp [pushFreeList, head]
  | some headIdx =>
    constructor
    · simp [pushFreeList, head]
    · funext other
      by_cases same : other = blockIdx
      · simp [pushFreeList, head, next, same]
      · by_cases first : other = headIdx
        · subst first
          simp [pushFreeList, head, next, same]
        · simp [pushFreeList, head, next, same, first]
    · intro other
      by_cases same : other = blockIdx
      · simp [pushFreeList, head, prev, same]
      · by_cases first : other = headIdx
        · subst first
          simp [pushFreeList, head, prev, same]
        · simp [pushFreeList, head, prev, same, first, Ne.symm first]
    · funext other
      by_cases same : other = blockIdx
      · subst same
        by_cases first : other = headIdx <;> simp [pushFreeList, head, isFree, first]
      · by_cases first : other = headIdx
        · subst first
          simp [pushFreeList, head, isFree, same]
        · simp [pushFreeList, head, isFree, same, first]
    · intro small
      funext other
      by_cases same : other = blockIdx
      · subst same
        by_cases first : other = headIdx <;>
          simp [pushFreeList, head, order, first, Block.order_setOrder, small]
      · by_cases first : other = headIdx
        · subst first
          simp [pushFreeList, head, order, same]
        · simp [pushFreeList, head, order, same, first]
    · simp [pushFreeList, head]

/-- Pushing a block that is on no list puts it in front of one. -/
theorem Pushed.chain {lists : Nat → List BlockIndex} (pushed : Pushed alloc after idx blockIdx)
    (chain : ∀ i, IsChain alloc.next (alloc.freeLists i) (lists i))
    (unlisted : ∀ i, blockIdx ∉ lists i) (i : Nat) :
    IsChain after.next (after.freeLists i) (Function.update lists idx (blockIdx :: lists idx) i) := by
  have frame : IsChain after.next (alloc.freeLists i) (lists i) := by
    refine (chain i).frame fun other member => ?_
    have apart : other ≠ blockIdx := fun same => unlisted i (same ▸ member)
    rw [pushed.next, Function.update_of_ne apart]
  rw [pushed.freeLists]
  by_cases here : i = idx
  · subst here
    simp only [Function.update_self]
    refine ⟨rfl, ?_⟩
    rw [pushed.next, Function.update_self, ← pushed.next]
    exact frame
  · simpa only [Function.update_of_ne here] using frame

/-- What `remove_from_list` leaves: only the predecessor and the head are relinked. -/
structure Removed (alloc after : BuddyAllocator) (blockIdx : BlockIndex) : Prop where
  freeLists : ∀ idx, after.freeLists idx =
    if idx = alloc.order blockIdx ∧ alloc.freeLists idx = some blockIdx then alloc.next blockIdx
    else alloc.freeLists idx
  next : ∀ other, after.next other =
    if alloc.prev blockIdx = some other then alloc.next blockIdx else alloc.next other
  prev : after.prev = alloc.prev
  isFree : after.isFree = alloc.isFree
  order : after.order = alloc.order
  events : after.events = .removed blockIdx :: alloc.events

theorem removeFromList_removed (small : alloc.order blockIdx < numLists) :
    ∃ after, alloc.removeFromList blockIdx = .ok after ∧ Removed alloc after blockIdx := by
  have bound : (alloc.blocks blockIdx).order < numLists := small
  simp only [removeFromList, if_pos bound]
  refine ⟨_, rfl, ?_⟩
  cases back : (alloc.blocks blockIdx).prev with
  | none =>
    constructor
    · exact fun idx => freeLists_passHead alloc idx blockIdx _
    · intro other
      simp [next, prev, back]
    all_goals
      simp [funext_iff, prev, isFree, order]
  | some prevIdx =>
    constructor
    · exact fun idx => freeLists_passHead (alloc.modify prevIdx _) idx blockIdx _
    · intro other
      by_cases linked : other = prevIdx
      · simp [next, prev, back, linked]
      · simp [next, prev, back, linked, Ne.symm linked]
    · funext other
      by_cases linked : other = prevIdx <;> simp [prev, linked]
    · funext other
      by_cases linked : other = prevIdx <;> simp [isFree, linked]
    · funext other
      by_cases linked : other = prevIdx <;> simp [order, linked]
    · simp

end BuddyAllocator

end WalnutOs.Kernel
