import WalnutOs.Klib.Drive
import WalnutOs.Lib.Bits
import Mathlib.Algebra.Group.Nat.Defs
import Mathlib.Data.Fin.Basic
import Mathlib.Data.List.Range

/-! The page allocator, `kernel/alloc.cc`: 64 pages, nine doubly linked free
lists, and for each page a record with its order and a free flag. Orders stay
below 7, so that no shift of the source overflows. -/

namespace WalnutOs.Kernel

open WalnutOs.Klib WalnutOs.Lib

abbrev BlockIndex := Fin 64

def blockOffset : Nat := 0x20000
def numBlocks : Nat := 64
def numLists : Nat := 9
def smallestBlockSize : Nat := 12

structure Block where
  next : Option BlockIndex
  prev : Option BlockIndex
  orderAndFree : BitVec 8

namespace Block

def setNext (block : Block) (next : Option BlockIndex) : Block := { block with next }

def setPrev (block : Block) (prev : Option BlockIndex) : Block := { block with prev }

def isFree (block : Block) : Bool := (block.orderAndFree &&& 1#8) != 0#8

def setFree (block : Block) : Block := { block with orderAndFree := block.orderAndFree ||| 1#8 }

def clearFree (block : Block) : Block := { block with orderAndFree := block.orderAndFree &&& ~~~1#8 }

def order (block : Block) : Nat := (block.orderAndFree >>> 1).toNat

def setOrder (block : Block) (order : Nat) : Block :=
  { block with orderAndFree := (block.orderAndFree &&& 1#8) ||| (BitVec.ofNat 8 order) <<< 1 }

end Block

/-- What the list routines did to a block. -/
inductive ListEvent where
  | pushed (list : Nat) (block : BlockIndex)
  | popped (block : BlockIndex)
  | removed (block : BlockIndex)
  deriving DecidableEq

/-- `events` is a history variable, the latest event first; nothing reads it. -/
structure BuddyAllocator where
  freeLists : Nat → Option BlockIndex
  blocks : BlockIndex → Block
  events : List ListEvent

def indexToAddr (idx : BlockIndex) : Nat := idx.val * 0x1000 + blockOffset

/-- `none` is `NULL_BLOCK`. The difference is taken in 32 bits. -/
def addrToIndex (addr : Nat) : Option BlockIndex :=
  let index := (addr + (2 ^ 32 - blockOffset)) % 2 ^ 32 / 0x1000
  if inside : index < numBlocks then some ⟨index, inside⟩ else none

/-- The buddy of a block of this order, `none` outside the 64 pages. -/
def buddyOf (idx : BlockIndex) (order : Nat) : Option BlockIndex :=
  let blockAddress := idx.val * 0x1000
  if blockAddress % 2 ^ (order + smallestBlockSize + 1) = 0 then
    addrToIndex (blockAddress + 2 ^ (order + smallestBlockSize) + blockOffset)
  else addrToIndex (blockAddress + (2 ^ 32 - 2 ^ (order + smallestBlockSize)) + blockOffset)

/-- `block_idx > buddy_idx ? buddy_idx : block_idx`. -/
def lower (blockIdx buddyIdx : BlockIndex) : BlockIndex :=
  if blockIdx > buddyIdx then buddyIdx else blockIdx

namespace BuddyAllocator

/-- The constructor, over zeroed storage. -/
def constructed : BuddyAllocator where
  freeLists := fun idx => if idx = 8 then some 0 else none
  blocks := fun _ => Block.setFree ⟨none, none, 0⟩
  events := []

def modify (alloc : BuddyAllocator) (idx : BlockIndex) (change : Block → Block) : BuddyAllocator :=
  { alloc with blocks := Function.update alloc.blocks idx (change (alloc.blocks idx)) }

def setHead (alloc : BuddyAllocator) (idx : Nat) (head : Option BlockIndex) : BuddyAllocator :=
  { alloc with freeLists := Function.update alloc.freeLists idx head }

def record (alloc : BuddyAllocator) (event : ListEvent) : BuddyAllocator :=
  { alloc with events := event :: alloc.events }

/-- A list that begins with this block begins with its successor instead. -/
def passHead (alloc : BuddyAllocator) (blockIdx : BlockIndex) (block : Block) : BuddyAllocator :=
  if alloc.freeLists block.order = some blockIdx then alloc.setHead block.order block.next else alloc

/-- The successor of the head that is taken loses its `next`. -/
def popFreeList (idx : Nat) (alloc : BuddyAllocator) : Option BlockIndex × BuddyAllocator :=
  match alloc.freeLists idx with
  | none => (none, alloc)
  | some headIdx =>
    let next := (alloc.blocks headIdx).next
    let alloc := alloc.setHead idx next
    let alloc := match next with
      | none => alloc
      | some nextIdx => alloc.modify nextIdx fun block => block.setNext none
    let alloc := alloc.modify headIdx fun block =>
      (((block.setNext none).setPrev none).clearFree).setOrder idx
    (some headIdx, alloc.record (.popped headIdx))

def pushFreeList (idx : Nat) (blockIdx : BlockIndex) (alloc : BuddyAllocator) : BuddyAllocator :=
  let alloc := alloc.modify blockIdx fun block => block.setFree.setOrder idx
  let alloc := match alloc.freeLists idx with
    | none => (alloc.setHead idx (some blockIdx)).modify blockIdx fun block =>
        (block.setNext none).setPrev none
    | some headIdx =>
      let alloc := alloc.modify headIdx fun head => head.setPrev (some blockIdx)
      let alloc := alloc.modify blockIdx fun block =>
        (block.setNext (some headIdx)).setPrev none
      alloc.setHead idx (some blockIdx)
  alloc.record (.pushed idx blockIdx)

/-- The successor keeps its `prev`. -/
def removeFromList (blockIdx : BlockIndex) (alloc : BuddyAllocator) : Except Fault BuddyAllocator :=
  let block := alloc.blocks blockIdx
  let alloc := match block.prev with
    | none => alloc
    | some prevIdx => alloc.modify prevIdx fun prev => prev.setNext block.next
  if block.order < numLists then .ok ((alloc.passHead blockIdx block).record (.removed blockIdx))
  else .error .outOfBounds

def buddyIndex (alloc : BuddyAllocator) (idx : BlockIndex) : Option BlockIndex :=
  buddyOf idx (alloc.blocks idx).order

/-- The loop that cuts the block at `headAddr`: `j` goes down from the order it
has to the order wanted. -/
def splitDown (listIdx headAddr : Nat) : Nat → BuddyAllocator → BuddyAllocator
  | 0, alloc => alloc
  | j + 1, alloc =>
    if j + 1 > listIdx then
      let middleAddr := headAddr + 2 ^ (j + smallestBlockSize)
      splitDown listIdx headAddr j
        (match addrToIndex middleAddr with
          | none => alloc
          | some middleIdx => alloc.pushFreeList j middleIdx)
    else alloc

/-- The loop over the lists above the one wanted. -/
def searchLists (listIdx : Nat) : List Nat → BuddyAllocator → Option Nat × BuddyAllocator
  | [], alloc => (none, alloc)
  | i :: rest, alloc =>
    match alloc.popFreeList i with
    | (none, alloc) => searchLists listIdx rest alloc
    | (some head, alloc) =>
      let alloc := splitDown listIdx (indexToAddr head) i alloc
      (some (indexToAddr head),
        alloc.modify head fun block => (block.setOrder listIdx).clearFree)

def allocate (listIdx : Nat) (alloc : BuddyAllocator) : Option Nat × BuddyAllocator :=
  match alloc.popFreeList listIdx with
  | (some head, alloc) => (some (indexToAddr head), alloc)
  | (none, alloc) =>
    searchLists listIdx (List.range' (listIdx + 1) (numLists - (listIdx + 1))) alloc

end BuddyAllocator

def roundUpPow2 (num : BitVec 32) : BitVec 32 :=
  let num := num - 1#32
  let num := num ||| num >>> 1
  let num := num ||| num >>> 2
  let num := num ||| num >>> 4
  let num := num ||| num >>> 8
  let num := num ||| num >>> 16
  num + 1#32

/-- A 32-bit number is zero after 32 shifts, so that the bound is never reached. -/
def log2Loop : Nat → BitVec 32 → BitVec 8 → BitVec 8
  | 0, _, count => count
  | bound + 1, num, count => if num = 0#32 then count else log2Loop bound (num >>> 1) (count + 1#8)

def log2 (num : BitVec 32) : BitVec 8 := log2Loop 32 num (-1#8)

/-- The list that `kalloc` computes for a request. -/
def listIndex (size : BitVec 32) : Int :=
  let smallest := 1#32 <<< smallestBlockSize
  let adjustedSize := if size < smallest then smallest else size
  (log2 (roundUpPow2 adjustedSize)).toNat - smallestBlockSize

namespace BuddyAllocator

/-- `none` is the null address. -/
def kalloc (size : BitVec 32) (alloc : BuddyAllocator) :
    Except Fault (Option Nat × BuddyAllocator) :=
  if numBlocks ≤ listIndex size then .ok (none, alloc)
  else if 0 ≤ listIndex size ∧ listIndex size < numLists then
    .ok (alloc.allocate (listIndex size).toNat)
  else .error .outOfBounds

/-- The loop that merges a block with its buddy while that is flagged free. An
order above 6 has no buddy, so that the bound is never reached. -/
def coalesce : Nat → Nat → BlockIndex → BuddyAllocator →
    Except Fault (Nat × BlockIndex × BuddyAllocator)
  | 0, _, _, _ => .error .diverges
  | bound + 1, newListIdx, blockIdx, alloc =>
    match alloc.buddyIndex blockIdx with
    | none => .ok (newListIdx, blockIdx, alloc)
    | some buddyIdx =>
      if (alloc.blocks buddyIdx).isFree then
        match alloc.removeFromList buddyIdx with
        | .error fault => .error fault
        | .ok alloc =>
          coalesce bound (newListIdx + 1) (lower blockIdx buddyIdx)
            (alloc.modify (lower blockIdx buddyIdx) fun block => block.setOrder (newListIdx + 1))
      else .ok (newListIdx, blockIdx, alloc)

def kfree (ptr : Nat) (alloc : BuddyAllocator) : Except Fault BuddyAllocator :=
  if ptr % 2 ^ smallestBlockSize = 0 ∧ ptr ≥ blockOffset then
    match addrToIndex ptr with
    | none => .error .outOfBounds
    | some blockIdx =>
      if (alloc.blocks blockIdx).isFree then
        .error (.assertion "Attempted to free an already-freed block")
      else
        match alloc.coalesce 8 (alloc.blocks blockIdx).order blockIdx with
        | .error fault => .error fault
        | .ok (newListIdx, blockIdx, alloc) =>
          if newListIdx < numLists then .ok (alloc.pushFreeList newListIdx blockIdx)
          else .error .outOfBounds
  else .error (.assertion "Attempted to free a wild pointer")

end BuddyAllocator

end WalnutOs.Kernel
