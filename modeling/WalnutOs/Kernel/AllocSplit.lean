import WalnutOs.Kernel.AllocLoops

/-! A request that no smaller block serves cuts a block into parts that partition
its pages, whatever the rest of the allocator is like. -/

namespace WalnutOs.Kernel

open WalnutOs.Klib WalnutOs.Lib

namespace BuddyAllocator

variable {alloc after between : BuddyAllocator} {head block : BlockIndex} {listIdx i j k : Nat}

/-- The block is the only one on the list of its order. -/
structure OnlyFree (alloc : BuddyAllocator) (order : Nat) (block : BlockIndex) : Prop where
  list : alloc.freeLists order = some block
  next : alloc.next block = none
  prev : alloc.prev block = none
  free : alloc.isFree block = true
  order : alloc.order block = order

/-- What cutting `head` from order `i` down to `listIdx` leaves, if the lists between were
empty: the upper halves are alone on their lists, and nothing else changed. -/
structure Halved (alloc after : BuddyAllocator) (head : BlockIndex) (listIdx i : Nat) : Prop where
  half : ∀ j, listIdx ≤ j → j < i → ∀ block : BlockIndex, block.val = head.val + 2 ^ j →
    OnlyFree after j block
  freeLists : ∀ j, j < listIdx ∨ i ≤ j → after.freeLists j = alloc.freeLists j
  frame : ∀ block : BlockIndex, (∀ j, listIdx ≤ j → j < i → block.val ≠ head.val + 2 ^ j) →
    after.next block = alloc.next block ∧ after.prev block = alloc.prev block ∧
      after.isFree block = alloc.isFree block ∧ after.order block = alloc.order block

theorem Pushed.onlyFree (pushed : Pushed alloc after j block) (empty : alloc.freeLists j = none)
    (small : j < 128) : OnlyFree after j block where
  list := by rw [pushed.freeLists, Function.update_self]
  next := by rw [pushed.next, Function.update_self, empty]
  prev := by rw [pushed.prev, if_pos rfl]
  free := by rw [pushed.isFree, Function.update_self]
  order := by rw [pushed.order small, Function.update_self]

/-- A push on an empty list changes no other block. -/
theorem Pushed.frame (pushed : Pushed alloc after j block) (empty : alloc.freeLists j = none)
    (small : j < 128) {other : BlockIndex} (apart : other ≠ block) :
    after.next other = alloc.next other ∧ after.prev other = alloc.prev other ∧
      after.isFree other = alloc.isFree other ∧ after.order other = alloc.order other := by
  refine ⟨?_, ?_, ?_, ?_⟩
  · rw [pushed.next, Function.update_of_ne apart]
  · rw [pushed.prev, if_neg apart, empty, if_neg nofun]
  · rw [pushed.isFree, Function.update_of_ne apart]
  · rw [pushed.order small, Function.update_of_ne apart]

/-- The first push of the loop, and then what the rest of it does. -/
theorem Halved.push (pushed : Pushed alloc between j block) (value : block.val = head.val + 2 ^ j)
    (empty : alloc.freeLists j = none) (small : j < 128) (above : listIdx ≤ j)
    (rest : Halved between after head listIdx j) : Halved alloc after head listIdx (j + 1) := by
  have outside : ∀ l, listIdx ≤ l → l < j → block.val ≠ head.val + 2 ^ l := by
    intro l _ below same
    have smaller := Nat.pow_lt_pow_right Nat.one_lt_two below
    omega
  obtain ⟨next, prev, free, order⟩ := rest.frame block outside
  have only := pushed.onlyFree empty small
  refine ⟨fun l low high other place => ?_, fun l outer => ?_, fun other missing => ?_⟩
  · rcases Nat.lt_or_eq_of_le (Nat.le_of_lt_succ high) with below | rfl
    · exact rest.half l low below other place
    · obtain rfl : other = block := Fin.ext (place.trans value.symm)
      exact ⟨(rest.freeLists l (.inr (Nat.le_refl l))).trans only.list, next.trans only.next,
        prev.trans only.prev, free.trans only.free, order.trans only.order⟩
  · rw [rest.freeLists l (by omega), pushed.freeLists, Function.update_of_ne (by omega)]
  · have apart : other ≠ block := by
      rintro rfl
      exact missing j above (Nat.lt_succ_self j) value
    obtain ⟨next', prev', free', order'⟩ :=
      rest.frame other fun l low high => missing l low (Nat.lt_succ_of_lt high)
    obtain ⟨next'', prev'', free'', order''⟩ := pushed.frame empty small apart
    exact ⟨next'.trans next'', prev'.trans prev'', free'.trans free'', order'.trans order''⟩

theorem splitDown_halved (alloc : BuddyAllocator) (listIdx : Nat) (head : BlockIndex)
    (low : listIdx ≤ i) (small : i ≤ 6) (inside : head.val + 2 ^ i ≤ 64)
    (empty : ∀ j, listIdx ≤ j → j < i → alloc.freeLists j = none) :
    Halved alloc (alloc.splitDown listIdx (indexToAddr head) i) head listIdx i := by
  induction i generalizing alloc with
  | zero =>
    exact ⟨fun _ _ above => absurd above (Nat.not_lt_zero _), fun _ _ => rfl,
      fun _ _ => ⟨rfl, rfl, rfl, rfl⟩⟩
  | succ i ih =>
    rcases Nat.lt_or_eq_of_le low with more | rfl
    · have positive := Nat.two_pow_pos i
      rw [Nat.pow_succ] at inside
      have within : head.val + 2 ^ i < 64 := by omega
      have pushed := pushFreeList_pushed alloc i ⟨head.val + 2 ^ i, within⟩
      have bottom := empty i (Nat.le_of_lt_succ more) (Nat.lt_succ_self i)
      rw [splitDown_of_lt more (by omega), dif_pos within]
      refine .push pushed rfl bottom (by omega) (Nat.le_of_lt_succ more)
        (ih _ (Nat.le_of_lt_succ more) (by omega) (by omega) fun j above below => ?_)
      rw [pushed.freeLists, Function.update_of_ne (by omega)]
      exact empty j above (by omega)
    · rw [splitDown_of_eq rfl]
      exact ⟨fun _ above below => absurd below (by omega), fun _ _ => rfl,
        fun _ _ => ⟨rfl, rfl, rfl, rfl⟩⟩

/-- The page lies in the block, which has the size of its order. -/
def covers (alloc : BuddyAllocator) (page : Nat) (block : BlockIndex) : Bool :=
  block.val ≤ page ∧ page < block.val + 2 ^ alloc.order block

/-- The block and the heads of the lists from `listIdx` up to `i`. -/
def parts (alloc : BuddyAllocator) (block : BlockIndex) (listIdx i : Nat) : List BlockIndex :=
  block :: (List.range' listIdx (i - listIdx)).filterMap alloc.freeLists

/-- The upper halves of a block of order `i`, each alone on its list. -/
def Halves (alloc : BuddyAllocator) (head : BlockIndex) (listIdx i : Nat) : Prop :=
  ∀ j, listIdx ≤ j → j < i → ∃ part : BlockIndex, part.val = head.val + 2 ^ j ∧ OnlyFree alloc j part

/-- The block of order `i` is now an allocated block of order `listIdx`, and the rest of it
is free, one block on each list between: each page of it is in exactly one part, and no
other page is in any. -/
structure CutInto (alloc after : BuddyAllocator) (block : BlockIndex) (listIdx i : Nat) : Prop where
  busy : after.isFree block = false
  order : after.order block = listIdx
  halves : Halves after block listIdx i
  partition : ∀ page : Nat, (after.parts block listIdx i).countP (after.covers page) =
    if block.val ≤ page ∧ page < block.val + 2 ^ i then 1 else 0
  aligned : ∀ part ∈ after.parts block listIdx i, 2 ^ after.order part ∣ part.val
  above : ∀ j, i < j → after.freeLists j = alloc.freeLists j

theorem parts_succ (low : listIdx ≤ i) {part : BlockIndex} (found : alloc.freeLists i = some part) :
    alloc.parts head listIdx (i + 1) = alloc.parts head listIdx i ++ [part] := by
  have last : listIdx + (i - listIdx) = i := Nat.add_sub_cancel' low
  rw [parts, parts, Nat.succ_sub low, List.range'_1_concat, last, List.filterMap_append]
  simp [found]

theorem parts_self : alloc.parts head listIdx listIdx = [head] := by
  simp [parts]

/-- Each half doubles the pages that are covered once. -/
theorem Halves.countP_parts (halves : Halves alloc head listIdx i) (own : alloc.order head = listIdx)
    (low : listIdx ≤ i) (page : Nat) :
    (alloc.parts head listIdx i).countP (alloc.covers page) =
      if head.val ≤ page ∧ page < head.val + 2 ^ i then 1 else 0 := by
  induction i, low using Nat.le_induction with
  | base =>
    rw [parts_self]
    simp [List.countP_cons, covers, own]
  | succ i low ih =>
    obtain ⟨part, value, only⟩ := halves i low (Nat.lt_succ_self i)
    rw [parts_succ low only.list, List.countP_append,
      ih fun j above below => halves j above (Nat.lt_succ_of_lt below)]
    have positive := Nat.two_pow_pos i
    have doubled : head.val + 2 ^ (i + 1) = head.val + 2 ^ i + 2 ^ i := by
      rw [Nat.pow_succ]
      omega
    simp only [List.countP_cons, List.countP_nil, covers, only.order, value, decide_eq_true_eq, doubled]
    split <;> split <;> split <;> omega

theorem Halves.aligned_parts (halves : Halves alloc head listIdx i) (own : alloc.order head = listIdx)
    (low : listIdx ≤ i) (aligned : 2 ^ i ∣ head.val) :
    ∀ part ∈ alloc.parts head listIdx i, 2 ^ alloc.order part ∣ part.val := by
  intro part member
  rcases List.mem_cons.mp member with rfl | listed
  · rw [own]
    exact (Nat.pow_dvd_pow 2 low).trans aligned
  · obtain ⟨j, inside, found⟩ := List.mem_filterMap.mp listed
    have range := List.mem_range'_1.mp inside
    obtain ⟨half, value, only⟩ := halves j range.1 (by omega)
    cases Option.some.inj (found.symm.trans only.list)
    rw [only.order, value]
    exact Nat.dvd_add ((Nat.pow_dvd_pow 2 (by omega)).trans aligned) (Nat.dvd_refl _)

/-- The loop cuts the block that was taken, and the block itself is the part that is left. -/
theorem Popped.cutInto (popped : Popped alloc after i head) (above : listIdx < i) (small : i ≤ 6)
    (aligned : 2 ^ i ∣ head.val) (inside : head.val + 2 ^ i ≤ 64)
    (empty : ∀ j, listIdx ≤ j → j < i → alloc.freeLists j = none) :
    CutInto alloc ((after.splitDown listIdx (indexToAddr head) i).modify head fun block =>
      (block.setOrder listIdx).clearFree) head listIdx i := by
  have halved := splitDown_halved after listIdx head (Nat.le_of_lt above) small inside
    fun j low high => by
      rw [popped.freeLists, Function.update_of_ne (Nat.ne_of_lt high)]
      exact empty j low high
  generalize after.splitDown listIdx (indexToAddr head) i = cut at halved ⊢
  have own : (cut.modify head fun block => (block.setOrder listIdx).clearFree).order head = listIdx := by
    have fits : listIdx < 128 := by omega
    simp [BuddyAllocator.order, Block.order_setOrder, fits]
  have halves : Halves (cut.modify head fun block => (block.setOrder listIdx).clearFree) head listIdx i := by
    intro j low high
    have positive := Nat.two_pow_pos j
    have smaller : 2 ^ j < 2 ^ i := Nat.pow_lt_pow_right Nat.one_lt_two high
    obtain ⟨list, next, prev, free, order⟩ := halved.half j low high ⟨head.val + 2 ^ j, by omega⟩ rfl
    refine ⟨⟨head.val + 2 ^ j, by omega⟩, rfl, ?_⟩
    have apart : (⟨head.val + 2 ^ j, by omega⟩ : BlockIndex) ≠ head := fun same => by
      have values := congrArg Fin.val same
      simp only at values
      omega
    constructor <;> simpa [BuddyAllocator.next, BuddyAllocator.prev, BuddyAllocator.isFree,
      BuddyAllocator.order, apart]
  refine ⟨?_, own, halves, halves.countP_parts own (Nat.le_of_lt above),
    halves.aligned_parts own (Nat.le_of_lt above) aligned, fun j over' => ?_⟩
  · simp [BuddyAllocator.isFree]
  · rw [freeLists_modify, halved.freeLists j (.inr (Nat.le_of_lt over')), popped.freeLists,
      Function.update_of_ne (Nat.ne_of_gt over')]

theorem kalloc_of_index {size : BitVec 32} (index : listIndex size = listIdx) (small : listIdx < numLists) :
    alloc.kalloc size = .ok (alloc.allocate listIdx) := by
  have few : numLists = 9 := rfl
  have blocks : numBlocks = 64 := rfl
  rw [kalloc, if_neg (by rw [index]; omega), if_pos (by rw [index]; omega), index, Int.toNat_natCast]

/-- A request for order `listIdx` takes a block of order `i` from the first list that is not
empty and cuts it into parts that partition it; where all lists are empty it gets null and
changes nothing. -/
theorem kalloc_splits (alloc : BuddyAllocator) (size : BitVec 32) {listIdx : Nat}
    (index : listIndex size = listIdx) :
    (∀ (i : Nat) (head : BlockIndex), listIdx < i → i ≤ 6 →
      (∀ j, listIdx ≤ j → j < i → alloc.freeLists j = none) → alloc.freeLists i = some head →
      2 ^ i ∣ head.val → head.val + 2 ^ i ≤ 64 →
      ∃ after, alloc.kalloc size = .ok (some (indexToAddr head), after) ∧
        CutInto alloc after head listIdx i) ∧
    (listIdx ≤ 8 → (∀ j, listIdx ≤ j → j ≤ 8 → alloc.freeLists j = none) →
      alloc.kalloc size = .ok (none, alloc)) := by
  constructor
  · intro i head above small empty found aligned inside
    have bound : listIdx < numLists := by simp only [numLists]; omega
    rw [kalloc_of_index index bound]
    have served := allocate_served alloc bound
    generalize alloc.allocate listIdx = result at served ⊢
    cases served with
    | none nothing =>
      rw [nothing i (Nat.le_of_lt above) (by simp only [numLists]; omega)] at found
      cases found
    | whole first _ =>
      rw [empty listIdx (Nat.le_refl _) above] at first
      cases first
    | @cut i' head' after above' _ empty' found' popped =>
      obtain rfl : i' = i := by
        rcases Nat.lt_trichotomy i' i with less | same | more
        · rw [empty i' (Nat.le_of_lt above') less] at found'
          cases found'
        · exact same
        · rw [empty' i (Nat.le_of_lt above) more] at found
          cases found
      cases Option.some.inj (found.symm.trans found')
      exact ⟨_, rfl, popped.cutInto above small aligned inside empty⟩
  · intro small empty
    have bound : listIdx < numLists := by simp only [numLists]; omega
    rw [kalloc_of_index index bound]
    have served := allocate_served alloc bound
    generalize alloc.allocate listIdx = result at served ⊢
    cases served with
    | none _ => rfl
    | whole first _ =>
      rw [empty listIdx (Nat.le_refl _) small] at first
      cases first
    | cut above inside _ found _ =>
      rw [empty _ (Nat.le_of_lt above) (by simp only [numLists] at inside; omega)] at found
      cases found

/-- One block of eight pages is free, from page 8 on. -/
def eightPages : BuddyAllocator :=
  ⟨fun idx => if idx = 3 then some ⟨8, by decide⟩ else none, fun _ => ⟨none, none, 0⟩, []⟩

/-- One page is cut from the eight, and eight pages are not there for a request of sixteen. -/
theorem kalloc_splits_eight :
    (∃ after, eightPages.kalloc 1 = .ok (some (indexToAddr 8), after) ∧ CutInto eightPages after 8 0 3) ∧
      eightPages.kalloc 65536 = .ok (none, eightPages) :=
  ⟨(kalloc_splits eightPages 1 (by decide +kernel)).1 3 8 (by decide) (by decide)
      (fun j _ below => if_neg (Nat.ne_of_lt below)) rfl (by decide) (by decide),
    (kalloc_splits eightPages 65536 (by decide +kernel : _ = ((4 : Nat) : Int))).2 (by decide)
      fun j above _ => if_neg (by omega)⟩

end BuddyAllocator

end WalnutOs.Kernel
