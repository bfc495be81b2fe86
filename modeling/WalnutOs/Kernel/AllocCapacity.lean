import WalnutOs.Kernel.AllocRegion
import WalnutOs.Kernel.AllocSplit
import WalnutOs.Lib.TwoPowers

/-! Until something is freed, the page allocator is a counter of free bytes: its lists, with one block
each at most, are the binary digits of what is left. -/

namespace WalnutOs.Kernel

open WalnutOs.Klib WalnutOs.Lib

/-- The block that a request takes: a power of two of bytes, and at least a page. -/
def blockBytes (size : BitVec 32) : Nat := max (2 ^ Nat.clog 2 size.toNat) 4096

/-- Which requests a counter of free bytes serves, when nothing is given back. -/
def servings : Nat → List (BitVec 32) → List Bool
  | _, [] => []
  | free, size :: rest =>
    if blockBytes size ≤ free then true :: servings (free - blockBytes size) rest
    else false :: servings free rest

theorem Block.next_handOut (block : Block) (listIdx : Nat) :
    ((block.setOrder listIdx).clearFree).next = block.next := rfl

namespace BuddyAllocator

/-- Requests one after the other, and what each is answered. -/
def kallocs : List (BitVec 32) → BuddyAllocator → Except Fault (List (Option Nat) × BuddyAllocator)
  | [], alloc => .ok ([], alloc)
  | size :: rest, alloc => do
    let (answer, alloc) ← alloc.kalloc size
    let (answers, alloc) ← alloc.kallocs rest
    return (answer :: answers, alloc)

/-- Every list has at most one block, which lies inside the region. -/
structure Single (alloc : BuddyAllocator) : Prop where
  alone : ∀ {i idx}, alloc.freeLists i = some idx → alloc.next idx = none
  fits : ∀ {i idx}, alloc.freeLists i = some idx → idx.val + 2 ^ i ≤ 64

/-- The lists that are not empty, of those that blocks of up to 64 pages are on. -/
def nonempty (alloc : BuddyAllocator) : Finset Nat :=
  (Finset.range 7).filter fun i => (alloc.freeLists i).isSome

/-- As many pages are free. The constructor's block is on a list for more than there are. -/
def Available (alloc : BuddyAllocator) (pages : Nat) : Prop :=
  alloc = constructed ∧ pages = 64 ∨ alloc.Single ∧ twoPowers alloc.nonempty = pages

variable {alloc after : BuddyAllocator} {idx : BlockIndex} {i listIdx pages : Nat}

theorem Single.le_six (single : alloc.Single) (head : alloc.freeLists i = some idx) : i ≤ 6 := by
  have bound : 2 ^ i ≤ 2 ^ 6 := (Nat.le_add_left _ _).trans (single.fits head)
  exact (Nat.pow_le_pow_iff_right Nat.one_lt_two).mp bound

theorem mem_nonempty : i ∈ alloc.nonempty ↔ i ≤ 6 ∧ (alloc.freeLists i).isSome := by
  rw [nonempty, Finset.mem_filter, Finset.mem_range, Nat.lt_succ_iff]

theorem Single.mem (single : alloc.Single) (head : alloc.freeLists i = some idx) : i ∈ alloc.nonempty :=
  mem_nonempty.mpr ⟨single.le_six head, Option.isSome_iff_exists.mpr ⟨idx, head⟩⟩

theorem not_mem_nonempty (empty : alloc.freeLists i = none) : i ∉ alloc.nonempty := by
  intro member
  have filled := (mem_nonempty.mp member).2
  rw [empty] at filled
  cases filled

theorem Single.of_empty (empty : ∀ i, alloc.freeLists i = none) : alloc.Single := by
  refine ⟨fun {i idx} found => ?_, fun {i idx} found => ?_⟩
  · cases (empty i).symm.trans found
  · cases (empty i).symm.trans found

/-- The list that a block is taken from is empty then. -/
theorem Single.pop (single : alloc.Single) (head : alloc.freeLists i = some idx)
    (popped : Popped alloc after i idx) :
    after.freeLists i = none ∧ after.Single ∧ after.nonempty = alloc.nonempty.erase i := by
  have lists : after.freeLists = Function.update alloc.freeLists i none := by
    rw [popped.freeLists, single.alone head]
  have kept : ∀ {j other}, after.freeLists j = some other → j ≠ i ∧ alloc.freeLists j = some other := by
    intro j other found
    rw [lists] at found
    by_cases same : j = i
    · subst same
      rw [Function.update_self] at found
      cases found
    · rw [Function.update_of_ne same] at found
      exact ⟨same, found⟩
  refine ⟨by rw [lists, Function.update_self], ⟨fun {j other} found => ?_, fun found => ?_⟩, ?_⟩
  · rw [popped.next]
    split
    · rfl
    · exact single.alone (kept found).2
  · exact single.fits (kept found).2
  · ext j
    rw [Finset.mem_erase, mem_nonempty, mem_nonempty]
    by_cases same : j = i
    · subst same
      simp [lists]
    · simp [lists, same]

/-- Cutting a block puts one half on each of the lists that were empty. -/
theorem Single.cut (single : alloc.Single) (low : listIdx ≤ i) (small : i ≤ 6)
    (inside : idx.val + 2 ^ i ≤ 64) (empty : ∀ j, listIdx ≤ j → j < i → alloc.freeLists j = none)
    {change : Block → Block} (keeps : ∀ block, (change block).next = block.next) :
    ((alloc.splitDown listIdx (indexToAddr idx) i).modify idx change).Single ∧
      ((alloc.splitDown listIdx (indexToAddr idx) i).modify idx change).nonempty =
        alloc.nonempty ∪ Finset.Ico listIdx i := by
  have halved := splitDown_halved alloc listIdx idx low small inside empty
  have next : ∀ other, ((alloc.splitDown listIdx (indexToAddr idx) i).modify idx change).next other =
      (alloc.splitDown listIdx (indexToAddr idx) i).next other := by
    intro other
    rw [BuddyAllocator.next, blocks_modify]
    split
    · exact keeps _
    · rfl
  have lists : ((alloc.splitDown listIdx (indexToAddr idx) i).modify idx change).freeLists =
      (alloc.splitDown listIdx (indexToAddr idx) i).freeLists := freeLists_modify ..
  have half : ∀ {j}, listIdx ≤ j → j < i → ∃ other : BlockIndex, other.val = idx.val + 2 ^ j ∧
      other.val + 2 ^ j ≤ 64 := by
    intro j above below
    have twice : 2 ^ j + 2 ^ j ≤ 2 ^ i := by
      rw [← Nat.two_mul, ← Nat.pow_succ']
      exact Nat.pow_le_pow_right Nat.two_pos below
    have positive := Nat.two_pow_pos j
    exact ⟨⟨idx.val + 2 ^ j, by omega⟩, rfl, by simp only; omega⟩
  refine ⟨⟨fun {j other} found => ?_, fun {j other} found => ?_⟩, ?_⟩
  · rw [next]
    by_cases split : ∃ k, listIdx ≤ k ∧ k < i ∧ other.val = idx.val + 2 ^ k
    · obtain ⟨k, above, below, place⟩ := split
      exact (halved.half k above below other place).next
    · have apart : ∀ k, listIdx ≤ k → k < i → other.val ≠ idx.val + 2 ^ k := fun k above below place =>
        split ⟨k, above, below, place⟩
      rw [(halved.frame other apart).1]
      rw [lists] at found
      by_cases between : listIdx ≤ j ∧ j < i
      · obtain ⟨block, place, -⟩ := half between.1 between.2
        rw [(halved.half j between.1 between.2 block place).list] at found
        cases found
        exact absurd place (apart j between.1 between.2)
      · rw [halved.freeLists j (by omega)] at found
        exact single.alone found
  · rw [lists] at found
    by_cases between : listIdx ≤ j ∧ j < i
    · obtain ⟨block, place, fits⟩ := half between.1 between.2
      rw [(halved.half j between.1 between.2 block place).list] at found
      cases found
      exact fits
    · rw [halved.freeLists j (by omega)] at found
      exact single.fits found
  · ext j
    rw [Finset.mem_union, Finset.mem_Ico, mem_nonempty, mem_nonempty, lists]
    by_cases between : listIdx ≤ j ∧ j < i
    · obtain ⟨block, place, -⟩ := half between.1 between.2
      simp [(halved.half j between.1 between.2 block place).list, between, show j ≤ 6 by omega]
    · simp [halved.freeLists j (by omega), between]

/-- The first block is cut from the order of all 64 pages. -/
theorem splitDown_first (alloc : BuddyAllocator) (low : listIdx ≤ 6) :
    alloc.splitDown listIdx (indexToAddr 0) 8 = alloc.splitDown listIdx (indexToAddr 0) 6 := by
  rw [splitDown_of_lt (by omega) (by omega), dif_neg (by decide), splitDown_of_lt (by omega) (by omega),
    dif_neg (by decide)]

/-- The constructor's block serves the first request. -/
theorem available_first (small : listIdx ≤ 6) {answer : Option Nat × BuddyAllocator}
    (served : Served constructed listIdx answer) :
    answer.1.isSome = true ∧ answer.2.Available (64 - 2 ^ listIdx) := by
  have eight : ∀ {i idx}, constructed.freeLists i = some idx → i = 8 ∧ idx = 0 := by
    intro i idx head
    by_cases same : i = 8
    · subst same
      cases head
      exact ⟨rfl, rfl⟩
    · cases (if_neg same).symm.trans head
  cases served with
  | none empty => cases empty 8 (by omega) (by decide)
  | whole head popped => exact absurd (eight head).1 (by omega)
  | @cut i idx after above bound empty head popped =>
    obtain ⟨rfl, rfl⟩ := eight head
    have emptied : ∀ i, after.freeLists i = none := by
      intro i
      rw [popped.freeLists]
      by_cases same : i = 8
      · subst same
        exact Function.update_self ..
      · exact (Function.update_of_ne same ..).trans (if_neg same)
    have none : after.nonempty = ∅ :=
      Finset.eq_empty_of_forall_notMem fun i => not_mem_nonempty (emptied i)
    have inside : (0 : BlockIndex).val + 2 ^ 6 ≤ 64 := by decide
    obtain ⟨single, digits⟩ := (Single.of_empty emptied).cut small (Nat.le_refl 6) inside
      (fun i _ _ => emptied i) fun block => Block.next_handOut block listIdx
    have borrowed := twoPowers_Ico small
    rw [splitDown_first after small]
    refine ⟨rfl, .inr ⟨single, ?_⟩⟩
    rw [digits, none, Finset.empty_union]
    omega

/-- The list of the block taken loses its digit, and those of the halves gain theirs. -/
theorem Single.serve (single : alloc.Single) {answer : Option Nat × BuddyAllocator}
    (served : Served alloc listIdx answer) :
    if 2 ^ listIdx ≤ twoPowers alloc.nonempty then
      answer.1.isSome = true ∧ answer.2.Available (twoPowers alloc.nonempty - 2 ^ listIdx)
    else answer = (none, alloc) := by
  cases served with
  | none empty =>
    have below : twoPowers alloc.nonempty < 2 ^ listIdx := by
      refine twoPowers_lt fun i member => Nat.lt_of_not_le fun above => ?_
      have listed : i < numLists := Nat.lt_of_le_of_lt (mem_nonempty.mp member).1 (by decide)
      exact not_mem_nonempty (empty i above listed) member
    rw [if_neg (Nat.not_le_of_lt below)]
  | whole head popped =>
    obtain ⟨-, single', erased⟩ := single.pop head popped
    have taken := twoPowers_erase (single.mem head)
    rw [if_pos (le_twoPowers (single.mem head) (Nat.le_refl _))]
    refine ⟨rfl, .inr ⟨single', ?_⟩⟩
    rw [erased]
    omega
  | @cut i idx after above bound empty head popped =>
    obtain ⟨-, single', erased⟩ := single.pop head popped
    have clear : ∀ j, listIdx ≤ j → j < i → after.freeLists j = none := by
      intro j low high
      rw [popped.freeLists, Function.update_of_ne (by omega)]
      exact empty j low high
    have borrowed := twoPowers_borrow (single.mem head) (Nat.le_of_lt above)
      fun j low high => not_mem_nonempty (empty j low high)
    obtain ⟨single'', digits⟩ := single'.cut (Nat.le_of_lt above) (single.le_six head) (single.fits head)
      clear fun block => Block.next_handOut block listIdx
    rw [if_pos (le_twoPowers (single.mem head) (Nat.le_of_lt above))]
    refine ⟨rfl, .inr ⟨single'', ?_⟩⟩
    rw [digits, erased]
    omega

/-- A request is served exactly if as many pages are free as its block has. -/
theorem Available.serve (available : alloc.Available pages) (small : listIdx ≤ 6)
    {answer : Option Nat × BuddyAllocator} (served : Served alloc listIdx answer) :
    if 2 ^ listIdx ≤ pages then answer.1.isSome = true ∧ answer.2.Available (pages - 2 ^ listIdx)
    else answer = (none, alloc) := by
  rcases available with ⟨rfl, rfl⟩ | ⟨single, rfl⟩
  · rw [if_pos (Nat.pow_le_pow_right Nat.two_pos small : 2 ^ listIdx ≤ 2 ^ 6)]
    exact available_first small served
  · exact single.serve served

theorem kallocs_cons {size : BitVec 32} {rest : List (BitVec 32)} {between : BuddyAllocator}
    {given : Option Nat} {answers : List (Option Nat)} (first : alloc.kalloc size = .ok (given, between))
    (later : between.kallocs rest = .ok (answers, after)) :
    alloc.kallocs (size :: rest) = .ok (given :: answers, after) := by
  rw [kallocs, first]
  change (between.kallocs rest >>= _) = _
  rw [later]
  rfl

/-- What a run of requests is answered is what the counter says. -/
theorem Available.kallocs (available : alloc.Available pages) {sizes : List (BitVec 32)}
    (small : ∀ size ∈ sizes, size.toNat ≤ 64 * 4096) : ∃ answers after,
      alloc.kallocs sizes = .ok (answers, after) ∧
        answers.map Option.isSome = servings (pages * 4096) sizes := by
  induction sizes generalizing alloc pages with
  | nil => exact ⟨[], alloc, rfl, rfl⟩
  | cons size rest ih =>
    have bytes := small size List.mem_cons_self
    obtain ⟨order, answer⟩ := AllocRun.kalloc_eq alloc bytes
    obtain ⟨rounded, -⟩ := rounded_listIndex bytes
    have served := available.serve order (allocate_served alloc (by unfold numLists; omega))
    have rest_small : ∀ size ∈ rest, size.toNat ≤ 64 * 4096 := fun size member =>
      small size (List.mem_cons_of_mem _ member)
    rw [servings, show blockBytes size = 2 ^ (listIndex size).toNat * 4096 from rounded]
    generalize 2 ^ (listIndex size).toNat = block at served ⊢
    split at served
    · obtain ⟨given, left⟩ := served
      obtain ⟨answers, after, later, counted⟩ := ih left rest_small
      refine ⟨(alloc.allocate (listIndex size).toNat).1 :: answers, after, kallocs_cons answer later, ?_⟩
      rw [if_pos (by omega), List.map_cons, given, counted, Nat.sub_mul]
    · obtain ⟨answers, after, later, counted⟩ := ih available rest_small
      rw [served] at answer
      refine ⟨_, after, kallocs_cons answer later, ?_⟩
      rw [if_neg (by omega), List.map_cons, counted]
      rfl

namespace Partition

variable {live : List Allocation} {tile : Nat → Option Nat} {lists : Nat → List BlockIndex}

theorem head_tiled (partition : Partition alloc live tile lists none) (head : alloc.freeLists i = some idx) :
    tile idx = some i := by
  obtain ⟨rest, nodes, -⟩ := partition.head_listed head
  exact (partition.listed (nodes ▸ List.mem_cons_self : idx ∈ lists i)).2.1

theorem eq_zero_of_six (partition : Partition alloc live tile lists none) (tiled : tile idx = some 6) :
    idx = 0 :=
  Fin.ext (Nat.eq_zero_of_dvd_of_lt (partition.tiling.within tiled).2.1 idx.isLt)

/-- If the block of all pages is listed, it is the only block. -/
theorem available_of_top (partition : Partition alloc live tile lists none)
    (top : alloc.freeLists 6 = some 0) : alloc.Available 64 := by
  have whole : ∀ {i idx}, alloc.freeLists i = some idx → i = 6 ∧ idx = 0 := by
    intro i idx head
    have here := partition.head_tiled head
    have there := partition.head_tiled top
    have zero : idx = 0 := Fin.ext (partition.tiling.eq_zero_of_top there here)
    subst zero
    exact ⟨Option.some.inj (here.symm.trans there), rfl⟩
  have last : alloc.next 0 = none := by
    obtain ⟨rest, nodes, later, absent⟩ := partition.head_listed top
    cases next : alloc.next 0 with
    | none => rfl
    | some other =>
      rw [next] at later
      obtain ⟨_, rfl, -⟩ := later.of_some
      have second : other ∈ lists 6 := nodes ▸ List.mem_cons_of_mem _ List.mem_cons_self
      exact absurd (partition.eq_zero_of_six (partition.listed second).2.1 ▸ List.mem_cons_self) absent
  have digits : alloc.nonempty = {6} := by
    ext i
    rw [mem_nonempty, Finset.mem_singleton]
    constructor
    · rintro ⟨-, filled⟩
      obtain ⟨idx, head⟩ := Option.isSome_iff_exists.mp filled
      exact (whole head).1
    · rintro rfl
      exact ⟨Nat.le_refl 6, by rw [top]; rfl⟩
  refine .inr ⟨⟨fun {i idx} head => ?_, fun {i idx} head => ?_⟩, ?_⟩
  · obtain ⟨rfl, rfl⟩ := whole head
    exact last
  · obtain ⟨rfl, rfl⟩ := whole head
    decide
  · rw [digits]
    exact Finset.sum_singleton ..

end Partition

end BuddyAllocator

namespace AllocRun

open BuddyAllocator

variable {run : AllocRun}

/-- With nothing live, all pages are one block. -/
theorem Sound.available (sound : Sound run) (nothing : run.live = []) : run.alloc.Available 64 := by
  obtain ⟨addr, after, answer⟩ := sound.whole_of_nil nothing
  rcases sound with rfl | ⟨tile, lists, partition, -⟩
  · exact .inl ⟨rfl, rfl⟩
  have six : (listIndex (BitVec.ofNat 32 (64 * 4096))).toNat = 6 := by decide +kernel
  rw [(kalloc_eq run.alloc (by decide)).2, six] at answer
  have served := allocate_served run.alloc (show 6 < numLists by decide)
  rw [Except.ok.inj answer] at served
  cases served with
  | whole head popped =>
    rw [partition.eq_zero_of_six (partition.head_tiled head)] at head
    exact partition.available_of_top head
  | cut above bound empty head popped =>
    exact absurd (partition.tiling.within (partition.head_tiled head)).1 (by omega)

/-- Along every run that merges only whole buddies with right links, whenever nothing is live, the requests
that follow are served exactly as a counter of 64 pages serves them: the pages do not fragment until
something is freed. -/
theorem requests_counted (reached : Reach step Guarded start run) (nothing : run.live = [])
    {sizes : List (BitVec 32)} (small : ∀ size ∈ sizes, size.toNat ≤ 64 * 4096) : ∃ answers after,
      run.alloc.kallocs sizes = .ok (answers, after) ∧
        answers.map Option.isSome = servings (64 * 4096) sizes :=
  ((Sound.of_reach reached).available nothing).kallocs small

/-- After two blocks are freed, sixteen blocks of three pages leave no page. -/
theorem requests_counted_threes : ∃ run, follow step Guarded start
    [.kalloc 8192, .kalloc 1, .kfree 1, .kfree 0] = some run ∧ ∃ answers after,
      run.alloc.kallocs (List.replicate 17 12288#32 ++ [4096#32]) = .ok (answers, after) ∧
        answers.map Option.isSome = List.replicate 16 true ++ [false, false] := by
  have freed : (follow step Guarded start [.kalloc 8192, .kalloc 1, .kfree 1, .kfree 0]).map (·.live) =
      some [] := by decide +kernel
  obtain ⟨run, taken, nothing⟩ := Option.map_eq_some_iff.mp freed
  have counted : servings (64 * 4096) (List.replicate 17 12288#32 ++ [4096#32]) =
      List.replicate 16 true ++ [false, false] := by decide +kernel
  have small : ∀ size ∈ List.replicate 17 12288#32 ++ [4096#32], size.toNat ≤ 64 * 4096 := by
    simp
  have served := requests_counted (.of_follow .start taken) nothing small
  rw [counted] at served
  exact ⟨run, taken, served⟩

end AllocRun

end WalnutOs.Kernel
