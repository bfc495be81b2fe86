import Mathlib.Algebra.BigOperators.Intervals
import Mathlib.Data.Nat.Count
import WalnutOs.Lib.Search
import WalnutOs.Wnfs.FileEffects

/-! The search of `allocate_sectors` for free sectors: the runs of the block
bitmap that it counts, and when a run that it counts is one of free sectors. -/

namespace WalnutOs.Wnfs

open WalnutOs.Klib WalnutOs.Lib

/-- A byte of the bitmap. Past its end no sector is free. -/
def bitmapByte (bitmap : Sector) (i : Nat) : Byte :=
  if inside : i < 512 then bitmap ⟨i, inside⟩ else 0xFF

/-- The sectors that are counted in a byte where a run begins: those at its top. -/
def leading (bitmap : Sector) (i : Nat) : Nat := lzcnt16 (bitmapByte bitmap i) - 8

/-- The sectors that are counted in a byte where a run goes on: those at its
bottom, and 16 if all of it is free. -/
def trailing (bitmap : Sector) (i : Nat) : Nat := tzcnt16 (bitmapByte bitmap i)

/-- Whether the search is in no run when it comes to a byte. The byte that ends
a run is not looked at again. -/
def searching (bitmap : Sector) : Nat → Bool
  | 0 => true
  | i + 1 => if searching bitmap i then leading bitmap i = 0 else trailing bitmap i = 0

/-- What is counted of a run from byte `start` on, over `more` bytes after it. -/
def counted (bitmap : Sector) (start : Nat) : Nat → Nat
  | 0 => leading bitmap start
  | more + 1 => counted bitmap start more + trailing bitmap (start + more + 1)

/-- The search begins a run in byte `start`, and `more` bytes after it go on with it. -/
structure Counts (bitmap : Sector) (start more : Nat) : Prop where
  begins : searching bitmap start = true
  leads : 0 < leading bitmap start
  goesOn : ∀ i < more, 0 < trailing bitmap (start + i + 1)

/-- A run begins in byte `start` that is counted to be long enough. -/
def Enough (sectors : Nat) (bitmap : Sector) (start : Nat) : Prop :=
  ∃ more, Counts bitmap start more ∧ sectors ≤ counted bitmap start more

/-- The first run that is counted to be long enough begins in byte `start`. -/
structure First (sectors : Nat) (bitmap : Sector) (start : Nat) : Prop where
  enough : Enough sectors bitmap start
  least : ∀ earlier < start, ¬Enough sectors bitmap earlier

variable {bitmap : Sector} {sectors start start' more more' i : Nat}

theorem leading_outside (outside : 512 ≤ i) : leading bitmap i = 0 := by
  rw [leading, bitmapByte, dif_neg (Nat.not_lt.mpr outside)]
  decide

theorem trailing_outside (outside : 512 ≤ i) : trailing bitmap i = 0 := by
  rw [trailing, bitmapByte, dif_neg (Nat.not_lt.mpr outside)]
  decide

theorem leading_le (bitmap : Sector) (i : Nat) : leading bitmap i ≤ 8 := by
  have every : ∀ byte : Byte, lzcnt16 byte - 8 ≤ 8 := by decide +kernel
  exact every _

/-- A run that begins at the bottom of its byte begins in a free byte. -/
theorem leading_eq_eight : leading bitmap i = 8 ↔ bitmapByte bitmap i = 0 := by
  have every : ∀ byte : Byte, lzcnt16 byte - 8 = 8 ↔ byte = 0 := by decide +kernel
  exact every _

theorem searching_next (idle : searching bitmap i = true) :
    searching bitmap (i + 1) = decide (leading bitmap i = 0) := by
  rw [searching, if_pos idle]

theorem searching_next_run (run : searching bitmap i = false) :
    searching bitmap (i + 1) = decide (trailing bitmap i = 0) := by
  rw [searching, run, if_neg Bool.false_ne_true]

namespace Counts

variable (counts : Counts bitmap start more)

include counts

/-- No other run begins in the bytes of a run, nor in the byte after them. -/
theorem inside (above : start < i) (below : i ≤ start + more + 1) : searching bitmap i = false := by
  induction i, above using Nat.le_induction with
  | base =>
    rw [searching_next counts.begins]
    exact decide_eq_false counts.leads.ne'
  | succ i above ih =>
    obtain ⟨turn, rfl⟩ := Nat.exists_eq_add_of_lt above
    rw [searching_next_run (ih (by omega))]
    exact decide_eq_false (counts.goesOn turn (by omega)).ne'

theorem within : start + more < 512 := by
  by_contra outside
  cases more with
  | zero => exact counts.leads.ne' (leading_outside (by omega))
  | succ more => exact (counts.goesOn more (by omega)).ne' (trailing_outside (by omega))

/-- Runs that have a byte in common begin in the same byte. -/
theorem same_start (counts' : Counts bitmap start' more') (reaches : start ≤ start' + more' + 1)
    (reaches' : start' ≤ start + more + 1) : start = start' := by
  rcases Nat.lt_trichotomy start start' with before | same | after
  · exact absurd counts'.begins (by simp [counts.inside before reaches'])
  · exact same
  · exact absurd counts.begins (by simp [counts'.inside after reaches])

end Counts

theorem First.unique (first : First sectors bitmap start) (first' : First sectors bitmap start') :
    start = start' := by
  rcases Nat.lt_trichotomy start start' with before | same | after
  · exact absurd first.enough (first'.least start before)
  · exact same
  · exact absurd first'.enough (first.least start' after)

theorem First.low (first : First sectors bitmap start) : start ≤ 512 := by
  obtain ⟨more, counts, -⟩ := first.enough
  have within := counts.within
  omega

/-- No run over bytes before `i` is counted to be long enough. -/
def NoneBefore (sectors : Nat) (bitmap : Sector) (i : Nat) : Prop :=
  ∀ start more, start + more < i → Counts bitmap start more → counted bitmap start more < sectors

theorem NoneBefore.next (none : NoneBefore sectors bitmap i)
    (here : ∀ start more, start + more = i → Counts bitmap start more → counted bitmap start more < sectors) :
    NoneBefore sectors bitmap (i + 1) := by
  intro start more below counts
  rcases Nat.lt_or_eq_of_le (Nat.le_of_lt_succ below) with earlier | last
  · exact none start more earlier counts
  · exact here start more last counts

theorem Counts.first (counts : Counts bitmap start more) (none : NoneBefore sectors bitmap (start + more))
    (enough : sectors ≤ counted bitmap start more) : First sectors bitmap start := by
  refine ⟨⟨more, counts, enough⟩, ?_⟩
  rintro earlier before ⟨more', counts', enough'⟩
  have below : earlier + more' < start + more := by
    by_contra above
    exact before.ne (counts'.same_start counts (by omega) (by omega))
  exact absurd (none earlier more' below counts') (Nat.not_lt.mpr enough')

/-- Where the search is when it has been through the first bytes. -/
inductive Searched (sectors : Nat) (bitmap : Sector) : Nat → SectorSearch → Prop where
  | searching {i : Nat} {search : SectorSearch} (count : search.sectorCount = 0)
      (idle : searching bitmap i = true) (none : NoneBefore sectors bitmap i) :
      Searched sectors bitmap i search
  | counting {start more : Nat} {search : SectorSearch} (counts : Counts bitmap start more)
      (pos : search.sectorPos = start) (bit : search.sectorBit = 8 - leading bitmap start)
      (count : search.sectorCount = counted bitmap start more)
      (none : NoneBefore sectors bitmap (start + more + 1)) :
      Searched sectors bitmap (start + more + 1) search
  | found {i : Nat} {search : SectorSearch} (enough : sectors ≤ search.sectorCount)
      (first : First sectors bitmap search.sectorPos)
      (bit : search.sectorBit = 8 - leading bitmap search.sectorPos) : Searched sectors bitmap i search

theorem Counts.positive (counts : Counts bitmap start more) : 0 < counted bitmap start more := by
  cases more with
  | zero => exact counts.leads
  | succ more => exact Nat.lt_add_left _ (counts.goesOn more (Nat.lt_succ_self _))

theorem bitmapByte_of_fin (bitmap : Sector) (i : Fin 512) : bitmapByte bitmap i = bitmap i :=
  dif_pos i.isLt

/-- One turn of the search, with the bytes of the bitmap by their numbers. -/
theorem searchByte_eq (search : SectorSearch) (i : Fin 512) :
    searchByte sectors bitmap search i =
      if sectors ≤ search.sectorCount then search
      else if 0 < search.sectorCount then
        { search with sectorCount :=
            if trailing bitmap i = 0 then 0 else search.sectorCount + trailing bitmap i }
      else if leading bitmap i = 0 then search
      else ⟨i, 8 - leading bitmap i, leading bitmap i⟩ := by
  have full : tzcnt16 0xFF = 0 ∧ lzcnt16 0xFF - 8 = 0 := by decide
  simp only [searchByte, leading, trailing, bitmapByte_of_fin]
  by_cases done : sectors ≤ search.sectorCount
  · rw [if_pos done, if_pos done]
  · rw [if_neg done, if_neg done]
    by_cases counting : 0 < search.sectorCount
    · rw [if_pos counting, if_pos counting]
      by_cases used : bitmap i = 0xFF
      · rw [if_pos used, used, if_pos full.1]
      · rw [if_neg used]
        split <;> rfl
    · have zero := Nat.eq_zero_of_not_pos counting
      rw [if_neg counting, if_neg counting]
      by_cases used : bitmap i = 0xFF
      · rw [if_pos used, used, if_pos full.2, ← zero]
      · rw [if_neg used, zero, Nat.zero_add]

theorem Searched.next {search : SectorSearch} (positive : 0 < sectors) (i : Fin 512)
    (searched : Searched sectors bitmap i search) :
    Searched sectors bitmap (i + 1) (searchByte sectors bitmap search i) := by
  rw [searchByte_eq]
  generalize i.val = i at searched ⊢
  cases searched with
  | found enough first bit =>
    rw [if_pos enough]
    exact .found enough first bit
  | searching count idle none =>
    -- A run over byte `i` can only begin there.
    have alone : ∀ start more, start + more = i → Counts bitmap start more → start = i ∧ more = 0 := by
      intro start more last counts
      cases more with
      | zero => exact ⟨last, rfl⟩
      | succ more => exact absurd idle (by simp [counts.inside (show start < i by omega) (by omega)])
    rw [if_neg (by omega), if_neg (by omega)]
    by_cases leads : leading bitmap i = 0
    · rw [if_pos leads]
      refine .searching count ?_ (none.next fun start more last counts => ?_)
      · rw [searching_next idle]
        exact decide_eq_true leads
      · obtain ⟨rfl, rfl⟩ := alone start more last counts
        exact absurd leads counts.leads.ne'
    · have counts : Counts bitmap i 0 :=
        ⟨idle, Nat.pos_of_ne_zero leads, fun _ none => absurd none (Nat.not_lt_zero _)⟩
      rw [if_neg leads]
      rcases Nat.lt_or_ge (leading bitmap i) sectors with few | enough
      · refine .counting counts rfl rfl rfl (none.next fun start more last counts => ?_)
        obtain ⟨rfl, rfl⟩ := alone start more last counts
        exact few
      · exact .found enough (counts.first none enough) rfl
  | @counting start more _ counts pos bit count none =>
    -- A run over the next byte is this one.
    have alone : ∀ start' more', start' + more' = start + more + 1 → Counts bitmap start' more' →
        start' = start ∧ more' = more + 1 := by
      intro start' more' last counts'
      have same := counts'.same_start counts (by omega) (by omega)
      omega
    have few : search.sectorCount < sectors := by
      rw [count]
      exact none start more (Nat.lt_succ_self _) counts
    have some : 0 < search.sectorCount := by
      rw [count]
      exact counts.positive
    rw [if_neg (Nat.not_le.mpr few), if_pos some]
    by_cases trails : trailing bitmap (start + more + 1) = 0
    · rw [if_pos trails]
      refine .searching rfl ?_ (none.next fun start' more' last counts' => ?_)
      · rw [searching_next_run (counts.inside (by omega) (Nat.le_refl _))]
        exact decide_eq_true trails
      · obtain ⟨rfl, rfl⟩ := alone start' more' last counts'
        exact absurd trails (counts'.goesOn more (Nat.lt_succ_self _)).ne'
    · have longer : Counts bitmap start (more + 1) := by
        refine ⟨counts.begins, counts.leads, fun i below => ?_⟩
        rcases Nat.lt_or_eq_of_le (Nat.le_of_lt_succ below) with earlier | rfl
        · exact counts.goesOn i earlier
        · exact Nat.pos_of_ne_zero trails
      rw [if_neg trails, count]
      subst pos
      rcases Nat.lt_or_ge (counted bitmap search.sectorPos (more + 1)) sectors with few | enough
      · change Searched sectors bitmap (search.sectorPos + (more + 1) + 1) _
        refine .counting longer rfl bit rfl (none.next fun start' more' last counts' => ?_)
        obtain ⟨rfl, rfl⟩ := alone start' more' last counts'
        exact few
      · exact .found enough (longer.first none enough) bit

/-- The search finds the first run that it counts to be long enough, if there is one. -/
theorem searchSectors_spec (positive : 0 < sectors) (bitmap : Sector) :
    sectors ≤ (searchSectors sectors bitmap).sectorCount ∧
        First sectors bitmap (searchSectors sectors bitmap).sectorPos ∧
        (searchSectors sectors bitmap).sectorBit =
          8 - leading bitmap (searchSectors sectors bitmap).sectorPos ∨
      (searchSectors sectors bitmap).sectorCount < sectors ∧ ∀ start, ¬Enough sectors bitmap start := by
  have none : ∀ i, 512 ≤ i → NoneBefore sectors bitmap i → ∀ start, ¬Enough sectors bitmap start := by
    rintro i past none start ⟨more, counts, enough⟩
    have within := counts.within
    exact absurd (none start more (by omega) counts) (Nat.not_lt.mpr enough)
  have searched : Searched sectors bitmap 512 (searchSectors sectors bitmap) := by
    refine Search.foldl_finRange (Searched sectors bitmap) (.searching rfl rfl ?_)
      fun i search searched => searched.next positive i
    exact fun _ _ below => absurd below (Nat.not_lt_zero _)
  generalize searchSectors sectors bitmap = search at searched ⊢
  generalize past : (512 : Nat) = i at searched
  cases searched with
  | found enough first bit => exact .inl ⟨enough, first, bit⟩
  | searching count _ missing => exact .inr ⟨by omega, none _ past.le missing⟩
  | @counting start more _ counts _ _ count missing =>
    have few := missing start more (Nat.lt_succ_self _) counts
    exact .inr ⟨by omega, none _ past.le missing⟩

section Bitmap

/-- Whether the last sector of a byte is free. -/
def topFree (bitmap : Sector) (i : Nat) : Bool := !(bitmapByte bitmap i).getLsbD 7

/-- Whether the first sector of a byte is free. -/
def bottomFree (bitmap : Sector) (i : Nat) : Bool := !(bitmapByte bitmap i).getLsbD 0

/-- The bytes before byte `i` whose last sector is free and whose first one is not. -/
def turns (bitmap : Sector) (i : Nat) : Nat :=
  Nat.count (fun before => topFree bitmap before && !bottomFree bitmap before) i

/-- The first and the last sector of a byte are both free or both not. -/
def Alike (bitmap : Sector) (i : Nat) : Prop := topFree bitmap i = bottomFree bitmap i

/-- A run can begin in byte `i`: its last sector is free; and from the last byte before it whose ends
are alike, the bytes whose last sector alone is free are even in number if that byte's ends are
taken or there is no such byte, and odd in number if its ends are free. -/
structure Begins (bitmap : Sector) (i : Nat) : Prop where
  top : topFree bitmap i = true
  turned : ∀ before < i, Alike bitmap before → (∀ between < i, before < between → ¬Alike bitmap between) →
    (turns bitmap i % 2 = turns bitmap before % 2 ↔ topFree bitmap before = false)
  first : (∀ before < i, ¬Alike bitmap before) → turns bitmap i % 2 = 0

/-- So many sectors at least are counted of a run from byte `i` on, over bytes whose first
sector is free. -/
def CountsTo (sectors : Nat) (bitmap : Sector) (i : Nat) : Prop :=
  ∃ more, (∀ ahead < more, bottomFree bitmap (i + ahead + 1) = true) ∧
    sectors ≤ leading bitmap i + ∑ ahead ∈ Finset.range more, trailing bitmap (i + ahead + 1)

/-- No run that begins in a byte before `i` is counted to so many sectors. -/
def NoneCounted (sectors : Nat) (bitmap : Sector) (i : Nat) : Prop :=
  ∀ before < i, Begins bitmap before → ¬CountsTo sectors bitmap before

variable {before : Nat}

theorem leading_pos_iff : 0 < leading bitmap i ↔ topFree bitmap i = true := by
  have every : ∀ byte : Byte, 0 < lzcnt16 byte - 8 ↔ (!byte.getLsbD 7) = true := by decide +kernel
  exact every _

theorem trailing_pos_iff : 0 < trailing bitmap i ↔ bottomFree bitmap i = true := by
  have every : ∀ byte : Byte, 0 < tzcnt16 byte ↔ (!byte.getLsbD 0) = true := by decide +kernel
  exact every _

theorem turns_next (bitmap : Sector) (i : Nat) : turns bitmap (i + 1) =
    turns bitmap i + if topFree bitmap i && !bottomFree bitmap i then 1 else 0 :=
  Nat.count_succ ..

theorem searching_eq (bitmap : Sector) (i : Nat) : searching bitmap (i + 1) =
    if searching bitmap i then !topFree bitmap i else !bottomFree bitmap i := by
  have top : ∀ byte : Byte, decide (lzcnt16 byte - 8 = 0) = !!byte.getLsbD 7 := by decide +kernel
  have bottom : ∀ byte : Byte, decide (tzcnt16 byte = 0) = !!byte.getLsbD 0 := by decide +kernel
  rw [searching, topFree, bottomFree, ← top, ← bottom]
  split <;> rfl

theorem bottomFree_of_unlike (unlike : ¬Alike bitmap i) : bottomFree bitmap i = !topFree bitmap i :=
  Bool.eq_not.mpr (Ne.symm (show topFree bitmap i ≠ bottomFree bitmap i from unlike))

theorem searching_of_alike (alike : Alike bitmap i) : searching bitmap (i + 1) = !topFree bitmap i := by
  rw [searching_eq, alike, ite_self]

/-- A byte that is free at its end alone turns the search from one state to the other, and one that
is free at its beginning alone leaves it as it is. -/
theorem searching_of_unlike (unlike : ¬Alike bitmap i) :
    searching bitmap (i + 1) = (searching bitmap i ^^ topFree bitmap i) := by
  rw [searching_eq, bottomFree_of_unlike unlike]
  cases searching bitmap i <;> cases topFree bitmap i <;> rfl

/-- Over bytes whose ends are not alike the turns decide. -/
theorem searching_turned (above : before ≤ i)
    (unlike : ∀ between < i, before ≤ between → ¬Alike bitmap between) : searching bitmap i =
      (searching bitmap before ^^ decide (turns bitmap i % 2 ≠ turns bitmap before % 2)) := by
  induction i, above using Nat.le_induction with
  | base => simp
  | succ i above ih =>
    have here := unlike i (Nat.lt_succ_self i) above
    rw [searching_of_unlike here, ih fun between below => unlike between (Nat.lt_succ_of_lt below),
      turns_next, bottomFree_of_unlike here, Bool.not_not, Bool.and_self, Bool.xor_assoc]
    congr 1
    cases topFree bitmap i with
    | false => simp
    | true =>
      rw [Bool.xor_true, ← decide_not]
      exact decide_eq_decide.mpr (by simp only [if_true]; omega)

/-- A byte whose ends are alike is the last one before `i`, or there is none. -/
theorem last_alike (bitmap : Sector) (i : Nat) :
    (∃ before < i, Alike bitmap before ∧ ∀ between < i, before < between → ¬Alike bitmap between) ∨
      ∀ before < i, ¬Alike bitmap before := by
  induction i with
  | zero => exact .inr fun _ below => absurd below (Nat.not_lt_zero _)
  | succ i ih =>
    by_cases here : Alike bitmap i
    · exact .inl ⟨i, Nat.lt_succ_self i, here, fun between below above => by omega⟩
    · have extend {least : Nat} (earlier : ∀ between < i, least < between → ¬Alike bitmap between) :
          ∀ between < i + 1, least < between → ¬Alike bitmap between := by
        intro between below above
        rcases Nat.lt_or_eq_of_le (Nat.le_of_lt_succ below) with before | rfl
        · exact earlier between before above
        · exact here
      rcases ih with ⟨before, below, alike, last⟩ | none
      · exact .inl ⟨before, Nat.lt_succ_of_lt below, alike, extend last⟩
      · refine .inr fun before below => ?_
        rcases Nat.lt_or_eq_of_le (Nat.le_of_lt_succ below) with earlier | rfl
        · exact none before earlier
        · exact here

/-- After the last byte whose ends are alike. -/
theorem searching_iff_of_alike (below : before < i) (alike : Alike bitmap before)
    (last : ∀ between < i, before < between → ¬Alike bitmap between) : searching bitmap i = true ↔
      (turns bitmap i % 2 = turns bitmap before % 2 ↔ topFree bitmap before = false) := by
  have same : turns bitmap (before + 1) = turns bitmap before := by
    rw [turns_next, ← show topFree bitmap before = bottomFree bitmap before from alike, Bool.and_not_self]
    rfl
  rw [searching_turned below fun between under above => last between under above,
    searching_of_alike alike, same]
  by_cases even : turns bitmap i % 2 = turns bitmap before % 2 <;> simp [even]

theorem searching_iff_of_unlike (none : ∀ before < i, ¬Alike bitmap before) :
    searching bitmap i = true ↔ turns bitmap i % 2 = 0 := by
  have start : searching bitmap 0 = true ∧ turns bitmap 0 = 0 := ⟨rfl, Nat.count_zero _⟩
  rw [searching_turned (Nat.zero_le i) fun between below _ => none between below, start.1, start.2]
  simp

theorem begins_iff : Begins bitmap i ↔ searching bitmap i = true ∧ 0 < leading bitmap i := by
  rw [leading_pos_iff]
  constructor
  · intro begins
    refine ⟨?_, begins.top⟩
    rcases last_alike bitmap i with ⟨before, below, alike, last⟩ | none
    · exact (searching_iff_of_alike below alike last).mpr (begins.turned before below alike last)
    · exact (searching_iff_of_unlike none).mpr (begins.first none)
  · rintro ⟨idle, top⟩
    exact ⟨top, fun before below alike last => (searching_iff_of_alike below alike last).mp idle,
      fun none => (searching_iff_of_unlike none).mp idle⟩

theorem counted_eq (bitmap : Sector) (start more : Nat) : counted bitmap start more =
    leading bitmap start + ∑ ahead ∈ Finset.range more, trailing bitmap (start + ahead + 1) := by
  induction more with
  | zero => rw [counted, Finset.sum_range_zero, Nat.add_zero]
  | succ more ih => rw [counted, ih, Finset.sum_range_succ, Nat.add_assoc]

theorem enough_iff : Enough sectors bitmap start ↔ Begins bitmap start ∧ CountsTo sectors bitmap start := by
  constructor
  · rintro ⟨more, counts, enough⟩
    refine ⟨begins_iff.mpr ⟨counts.begins, counts.leads⟩, more, fun ahead below => ?_, ?_⟩
    · exact trailing_pos_iff.mp (counts.goesOn ahead below)
    · rwa [← counted_eq]
  · rintro ⟨begins, more, free, enough⟩
    obtain ⟨idle, leads⟩ := begins_iff.mp begins
    refine ⟨more, ⟨idle, leads, fun ahead below => trailing_pos_iff.mpr (free ahead below)⟩, ?_⟩
    rwa [counted_eq]

theorem first_iff : First sectors bitmap start ↔
    Begins bitmap start ∧ CountsTo sectors bitmap start ∧ NoneCounted sectors bitmap start := by
  have none : NoneCounted sectors bitmap start ↔ ∀ earlier < start, ¬Enough sectors bitmap earlier := by
    simp only [NoneCounted, enough_iff, not_and]
  rw [none]
  constructor
  · intro first
    obtain ⟨begins, counts⟩ := enough_iff.mp first.enough
    exact ⟨begins, counts, first.least⟩
  · rintro ⟨begins, counts, least⟩
    exact ⟨enough_iff.mpr ⟨begins, counts⟩, least⟩

/-- Runs begin within the bitmap. -/
theorem noneCounted_iff : NoneCounted sectors bitmap 512 ↔ ∀ start, ¬Enough sectors bitmap start := by
  simp only [enough_iff, not_and, NoneCounted]
  constructor
  · intro none start begins counts
    obtain ⟨more, enough, -⟩ := enough_iff.mpr ⟨begins, counts⟩
    exact none start (Nat.lt_of_le_of_lt (Nat.le_add_right _ more) enough.within) begins counts
  · exact fun none before _ => none before

end Bitmap

end WalnutOs.Wnfs
