import Mathlib.Data.List.Sort
import Mathlib.Tactic.Common

/-! The tokens of an array: its maximal runs of places that are no separators,
in the order of the places. -/

namespace WalnutOs.Lib.Tokens

variable {found sep : Nat → Bool} {pos stop start last place : Nat}

/-- The first place from `pos` on that is found, `stop` if there is none before it. -/
def firstFrom (found : Nat → Bool) (pos stop : Nat) : Nat :=
  ((List.range' pos (stop - pos)).find? found).getD (max pos stop)

theorem firstFrom_spec (found : Nat → Bool) (inside : pos ≤ stop) :
    pos ≤ firstFrom found pos stop ∧ firstFrom found pos stop ≤ stop ∧
      (∀ before, pos ≤ before → before < firstFrom found pos stop → found before = false) ∧
      (firstFrom found pos stop = stop ∨ found (firstFrom found pos stop) = true) := by
  unfold firstFrom
  cases here : (List.range' pos (stop - pos)).find? found with
  | none =>
    rw [List.find?_range'_eq_none] at here
    rw [Option.getD_none, Nat.max_eq_right inside]
    exact ⟨inside, Nat.le_refl stop,
      fun before low high => by simpa using here before low (by omega), .inl rfl⟩
  | some place =>
    obtain ⟨holds, member, earlier⟩ := List.find?_range'_eq_some.mp here
    obtain ⟨low, high⟩ := List.mem_range'_1.mp member
    exact ⟨low, by simp only [Option.getD_some]; omega,
      fun before first next => by simpa using earlier before first next,
      .inr holds⟩

theorem firstFrom_unique (low : pos ≤ place) (high : place ≤ stop)
    (earlier : ∀ before, pos ≤ before → before < place → found before = false)
    (holds : place = stop ∨ found place = true) : firstFrom found pos stop = place := by
  obtain ⟨first, inside, skipped, here⟩ := firstFrom_spec found (Nat.le_trans low high)
  rcases Nat.lt_trichotomy (firstFrom found pos stop) place with before | same | after
  · rcases here with atEnd | there
    · omega
    · rw [earlier _ first before] at there
      cases there
  · exact same
  · rcases holds with atEnd | there
    · omega
    · rw [skipped _ low after] at there
      cases there

/-- The first place that is found parts the places into those before it and the rest. -/
theorem span_range' (inside : pos ≤ stop) :
    (List.range' pos (stop - pos)).takeWhile (fun place => !found place) =
        List.range' pos (firstFrom found pos stop - pos) ∧
      (List.range' pos (stop - pos)).dropWhile (fun place => !found place) =
        List.range' (firstFrom found pos stop) (stop - firstFrom found pos stop) := by
  obtain ⟨low, high, skipped, holds⟩ := firstFrom_spec found inside
  have parts : List.range' pos (stop - pos) = List.range' pos (firstFrom found pos stop - pos) ++
      List.range' (firstFrom found pos stop) (stop - firstFrom found pos stop) := by
    have sum : stop - pos = firstFrom found pos stop - pos + (stop - firstFrom found pos stop) := by omega
    have middle : pos + (firstFrom found pos stop - pos) = firstFrom found pos stop := by omega
    rw [sum, ← List.range'_append_1, middle]
  have before : ∀ place ∈ List.range' pos (firstFrom found pos stop - pos), (!found place) = true := by
    intro place member
    obtain ⟨first, last⟩ := List.mem_range'_1.mp member
    rw [skipped place first (by omega), Bool.not_false]
  have stops : (List.range' (firstFrom found pos stop) (stop - firstFrom found pos stop)).takeWhile
        (fun place => !found place) = [] ∧
      (List.range' (firstFrom found pos stop) (stop - firstFrom found pos stop)).dropWhile
        (fun place => !found place) =
          List.range' (firstFrom found pos stop) (stop - firstFrom found pos stop) := by
    rcases holds with atEnd | here
    · rw [atEnd, Nat.sub_self]
      exact ⟨rfl, rfl⟩
    · cases stop - firstFrom found pos stop with
      | zero => exact ⟨rfl, rfl⟩
      | succ count =>
        rw [List.range'_succ, List.takeWhile_cons, List.dropWhile_cons, here]
        exact ⟨rfl, rfl⟩
  rw [parts, List.takeWhile_append_of_pos before, List.dropWhile_append_of_pos before, stops.1, stops.2,
    List.append_nil]
  exact ⟨rfl, rfl⟩

/-- A maximal run of places below `stop` that are no separators; `last` is past its end. -/
structure IsRun (sep : Nat → Bool) (stop start last : Nat) : Prop where
  nonempty : start < last
  inside : last ≤ stop
  clear : ∀ place, start ≤ place → place < last → sep place = false
  left : start = 0 ∨ sep (start - 1) = true
  right : last = stop ∨ sep last = true

theorem IsRun.last_eq (run : IsRun sep stop start last) : firstFrom sep start stop = last :=
  firstFrom_unique (Nat.le_of_lt run.nonempty) run.inside run.clear run.right

/-- Where the array ends with a separator, no run reaches its end. -/
theorem IsRun.last_lt (run : IsRun sep stop start last) (closed : sep (stop - 1) = true) :
    last < stop := by
  have nonempty := run.nonempty
  apply Nat.lt_of_le_of_ne run.inside
  rintro rfl
  rw [run.clear (last - 1) (by omega) (by omega)] at closed
  cases closed

/-- Two runs do not touch. -/
theorem IsRun.apart {start' last' : Nat} (run : IsRun sep stop start last)
    (other : IsRun sep stop start' last') (before : start < start') : last < start' := by
  by_contra touch
  rcases other.left with first | separated
  · omega
  · rw [run.clear (start' - 1) (by omega) (by omega)] at separated
    cases separated

/-- A run begins here. -/
def opens (sep : Nat → Bool) (place : Nat) : Bool := !sep place && (place = 0 || sep (place - 1))

/-- The runs that begin at `pos` or later. -/
def runs (sep : Nat → Bool) (pos stop : Nat) : List (Nat × Nat) :=
  ((List.range' pos (stop - pos)).filter (opens sep)).map fun start => (start, firstFrom sep start stop)

theorem mem_runs {run : Nat × Nat} :
    run ∈ runs sep pos stop ↔ pos ≤ run.1 ∧ IsRun sep stop run.1 run.2 := by
  obtain ⟨start, last⟩ := run
  simp only [runs, List.mem_map, List.mem_filter, List.mem_range'_1, opens, Bool.and_eq_true,
    Bool.not_eq_true', Bool.or_eq_true, decide_eq_true_eq, Prod.mk.injEq]
  constructor
  · rintro ⟨start, ⟨⟨low, high⟩, clear, left⟩, rfl, rfl⟩
    obtain ⟨first, inside, skipped, right⟩ := firstFrom_spec sep (show start ≤ stop by omega)
    have nonempty : start < firstFrom sep start stop := by
      apply Nat.lt_of_le_of_ne first
      intro same
      rw [← same, clear] at right
      rcases right with atEnd | absurdity
      · omega
      · cases absurdity
    exact ⟨low, nonempty, inside, skipped, left, right⟩
  · rintro ⟨low, run⟩
    have high := run.inside
    have nonempty := run.nonempty
    exact ⟨start, ⟨⟨low, by omega⟩, run.clear start (Nat.le_refl _) nonempty, run.left⟩, rfl, run.last_eq⟩

theorem pairwise_runs : (runs sep pos stop).Pairwise fun run next => run.1 < next.1 := by
  rw [runs, List.pairwise_map]
  exact (List.pairwise_lt_range' (s := pos) (n := stop - pos)).filter _

theorem runs_apart : (runs sep pos stop).Pairwise fun run next => run.2 < next.1 :=
  pairwise_runs.imp_of_mem fun member later before =>
    (mem_runs.mp member).2.apart (mem_runs.mp later).2 before

/-- A list of runs is determined by its members and their order. -/
theorem eq_runs {list : List (Nat × Nat)} (ordered : list.Pairwise fun run next => run.1 < next.1)
    (members : ∀ run, run ∈ list ↔ pos ≤ run.1 ∧ IsRun sep stop run.1 run.2) :
    runs sep pos stop = list := by
  have irrefl : Std.Irrefl fun run next : Nat × Nat => run.1 < next.1 := ⟨fun _ => Nat.lt_irrefl _⟩
  have antisymm : Std.Antisymm fun run next : Nat × Nat => run.1 < next.1 :=
    ⟨fun _ _ first second => absurd first (Nat.lt_asymm second)⟩
  exact pairwise_runs.eq_of_mem_iff ordered fun run => mem_runs.trans (members run).symm

/-- No run is cut by a cursor at `pos`. -/
def Boundary (sep : Nat → Bool) (pos : Nat) : Prop := pos = 0 ∨ sep (pos - 1) = true

/-- A run is found between the first place that is no separator and the next one that is. -/
theorem isRun_of_firstFrom (boundary : Boundary sep pos) (inside : pos ≤ stop)
    (first : firstFrom (fun place => !sep place) pos stop = start) (more : start < stop)
    (ends : firstFrom sep start stop = last) : IsRun sep stop start last := by
  obtain ⟨low, -, skipped, holds⟩ := firstFrom_spec (fun place => !sep place) inside
  obtain ⟨begins, high, clear, right⟩ := firstFrom_spec sep (Nat.le_of_lt more)
  rw [first] at low skipped holds
  rw [ends] at begins high clear right
  simp only [Bool.not_eq_false', Bool.not_eq_true'] at skipped holds
  have opening : sep start = false := holds.resolve_left (Nat.ne_of_lt more)
  have nonempty : start < last := by
    apply Nat.lt_of_le_of_ne begins
    rintro rfl
    rcases right with atEnd | separator
    · omega
    · rw [opening] at separator
      cases separator
  have left : start = 0 ∨ sep (start - 1) = true := by
    rcases Nat.eq_or_lt_of_le low with rfl | later
    · exact boundary
    · exact .inr (skipped _ (by omega) (by omega))
  exact ⟨nonempty, high, clear, left, right⟩

/-- The next run begins at the first place that is no separator. -/
theorem runs_cons (boundary : Boundary sep pos) (inside : pos ≤ stop)
    (first : firstFrom (fun place => !sep place) pos stop = start) (more : start < stop)
    (ends : firstFrom sep start stop = last) :
    runs sep pos stop = (start, last) :: runs sep (last + 1) stop := by
  have run := isRun_of_firstFrom boundary inside first more ends
  obtain ⟨low, -, skipped, -⟩ := firstFrom_spec (fun place => !sep place) inside
  rw [first] at low skipped
  simp only [Bool.not_eq_false'] at skipped
  apply eq_runs
  · rw [List.pairwise_cons]
    refine ⟨fun next member => ?_, pairwise_runs⟩
    have later := (mem_runs.mp member).1
    have nonempty := run.nonempty
    simp only
    omega
  · rintro ⟨start', last'⟩
    rw [List.mem_cons, mem_runs, Prod.mk.injEq]
    constructor
    · rintro (⟨rfl, rfl⟩ | ⟨later, other⟩)
      · exact ⟨low, run⟩
      · have nonempty := run.nonempty
        exact ⟨by simp only at later ⊢; omega, other⟩
    · rintro ⟨later, other⟩
      rcases Nat.lt_trichotomy start' start with before | rfl | after
      · have separator := skipped start' later before
        rw [other.clear start' (Nat.le_refl _) other.nonempty] at separator
        cases separator
      · exact .inl ⟨rfl, other.last_eq.symm.trans ends⟩
      · exact .inr ⟨run.apart other after, other⟩

theorem runs_eq_nil (none : firstFrom (fun place => !sep place) pos stop = stop) :
    runs sep pos stop = [] := by
  apply eq_runs .nil
  rintro ⟨start, last⟩
  simp only [List.not_mem_nil, false_iff, not_and]
  intro low run
  have bound := run.inside
  have nonempty := run.nonempty
  have skipped := (firstFrom_spec (fun place => !sep place) (show pos ≤ stop by omega)).2.2.1
  rw [none] at skipped
  have separator := skipped start low (by omega)
  rw [run.clear start (Nat.le_refl _) nonempty] at separator
  cases separator

/-- Where no run is ahead, only separators are. -/
theorem all_of_runs_eq_nil (boundary : Boundary sep pos) (nothing : runs sep pos stop = [])
    (low : pos ≤ place) (high : place < stop) : sep place = true := by
  have inside : pos ≤ stop := Nat.le_trans low (Nat.le_of_lt high)
  obtain ⟨-, bound, skipped, -⟩ := firstFrom_spec (fun place => !sep place) inside
  rcases Nat.eq_or_lt_of_le bound with atEnd | more
  · simpa using skipped place low (by omega)
  · rw [runs_cons boundary inside rfl more rfl] at nothing
    cases nothing

/-- Behind the last run there are only separators. -/
theorem IsRun.all_behind (run : IsRun sep stop start last) (nothing : runs sep (last + 1) stop = [])
    (low : last ≤ place) (high : place < stop) : sep place = true := by
  have separator : sep last = true := run.right.resolve_left (by omega)
  rcases Nat.eq_or_lt_of_le low with rfl | later
  · exact separator
  · have boundary : Boundary sep (last + 1) := .inr separator
    exact all_of_runs_eq_nil boundary nothing later high

/-- Separators can be skipped. -/
theorem runs_skip {later : Nat} (low : pos ≤ later)
    (skipped : ∀ place, pos ≤ place → place < later → sep place = true) :
    runs sep later stop = runs sep pos stop := by
  apply eq_runs pairwise_runs
  rintro ⟨start, last⟩
  rw [mem_runs]
  constructor
  · rintro ⟨first, run⟩
    refine ⟨?_, run⟩
    by_contra before
    have separator := skipped start first (Nat.lt_of_not_le before)
    rw [run.clear start (Nat.le_refl _) run.nonempty] at separator
    cases separator
  · rintro ⟨first, run⟩
    exact ⟨Nat.le_trans low first, run⟩

theorem runs_of_le (atEnd : stop ≤ pos) : runs sep pos stop = [] := by
  rw [runs, Nat.sub_eq_zero_of_le atEnd]
  rfl

theorem IsRun.shift (boundary : Boundary sep pos) :
    IsRun (fun place => sep (pos + place)) (stop - pos) start last ↔
      IsRun sep stop (pos + start) (pos + last) := by
  have before : 0 < start → pos + (start - 1) = pos + start - 1 := by omega
  constructor
  · rintro ⟨nonempty, inside, clear, left, right⟩
    refine ⟨by omega, by omega, fun place low high => ?_, ?_, ?_⟩
    · simpa [show pos + (place - pos) = place by omega] using clear (place - pos) (by omega) (by omega)
    · rcases Nat.eq_zero_or_pos start with rfl | positive
      · exact boundary
      · exact .inr (before positive ▸ left.resolve_left (Nat.ne_of_gt positive))
    · exact right.imp_left fun atEnd => by omega
  · rintro ⟨nonempty, inside, clear, left, right⟩
    refine ⟨by omega, by omega, fun place low high => clear _ (by omega) (by omega), ?_, ?_⟩
    · rcases Nat.eq_zero_or_pos start with rfl | positive
      · exact .inl rfl
      · exact .inr ((before positive).symm ▸ left.resolve_left (by omega))
    · exact right.imp_left fun atEnd => by omega

/-- The runs of what is left behind a cursor, counted from there. -/
theorem runs_shift (boundary : Boundary sep pos) :
    runs sep pos stop = (runs (fun place => sep (pos + place)) 0 (stop - pos)).map
      fun run => (pos + run.1, pos + run.2) := by
  apply eq_runs
  · rw [List.pairwise_map]
    exact pairwise_runs.imp fun earlier => Nat.add_lt_add_left earlier pos
  · rintro ⟨start, last⟩
    simp only [List.mem_map, mem_runs, Prod.mk.injEq]
    constructor
    · rintro ⟨⟨start, last⟩, ⟨-, run⟩, rfl, rfl⟩
      exact ⟨Nat.le_add_right .., (IsRun.shift boundary).mp run⟩
    · rintro ⟨low, run⟩
      obtain ⟨start, rfl⟩ := Nat.exists_eq_add_of_le low
      obtain ⟨last, rfl⟩ := Nat.exists_eq_add_of_le (Nat.le_trans low (Nat.le_of_lt run.nonempty))
      exact ⟨(start, last), ⟨Nat.zero_le _, (IsRun.shift boundary).mpr run⟩, rfl, rfl⟩

end WalnutOs.Lib.Tokens
