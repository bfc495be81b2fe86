import WalnutOs.Wnfs.AllocateSectors

/-! Runs of `allocate_sectors`: whether each call reserves what it returns, and
no sector is returned twice. -/

namespace WalnutOs.Wnfs

open WalnutOs.Klib WalnutOs.Lib

/-- A call that succeeds returns sectors that were free, and sets their bits and no others. -/
def World.Reserves (world : World) (sectors : Nat) : Prop :=
  ∀ start after, allocateSectors sectors world = .ok (some (blockStartSector + start), after) →
    ClearFrom world.blockBitmap start sectors ∧ MarksFrom world.blockBitmap start sectors after.blockBitmap

/-- If both transfers complete, then no run is counted to be long enough; or so many bits are clear
from the bottom of a free byte on in which a run can begin, and no run that begins before is counted
to be long enough. -/
def World.BeginsFree (world : World) (sectors : Nat) : Prop :=
  world.drive.outcome = .done → world.drive.tick.outcome = .done →
    NoneCounted sectors world.blockBitmap 512 ∨
      ∃ i, Begins world.blockBitmap i ∧ bitmapByte world.blockBitmap i = 0 ∧
        ClearFrom world.blockBitmap (i * 8) sectors ∧ NoneCounted sectors world.blockBitmap i

/-- A world with the ranges of sectors that calls have returned, the latest first. -/
structure Allocations where
  world : World
  ranges : List (Nat × Nat)

/-- Two ranges, each by its first sector and how many it has, with no sector in common. -/
def Apart (first second : Nat × Nat) : Prop :=
  first.1 + first.2 ≤ second.1 ∨ second.1 + second.2 ≤ first.1

namespace Allocations

variable {run after : Allocations} {world : World} {sectors start : Nat}

/-- The next call; `none` is a fault. -/
def step (run : Allocations) (sectors : Nat) : Option Allocations :=
  match allocateSectors sectors run.world with
  | .error _ => none
  | .ok (none, world) => some { run with world }
  | .ok (some sector, world) => some ⟨world, (sector, sectors) :: run.ranges⟩

/-- The next call reserves what it returns, and afterwards no two ranges have a sector in common. -/
def ReservesApart (run : Allocations) (sectors : Nat) : Prop :=
  run.world.Reserves sectors ∧ ∀ after, run.step sectors = some after → after.ranges.Pairwise Apart

/-- The ranges have no sector in common, and the bits of all their sectors are set. -/
structure Reserved (run : Allocations) : Prop where
  reports : Reports run.world.drive
  apart : run.ranges.Pairwise Apart
  valid : ∀ range ∈ run.ranges, blockStartSector ≤ range.1 ∧ 0 < range.2
  marked : ∀ range ∈ run.ranges, ∀ bit, range.1 ≤ bit + blockStartSector →
    bit + blockStartSector < range.1 + range.2 → isClear run.world.blockBitmap bit = false

end Allocations

/-- The bits that are set begin where the sectors do. -/
theorem MarksFrom.same_start {bitmap marked : Sector} {start ahead sectors : Nat} (positive : 0 < sectors)
    (marks : MarksFrom bitmap start sectors marked) (marks' : MarksFrom bitmap (start + ahead) sectors marked)
    (clear : ClearFrom bitmap (start + ahead) sectors) : ahead = 0 := by
  by_contra above
  have last := clear (start + ahead + sectors - 1) (by omega) (by omega)
  have inside : start + ahead ≤ start + ahead + sectors - 1 ∧
      start + ahead + sectors - 1 < start + ahead + sectors := by omega
  have outside : ¬(start ≤ start + ahead + sectors - 1 ∧ start + ahead + sectors - 1 < start + sectors) := by
    omega
  have set := marks' (start + ahead + sectors - 1)
  rw [marks, last, decide_eq_true inside, decide_eq_false outside] at set
  cases set

/-- A call reserves what it returns if and only if the run that it finds begins with a free byte
and is one of free sectors. -/
theorem reserves_iff {world : World} {sectors : Nat} (positive : 0 < sectors)
    (reports : Reports world.drive) :
    world.Reserves sectors ↔ world.BeginsFree sectors := by
  have allocated := allocateSectors_allocated positive reports
  unfold World.Reserves World.BeginsFree
  generalize allocateSectors sectors world = result at allocated ⊢
  cases allocated with
  | unread failed => exact iff_of_true nofun fun read => absurd read failed
  | unwritten failed => exact iff_of_true nofun fun _ written => absurd written failed
  | full missing => exact iff_of_true nofun fun _ _ => .inl (noneCounted_iff.mpr missing)
  | @reserved start marked first marks read written =>
    have few := leading_le world.blockBitmap start
    obtain ⟨begins, -, least⟩ := first_iff.mp first
    constructor
    · intro reserves _ _
      obtain ⟨clear, exactly⟩ := reserves (start * 8 + (8 - leading world.blockBitmap start)) _
        (by rw [Nat.add_comm blockStartSector])
      rw [World.blockBitmap_rewritten] at exactly
      have bottom := marks.same_start positive exactly clear
      have whole : leading world.blockBitmap start = 8 := by omega
      rw [bottom, Nat.add_zero] at clear
      exact .inr ⟨start, begins, leading_eq_eight.mp whole, clear, least⟩
    · intro free start' final same
      rcases free read written with none | ⟨i, begins', free, clear, least'⟩
      · exact absurd first.enough (noneCounted_iff.mp none _)
      have whole := leading_eq_eight.mpr free
      have counts : CountsTo sectors world.blockBitmap i := by
        refine ClearFrom.counted ?_
        rwa [whole, Nat.sub_self, Nat.add_zero]
      cases first.unique (first_iff.mpr ⟨begins', counts, least'⟩)
      have place : start' = start * 8 := by
        have value := Option.some.inj (congrArg Prod.fst (Except.ok.inj same))
        omega
      have world' := congrArg Prod.snd (Except.ok.inj same)
      subst place world'
      rw [World.blockBitmap_rewritten]
      exact ⟨clear, marks⟩

namespace Allocations

variable {run after : Allocations} {world : World} {sectors : Nat}

/-- What the next call leaves. -/
theorem Reserved.step (reserved : Reserved run) (positive : 0 < sectors)
    (reserves : run.world.Reserves sectors) (taken : run.step sectors = some after) : Reserved after := by
  have allocated := allocateSectors_allocated positive reserved.reports
  unfold Allocations.step at taken
  unfold World.Reserves at reserves
  generalize allocateSectors sectors run.world = result at allocated taken reserves
  cases allocated with
  | unread failed =>
    cases taken
    exact ⟨reserved.reports, reserved.apart, reserved.valid, reserved.marked⟩
  | unwritten failed =>
    cases taken
    exact ⟨reserved.reports, reserved.apart, reserved.valid, reserved.marked⟩
  | full missing =>
    cases taken
    exact ⟨reserved.reports, reserved.apart, reserved.valid, reserved.marked⟩
  | reserved first marks read written =>
    cases taken
    obtain ⟨clear, exactly⟩ := reserves _ _ (by rw [Nat.add_comm blockStartSector])
    generalize _ + (8 - leading run.world.blockBitmap _) = start at clear exactly ⊢
    refine ⟨reserved.reports, List.pairwise_cons.mpr ⟨fun range member => ?_, reserved.apart⟩,
      List.forall_mem_cons.mpr ⟨⟨Nat.le_add_left _ _, positive⟩, reserved.valid⟩,
      List.forall_mem_cons.mpr ⟨fun bit above below => ?_, fun range member bit above below => ?_⟩⟩
    · obtain ⟨low, some⟩ := reserved.valid range member
      by_contra overlap
      unfold Apart at overlap
      -- The later of the two first sectors is in both ranges.
      have free := clear (max start (range.1 - blockStartSector)) (by omega) (by omega)
      rw [reserved.marked range member _ (by omega) (by omega)] at free
      cases free
    · rw [exactly bit, decide_eq_true ⟨Nat.le_of_add_le_add_right above, by simp only at below; omega⟩]
      simp
    · rw [exactly bit, reserved.marked range member bit above below]
      rfl

/-- In a run of calls on a disk that reports its errors, every call reserves what it returns, and
no sector is returned twice, if and only if every run that is counted to be long enough first is
one of free sectors from the bottom of a free byte on. -/
theorem reserves_apart_iff {calls : List Nat} (reports : Reports world.drive)
    (positive : ∀ sectors ∈ calls, 0 < sectors) :
    EveryTaken step ReservesApart ⟨world, []⟩ calls ↔
      EveryTaken step (fun run sectors => run.world.BeginsFree sectors) ⟨world, []⟩ calls := by
  refine EveryTaken.iff_of_invariant Reserved ?_ ?_
    ⟨reports, .nil, by simp, by simp⟩ (.of_forall positive)
  · intro run sectors after reserved some begins taken
    exact reserved.step some ((reserves_iff some reserved.reports).mpr begins) taken
  · intro run sectors reserved some
    rw [ReservesApart, reserves_iff some reserved.reports]
    refine and_iff_left_of_imp fun begins after taken => ?_
    exact (reserved.step some ((reserves_iff some reserved.reports).mpr begins) taken).apart

/-- Eight sectors of a bitmap without marks. -/
theorem reserves_apart_blank :
    EveryTaken step ReservesApart ⟨⟨.constructed fun _ _ => 0, .blank⟩, []⟩ [8] := by
  refine (reserves_apart_iff (Reports.of_reliable fun _ => rfl) (by decide)).mpr ⟨?_, fun _ _ => trivial⟩
  refine fun _ _ => .inr ⟨0, .zero (by decide), by decide, fun bit _ below => ?_, .zero _ _⟩
  have first : bit / 8 = 0 := by omega
  rw [isClear, first]
  simp [bitmapByte, World.blockBitmap, Drive.blank]

/-- On a bitmap where two sectors are taken, the next two are returned and the
bits of the first two set again. -/
theorem not_reserves_apart : ¬∀ (world : World) (calls : List Nat), Reports world.drive →
    (∀ sectors ∈ calls, 0 < sectors) → EveryTaken step ReservesApart ⟨world, []⟩ calls := by
  intro claim
  let world : World := ⟨.constructed fun _ _ => 0, ⟨fun _ => Wnfs.blockBitmap true, fun _ => .done, 0⟩⟩
  have reports : Reports world.drive := Reports.of_reliable fun _ => rfl
  have reserves := (claim world [2] reports (by decide)).1.1
  have begins : Begins world.blockBitmap 0 := .zero (by decide)
  have counts : CountsTo 2 world.blockBitmap 0 := ⟨0, by simp, by decide⟩
  rcases (reserves_iff (by decide) reports).mp reserves rfl rfl with none | ⟨i, -, free, -, least⟩
  · exact none 0 (by decide) begins counts
  · rcases Nat.eq_zero_or_pos i with rfl | above
    · exact absurd free (by decide)
    · exact least 0 above begins counts

end Allocations

end WalnutOs.Wnfs
