import WalnutOs.Lib.Run
import WalnutOs.Wnfs.SectorSearch

/-! What `allocate_sectors` reserves: the sectors that it returns and the bits
that it sets, for one call and over runs of calls. -/

namespace WalnutOs.Wnfs

open WalnutOs.Klib WalnutOs.Lib

/-- Whether a sector is free, by its bit. -/
def isClear (bitmap : Sector) (bit : Nat) : Bool := !(bitmapByte bitmap (bit / 8)).getLsbD (bit % 8)

/-- So many consecutive clear bits, from a place on. -/
def ClearFrom (bitmap : Sector) (start sectors : Nat) : Prop :=
  ∀ bit, start ≤ bit → bit < start + sectors → isClear bitmap bit = true

/-- `marked` has these bits set, and otherwise the bits of `bitmap`. -/
def MarksFrom (bitmap : Sector) (start sectors : Nat) (marked : Sector) : Prop :=
  ∀ bit, isClear marked bit = (isClear bitmap bit && !decide (start ≤ bit ∧ bit < start + sectors))

variable {bitmap marked : Sector} {start sectors bit : Nat} {world : World}

theorem isClear_outside (outside : 4096 ≤ bit) : isClear bitmap bit = false := by
  have every : ∀ place : Fin 8, (0xFF : Byte).getLsbD place = true := by decide
  have past : ¬bit / 8 < 512 := by omega
  rw [isClear, bitmapByte, dif_neg past, every ⟨bit % 8, Nat.mod_lt _ (by decide)⟩]
  rfl

/-- Setting one bit. -/
theorem isClear_set (i : Fin 512) {place : Nat} (low : place < 8) :
    isClear (Function.update bitmap i (bitmap i ||| 1#8 <<< place)) bit =
      (isClear bitmap bit && !decide (bit = i.val * 8 + place)) := by
  have inside : bit % 8 < 8 := Nat.mod_lt _ (by decide)
  simp only [isClear, bitmapByte]
  split
  · rename_i within
    by_cases same : (⟨bit / 8, within⟩ : Fin 512) = i
    · have value : bit / 8 = i.val := congrArg Fin.val same
      have here : decide (bit % 8 = place) = decide (bit = i.val * 8 + place) :=
        decide_eq_decide.mpr (by omega)
      rw [same, Function.update_self, Bits.getLsbD_set inside, here, Bool.not_or]
    · have value : bit / 8 ≠ i.val := fun value => same (Fin.ext value)
      have apart : bit ≠ i.val * 8 + place := by omega
      rw [Function.update_of_ne same, decide_eq_false apart, Bool.not_false, Bool.and_true]
  · have apart : bit ≠ i.val * 8 + place := by omega
    rw [decide_eq_false apart, Bool.not_false, Bool.and_true]

theorem markSectors_succ (start sectors : Nat) (bitmap : Sector) :
    markSectors (sectors + 1) start bitmap =
      if inside : start + sectors / 8 < 512 then
        Function.update (markSectors sectors start bitmap) ⟨start + sectors / 8, inside⟩
          (markSectors sectors start bitmap ⟨start + sectors / 8, inside⟩ ||| 1#8 <<< (sectors % 8))
      else markSectors sectors start bitmap := by
  rw [markSectors, List.range_succ, List.foldl_append, List.foldl_cons, List.foldl_nil]
  rfl

/-- The bits are marked as far as there is a bitmap. -/
theorem marksFrom_markSectors (start sectors : Nat) (bitmap : Sector) :
    MarksFrom bitmap (start * 8) sectors (markSectors sectors start bitmap) := by
  induction sectors with
  | zero =>
    intro bit
    have none : ¬(start * 8 ≤ bit ∧ bit < start * 8 + 0) := by omega
    rw [decide_eq_false none, Bool.not_false, Bool.and_true]
    rfl
  | succ sectors ih =>
    intro bit
    rw [markSectors_succ]
    split
    · rename_i within
      rw [isClear_set ⟨start + sectors / 8, within⟩ (Nat.mod_lt _ (by decide)), ih bit, Bool.and_assoc,
        ← Bool.not_or, ← Bool.decide_or]
      exact congrArg (isClear bitmap bit && !·) (decide_eq_decide.mpr (by simp only; omega))
    · rename_i past
      rw [ih bit]
      rcases Nat.lt_or_ge bit 4096 with inside | outside
      · exact congrArg (isClear bitmap bit && !·) (decide_eq_decide.mpr (by omega))
      · rw [isClear_outside outside, Bool.false_and, Bool.false_and]

/-- A disk whose transfers do not fail without an error. -/
def Reports (drive : Drive) : Prop := ∀ transfer left, drive.outcomes transfer ≠ .failed none left

theorem Reports.of_reliable {drive : Drive} (working : drive.Reliable) : Reports drive := by
  intro transfer left failed
  rw [working transfer] at failed
  cases failed

abbrev World.blockBitmap (world : World) : Sector := world.drive.sectors blockGroupSector

/-- The world when the bitmap has been read and another one written. -/
def World.rewritten (world : World) (bitmap : Sector) : World :=
  ⟨world.cache, { world.drive.tick.tick with
    sectors := Function.update world.drive.sectors blockGroupSector bitmap }⟩

@[simp] theorem World.blockBitmap_rewritten (world : World) (bitmap : Sector) :
    (world.rewritten bitmap).blockBitmap = bitmap := by
  simp [rewritten, blockBitmap]

/-- What `allocate_sectors` comes to. -/
inductive Allocated (sectors : Nat) (world : World) : Except Fault (Option Nat × World) → Prop where
  | unread (failed : world.drive.outcome ≠ .done) :
      Allocated sectors world (.ok (none, ⟨world.cache, world.drive.tick⟩))
  | full (missing : ∀ start, ¬Enough sectors world.blockBitmap start) :
      Allocated sectors world (.ok (none, ⟨world.cache, world.drive.tick⟩))
  | unwritten (failed : world.drive.tick.outcome ≠ .done) :
      Allocated sectors world (.ok (none, ⟨world.cache, world.drive.tick.tick⟩))
  | reserved {start : Nat} {marked : Sector} (first : First sectors world.blockBitmap start)
      (marks : MarksFrom world.blockBitmap (start * 8) sectors marked)
      (read : world.drive.outcome = .done) (written : world.drive.tick.outcome = .done) :
      Allocated sectors world
        (.ok (some (start * 8 + (8 - leading world.blockBitmap start) + blockStartSector),
          world.rewritten marked))

/-- The call on a disk that delivers the bitmap. -/
theorem allocateSectors_read (read : world.drive.outcome = .done) : allocateSectors sectors world =
    let search := searchSectors sectors world.blockBitmap
    if search.sectorCount < sectors then .ok (none, ⟨world.cache, world.drive.tick⟩)
    else
      let write := world.drive.tick.write (markSectors sectors search.sectorPos world.blockBitmap)
        blockGroupStart
      .ok (match write.1 with
        | .error _ => none
        | .ok () => some (search.sectorPos * 8 + search.sectorBit + blockStartSector),
        ⟨world.cache, write.2⟩) := by
  have place : blockGroupStart / sectorSize = blockGroupSector := rfl
  simp only [allocateSectors, WnfsM.diskRead, Bind.bind, StateT.bind, Except.bind, Drive.read, read, place]
  by_cases few : (searchSectors sectors world.blockBitmap).sectorCount < sectors
  · rw [if_pos few, if_pos few]
    rfl
  · rw [if_neg few, if_neg few]
    simp only [StateT.bind, Bind.bind, Except.bind, Pure.pure, WnfsM.diskWrite]
    cases (world.drive.tick.write (markSectors sectors
      (searchSectors sectors world.blockBitmap).sectorPos world.blockBitmap) blockGroupStart).1 <;> rfl

theorem allocateSectors_allocated (positive : 0 < sectors) (reports : Reports world.drive) :
    Allocated sectors world (allocateSectors sectors world) := by
  cases read : world.drive.outcome with
  | failed reported left =>
    cases reported with
    | none => exact absurd read (reports _ _)
    | some error =>
      have answer : allocateSectors sectors world = .ok (none, ⟨world.cache, world.drive.tick⟩) := by
        simp only [allocateSectors, WnfsM.diskRead, Bind.bind, StateT.bind, Except.bind, Drive.read, read]
        rfl
      rw [answer]
      exact .unread (by simp [read])
  | done =>
    rw [allocateSectors_read read]
    simp only
    rcases searchSectors_spec positive world.blockBitmap with ⟨enough, first, bit⟩ | ⟨few, missing⟩
    · rw [if_neg (Nat.not_lt.mpr enough), bit]
      generalize (searchSectors sectors world.blockBitmap).sectorPos = start at first ⊢
      have marks := marksFrom_markSectors start sectors world.blockBitmap
      simp only [Drive.write]
      cases written : world.drive.tick.outcome with
      | done => exact .reserved first marks read written
      | failed reported left =>
        cases reported with
        | none => exact absurd written (reports _ _)
        | some error => exact .unwritten (by simp [written])
    · rw [if_pos few]
      exact .full missing

/-- Free sectors at the beginning of a byte are counted. -/
theorem le_trailing {i few : Nat} (low : few ≤ 8)
    (free : ∀ place < few, isClear bitmap (i * 8 + place) = true) : few ≤ trailing bitmap i := by
  have every : ∀ byte : Byte, ∀ few : Fin 9, (∀ place : Fin 8, place.val < few.val →
      (!byte.getLsbD place) = true) → few.val ≤ tzcnt16 byte := by decide +kernel
  refine every _ ⟨few, Nat.lt_succ_of_le low⟩ fun place below => ?_
  have here := free place below
  have byte : (i * 8 + place.val) / 8 = i := by omega
  have bit : (i * 8 + place.val) % 8 = place.val := by omega
  rwa [isClear, byte, bit] at here

/-- Consecutive free sectors from the top of a byte on are counted, as they are or as more. -/
theorem ClearFrom.counted {i : Nat} (clear : ClearFrom bitmap (i * 8 + (8 - leading bitmap i)) sectors) :
    CountsTo sectors bitmap i := by
  have few := leading_le bitmap i
  refine ⟨(sectors - leading bitmap i + 7) / 8, fun ahead below => ?_, ?_⟩
  · have bottom := clear ((i + ahead + 1) * 8) (by omega) (by omega)
    rwa [isClear, Nat.mul_mod_left, Nat.mul_div_cancel _ (by decide)] at bottom
  · have reaches : ∀ more, min (8 * more) (sectors - leading bitmap i) ≤
        ∑ ahead ∈ Finset.range more, trailing bitmap (i + ahead + 1) := by
      intro more
      induction more with
      | zero => simp
      | succ more ih =>
        have next : min 8 (sectors - leading bitmap i - 8 * more) ≤ trailing bitmap (i + more + 1) :=
          le_trailing (Nat.min_le_left _ _) fun place below => clear _ (by omega) (by omega)
        rw [Finset.sum_range_succ]
        omega
    have all := reaches ((sectors - leading bitmap i + 7) / 8)
    omega

/-- A call does not fault, it succeeds if and only if so many consecutive bits are clear, and
then they are clear from the sector on that it returns. -/
def World.SearchesExactly (world : World) (sectors : Nat) : Prop :=
  ∃ answer after, allocateSectors sectors world = .ok (answer, after) ∧
    (answer.isSome = true ↔ ∃ start, ClearFrom world.blockBitmap start sectors) ∧
    ∀ sector, answer = some sector → blockStartSector ≤ sector ∧
      ClearFrom world.blockBitmap (sector - blockStartSector) sectors

theorem allocateSectors_missing (working : world.drive.Reliable) (positive : 0 < sectors)
    (missing : ∀ start, ¬Enough sectors world.blockBitmap start) :
    allocateSectors sectors world = .ok (none, ⟨world.cache, world.drive.tick⟩) := by
  have allocated := allocateSectors_allocated positive (Reports.of_reliable working)
  generalize allocateSectors sectors world = result at allocated ⊢
  cases allocated with
  | unread failed => rfl
  | full missing => rfl
  | unwritten failed => exact absurd (working _) failed
  | reserved first marks read written => exact absurd first.enough (missing _)

/-- The search is exact if so many clear bits begin at the top of a byte in which a run can begin,
and no run that begins before is counted to be long enough; or if no run is, and there are no
such bits. -/
theorem allocateSectors_exact_iff (working : world.drive.Reliable) (positive : 0 < sectors) :
    world.SearchesExactly sectors ↔
      (∃ i, Begins world.blockBitmap i ∧
        ClearFrom world.blockBitmap (i * 8 + (8 - leading world.blockBitmap i)) sectors ∧
        NoneCounted sectors world.blockBitmap i) ∨
      NoneCounted sectors world.blockBitmap 512 ∧ ∀ start, ¬ClearFrom world.blockBitmap start sectors := by
  have allocated := allocateSectors_allocated positive (Reports.of_reliable working)
  unfold World.SearchesExactly
  generalize allocateSectors sectors world = result at allocated ⊢
  cases allocated with
  | unread failed => exact absurd working.outcome failed
  | unwritten failed => exact absurd (working _) failed
  | full missing =>
    constructor
    · rintro ⟨answer, after, same, exact, -⟩
      cases same
      refine .inr ⟨noneCounted_iff.mpr missing, fun start clear => ?_⟩
      cases exact.mpr ⟨start, clear⟩
    · rintro (⟨i, begins, clear, -⟩ | ⟨-, none⟩)
      · exact absurd (enough_iff.mpr ⟨begins, clear.counted⟩) (missing i)
      · refine ⟨_, _, rfl, iff_of_false Bool.false_ne_true ?_, nofun⟩
        rintro ⟨start, clear⟩
        exact none start clear
  | reserved first marks read written =>
    obtain ⟨begins, -, least⟩ := first_iff.mp first
    constructor
    · rintro ⟨answer, after, same, -, clear⟩
      cases same
      have found := (clear _ rfl).2
      rw [Nat.add_sub_cancel] at found
      exact .inl ⟨_, begins, found, least⟩
    · rintro (⟨i, begins', clear, least'⟩ | ⟨none, -⟩)
      · cases first.unique (first_iff.mpr ⟨begins', clear.counted, least'⟩)
        refine ⟨_, _, rfl, iff_of_true rfl ⟨_, clear⟩, ?_⟩
        rintro sector ⟨⟩
        rw [Nat.add_sub_cancel]
        exact ⟨Nat.le_add_left _ _, clear⟩
      · exact absurd first.enough (noneCounted_iff.mp none _)

theorem Begins.zero (top : topFree bitmap 0 = true) : Begins bitmap 0 where
  top := top
  turned := fun _ below => absurd below (Nat.not_lt_zero _)
  first := fun _ => rfl

theorem NoneCounted.zero (sectors : Nat) (bitmap : Sector) : NoneCounted sectors bitmap 0 :=
  fun _ below => absurd below (Nat.not_lt_zero _)

/-- Twelve sectors of a bitmap without marks. -/
theorem allocateSectors_exact_blank :
    World.SearchesExactly ⟨.constructed fun _ _ => 0, .blank⟩ 12 := by
  refine (allocateSectors_exact_iff (fun _ => rfl) (by decide)).mpr
    (.inl ⟨0, .zero (by decide), fun bit _ below => ?_, .zero _ _⟩)
  have lead : leading (fun _ => 0) 0 = 8 := by decide
  have inside : bit / 8 < 512 := by
    rw [show World.blockBitmap ⟨.constructed fun _ _ => 0, .blank⟩ = fun _ => 0 from rfl, lead] at below
    omega
  rw [isClear, bitmapByte, dif_pos inside]
  simp [World.blockBitmap, Drive.blank]

/-- Four free sectors in the middle of every byte are not found. -/
theorem not_allocateSectors_exact : ¬∀ (world : World) (sectors : Nat), world.drive.Reliable →
    1 ≤ sectors → sectors ≤ 4096 → world.SearchesExactly sectors := by
  intro claim
  let world : World := ⟨.constructed fun _ _ => 0, ⟨fun _ _ => 0xC3, fun _ => .done, 0⟩⟩
  have missing : ∀ start, ¬Enough 4 world.blockBitmap start := by
    rintro start ⟨more, counts, -⟩
    have leads := counts.leads
    rw [leading, bitmapByte] at leads
    split at leads
    · change 0 < lzcnt16 0xC3 - 8 at leads
      exact absurd leads (by decide)
    · exact absurd leads (by decide)
  obtain ⟨answer, after, ran, exact, -⟩ := claim world 4 (fun _ => rfl) (by decide) (by decide)
  rw [allocateSectors_missing (fun _ => rfl) (by decide) missing] at ran
  cases ran
  refine absurd (exact.mpr ⟨2, fun bit above below => ?_⟩) Bool.false_ne_true
  obtain rfl | rfl | rfl | rfl : bit = 2 ∨ bit = 3 ∨ bit = 4 ∨ bit = 5 := by omega
  all_goals decide

end WalnutOs.Wnfs
