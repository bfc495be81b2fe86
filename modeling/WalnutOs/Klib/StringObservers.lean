import WalnutOs.Klib.StringTokens
import Mathlib.Dynamics.PeriodicPts.Defs

/-! What `remainder` and `done` tell about the tokens that `next` has still to yield. -/

namespace WalnutOs.Klib.Str

open Lib

namespace Split

variable {string : Str} {split : Split} {start last : Nat} {rest : List (Nat × Nat)}

/-- The remainder is a suffix with the tokens ahead, and `done` tells whether there are any. -/
structure Agree (split : Split) (string : Str) : Prop where
  suffix : split.remainder.chars <:+ string.chars
  tokens : ∀ calls,
    ((split.remainder.split split.delimiter).after calls).next.1 = (split.after calls).next.1
  done : split.done = true ↔ ∀ calls, (split.after calls).next.1 = none

/-- The string that is split. -/
def original (split : Split) : Str := ⟨split.string, split.stop⟩

@[simp] theorem after_original (split : Split) (calls : Nat) :
    (split.after calls).original = split.original := by
  induction calls with
  | zero => rfl
  | succ calls ih => rw [after_succ', original, next_string, next_stop, ← ih, original]

@[simp] theorem after_delimiter (split : Split) (calls : Nat) :
    (split.after calls).delimiter = split.delimiter := by
  induction calls with
  | zero => rfl
  | succ calls ih => rw [after_succ', next_delimiter, ih]

theorem after_stop (calls : Nat) : (split.after calls).stop = split.stop :=
  congrArg Str.size (after_original split calls)

theorem after_separates (calls : Nat) : (split.after calls).separates = split.separates := by
  have same : (split.after calls).string = split.string := congrArg Str.string (after_original split calls)
  unfold separates
  rw [after_delimiter, same]

theorem Aligned.after (aligned : split.Aligned) (calls : Nat) : (split.after calls).Aligned := by
  induction calls with
  | zero => exact aligned
  | succ calls ih =>
    rw [after_succ']
    exact ih.next

theorem Fits.after (fits : split.Fits) (calls : Nat) : (split.after calls).Fits := by
  rwa [Fits, after_stop, after_separates]

theorem left_after (aligned : split.Aligned) (fits : split.Fits) (calls : Nat) :
    (split.after calls).left = split.left.drop calls := by
  induction calls with
  | zero => rfl
  | succ calls ih => rw [after_succ', left_next (aligned.after calls) (fits.after calls), ih, List.tail_drop]

theorem remainder_eq (split : Split) :
    split.remainder = ⟨fun i => split.string (split.pos.toNat + i), split.stop - split.pos⟩ := by
  rw [remainder, ofPointer]
  exact congrArg _ (BitVec.add_sub_cancel ..)

theorem len_remainder (inside : split.pos.toNat ≤ split.stop.toNat) :
    split.remainder.len = split.stop.toNat - split.pos.toNat := by
  rw [remainder_eq, len, BitVec.toNat_sub_of_le inside]

/-- Past the end, the length of the remainder wraps. -/
theorem len_remainder_of_past (past : split.stop.toNat < split.pos.toNat) :
    split.original.len < split.remainder.len := by
  have bound := split.pos.isLt
  rw [remainder_eq]
  change split.stop.toNat < (split.stop - split.pos).toNat
  rw [BitVec.toNat_sub]
  omega

theorem chars_remainder (inside : split.pos.toNat ≤ split.stop.toNat) :
    split.remainder.chars <:+ split.original.chars := by
  have parts : split.original.chars =
      (List.range split.pos.toNat).map split.string ++ split.remainder.chars := by
    rw [chars, chars, len_remainder inside, remainder_eq, original, len]
    conv_lhs => rw [← Nat.add_sub_cancel' inside, List.range_add, List.map_append, List.map_map]
    rfl
  exact ⟨_, parts.symm⟩

theorem left_eq_remainder (aligned : split.Aligned) (inside : split.pos.toNat ≤ split.stop.toNat) :
    split.left = (split.remainder.tokens split.delimiter).map
      fun token => (split.pos.toNat + token.1, split.pos.toNat + token.2) := by
  rw [tokens, len_remainder inside, remainder_eq]
  rcases aligned with atEnd | boundary
  · rw [left, Tokens.runs_of_le atEnd, Tokens.runs_of_le (by omega), List.map_nil]
  · exact Tokens.runs_shift boundary

theorem substr_remainder (split : Split) (start last : Nat) :
    substr split.remainder.string start last =
      substr split.string (split.pos.toNat + start) (split.pos.toNat + last) := by
  rw [remainder_eq, substr, substr, Nat.add_sub_add_left]
  simp only [Nat.add_assoc]

/-- Splitting the remainder yields what further calls do, as long as no position wraps. -/
theorem next_remainder (aligned : split.Aligned) (fits : split.Fits)
    (inside : split.pos.toNat ≤ split.stop.toNat) (calls : Nat) :
    ((split.remainder.split split.delimiter).after calls).next.1 = (split.after calls).next.1 := by
  have length := len_remainder inside
  have again : (split.remainder.split split.delimiter).Fits := by
    rw [Fits, show (split.remainder.split split.delimiter).stop.toNat = split.remainder.len from rfl, length]
    rcases Nat.eq_or_lt_of_le inside with atEnd | before
    · exact .inl (by omega)
    · refine fits.imp (by omega) fun closed => ?_
      have place : split.pos.toNat + (split.stop.toNat - split.pos.toNat - 1) = split.stop.toNat - 1 := by
        omega
      rw [← place] at closed
      exact remainder_eq split ▸ closed
  rw [next_after (split_aligned ..) again, next_after aligned fits, split_left,
    left_eq_remainder aligned inside, List.getElem?_map, Option.map_map]
  congr 1
  funext token
  exact substr_remainder ..

theorem done_iff (split : Split) : split.done = true ↔ split.stop.toNat ≤ split.pos.toNat := by
  simp [done, BitVec.le_def]

/-- No call yields a token where none is ahead. -/
theorem next_eq_none (aligned : split.Aligned) (fits : split.Fits) :
    (∀ calls, (split.after calls).next.1 = none) ↔ split.left = [] := by
  constructor
  · intro never
    have first := never 0
    rw [next_after aligned fits, Option.map_eq_none_iff, List.getElem?_eq_none_iff] at first
    exact List.length_eq_zero_iff.mp (Nat.le_zero.mp first)
  · intro nothing calls
    rw [next_after aligned fits, nothing]
    rfl

/-- Ahead of a token everything agrees. -/
theorem agree_of_cons (aligned : split.Aligned) (fits : split.Fits) (more : split.left ≠ []) :
    split.Agree split.original := by
  have inside : split.pos.toNat < split.stop.toNat := by
    by_contra atEnd
    exact more (Tokens.runs_of_le (Nat.le_of_not_lt atEnd))
  refine ⟨chars_remainder (Nat.le_of_lt inside), next_remainder aligned fits (Nat.le_of_lt inside), ?_⟩
  rw [done_iff, next_eq_none aligned fits]
  exact iff_of_false (Nat.not_le_of_lt inside) more

/-- Behind all tokens the position has to be the end of the string. -/
theorem agree_iff_of_nil (aligned : split.Aligned) (fits : split.Fits) (nothing : split.left = []) :
    split.Agree split.original ↔ split.pos.toNat = split.stop.toNat := by
  have none := (next_eq_none aligned fits).mpr nothing
  constructor
  · intro agree
    apply Nat.le_antisymm
    · by_contra past
      have longer := len_remainder_of_past (Nat.lt_of_not_le past)
      have shorter := agree.suffix.length_le
      simp only [chars, List.length_map, List.length_range] at shorter
      omega
    · rw [← done_iff, agree.done]
      exact none
  · intro atEnd
    have inside := Nat.le_of_eq atEnd
    refine ⟨chars_remainder inside, next_remainder aligned fits inside, ?_⟩
    rw [done_iff, next_eq_none aligned fits]
    exact iff_of_true (Nat.le_of_eq atEnd.symm) nothing

theorem pos_of_nil (aligned : split.Aligned) (nothing : split.left = []) :
    split.next.2.pos.toNat = max split.pos.toNat split.stop.toNat := by
  rw [next_of_nil aligned nothing]
  dsimp only
  split
  · exact (Nat.max_eq_left (by assumption)).symm
  · exact (Nat.max_eq_right (Nat.le_of_not_le (by assumption))).symm

theorem pos_after_nil (aligned : split.Aligned) (fits : split.Fits) (nothing : split.left = [])
    (calls : Nat) :
    (split.after (calls + 1)).pos.toNat = max split.pos.toNat split.stop.toNat := by
  induction calls with
  | zero => exact pos_of_nil aligned nothing
  | succ calls ih =>
    have still : (split.after (calls + 1)).left = [] := by
      rw [left_after aligned fits, nothing, List.drop_nil]
    rw [after_succ', pos_of_nil (aligned.after _) still, ih, after_stop, Nat.max_assoc, Nat.max_self]

/-- The call that returns the last token leaves the position just past its end. -/
theorem pos_after_left (aligned : split.Aligned) (fits : split.Fits) (more : split.left ≠ []) :
    ∃ start last, Tokens.IsRun split.separates split.stop.toNat start last ∧
      Tokens.runs split.separates (last + 1) split.stop.toNat = [] ∧
      (split.after split.left.length).pos.toNat = last + 1 := by
  obtain ⟨count, length⟩ := Nat.exists_eq_add_one.mpr (List.length_pos_iff.mpr more)
  have ahead := left_after aligned fits count
  obtain ⟨⟨start, last⟩, only⟩ : ∃ token, split.left.drop count = [token] := by
    rw [← List.length_eq_one_iff, List.length_drop]
    omega
  rw [only] at ahead
  obtain ⟨called, behind⟩ := next_of_cons (aligned.after count) ahead
  have run := run_of_cons ahead
  have small := (fits.after count).last_lt ahead
  rw [after_separates, after_stop] at run behind
  refine ⟨start, last, run, behind.symm, ?_⟩
  rw [length, after_succ', called]
  exact toNat_place small

end Split

open Split

/-- When the observers of a `Split` agree after some calls of `next`. -/
def Settled (string : Str) (ch : Ch) (calls : Nat) : Prop :=
  if string.len = 2 ^ 32 - 1 ∧ string.string (string.len - 1) ≠ ch then
    calls = 0 ∧ string.string 0 ≠ ch ∨ calls ≠ 0 ∧ calls % (string.tokens ch).length = 0
  else
    (string.tokens ch).length = 0 ∨ calls < (string.tokens ch).length ∨
      string.string (string.len - 1) = ch ∧
        ((string.tokens ch).length < calls ∨ string.string (string.len - 2) ≠ ch)

variable {string : Str} {ch : Ch} {calls : Nat}

theorem split_pos_of_nil (nothing : string.tokens ch = []) :
    (string.split ch).pos.toNat = string.len := by
  obtain ⟨bound, -, holds⟩ := split_pos string ch
  rcases Nat.eq_or_lt_of_le bound with atEnd | before
  · exact atEnd
  · have boundary := (split_aligned string ch).resolve_left (Nat.not_le_of_lt before)
    have separator := Tokens.all_of_runs_eq_nil boundary ((split_left string ch).trans nothing)
      (Nat.le_refl _) before
    exact holds.resolve_right fun other => other (of_decide_eq_true separator)

/-- Behind the last token: the position is the end of the string once the only
delimiter there, or any further call, has brought it there. -/
theorem pos_behind (fits : (string.split ch).Fits) (more : string.tokens ch ≠ [])
    (behind : (string.tokens ch).length ≤ calls) :
    ((string.split ch).after calls).pos.toNat = string.len ↔
      string.string (string.len - 1) = ch ∧
        ((string.tokens ch).length < calls ∨ string.string (string.len - 2) ≠ ch) := by
  have aligned := split_aligned string ch
  have ahead := split_left string ch
  obtain ⟨start, last, run, nothing, pos⟩ := pos_after_left aligned fits (ahead ▸ more)
  rw [ahead] at pos
  have inside : last ≤ string.len := run.inside
  have nonempty := run.nonempty
  have behind_last {place : Nat} (low : last ≤ place) (high : place < string.len) :
      string.string place = ch :=
    of_decide_eq_true (run.all_behind nothing low high)
  have closed : string.string (string.len - 1) = ch ↔ last < string.len := by
    constructor
    · intro separator
      exact run.last_lt (decide_eq_true separator)
    · intro before
      exact behind_last (by omega) (by omega)
  have single (before : last < string.len) : string.string (string.len - 2) ≠ ch ↔ last + 1 = string.len := by
    constructor
    · intro other
      by_contra longer
      exact other (behind_last (by omega) (by omega))
    · intro atEnd
      exact of_decide_eq_false (run.clear (string.len - 2) (by omega) (by omega))
  rw [closed]
  rcases Nat.eq_or_lt_of_le behind with rfl | later
  · rw [pos, or_iff_right (Nat.lt_irrefl _)]
    constructor
    · intro atEnd
      have before : last < string.len := by omega
      exact ⟨before, (single before).mpr atEnd⟩
    · rintro ⟨before, other⟩
      exact (single before).mp other
  · obtain ⟨extra, rfl⟩ := Nat.exists_eq_add_of_lt later
    have none : ((string.split ch).after (string.tokens ch).length).left = [] := by
      rw [left_after aligned fits, ahead, List.drop_length]
    rw [Nat.add_assoc, after_add, pos_after_nil (aligned.after _) (fits.after _) none, pos, after_stop]
    change max (last + 1) string.len = string.len ↔ _
    omega

theorem agree_iff_of_fits (fits : (string.split ch).Fits) :
    ((string.split ch).after calls).Agree string ↔
      (string.tokens ch).length = 0 ∨ calls < (string.tokens ch).length ∨
        string.string (string.len - 1) = ch ∧
          ((string.tokens ch).length < calls ∨ string.string (string.len - 2) ≠ ch) := by
  have aligned := split_aligned string ch
  have ahead := left_after aligned fits calls
  rw [split_left] at ahead
  have same : ((string.split ch).after calls).original = string := after_original _ calls
  rcases Nat.lt_or_ge calls (string.tokens ch).length with before | behind
  · have more : ((string.split ch).after calls).left ≠ [] := by
      rw [ahead, ne_eq, List.drop_eq_nil_iff]
      omega
    have agree := agree_of_cons (aligned.after calls) (fits.after calls) more
    rw [same] at agree
    exact iff_of_true agree (.inr (.inl before))
  · have nothing : ((string.split ch).after calls).left = [] := by rwa [ahead, List.drop_eq_nil_iff]
    have settled : ((string.split ch).after calls).Agree string ↔
        ((string.split ch).after calls).pos.toNat = string.len := by
      have settled := agree_iff_of_nil (aligned.after calls) (fits.after calls) nothing
      rwa [same, after_stop] at settled
    rw [settled, or_iff_right (Nat.not_lt_of_le behind)]
    by_cases empty : string.tokens ch = []
    · apply iff_of_true _ (.inl (List.length_eq_zero_iff.mpr empty))
      have pos := split_pos_of_nil empty
      cases calls with
      | zero => exact pos
      | succ calls =>
        rw [pos_after_nil aligned fits ((split_left string ch).trans empty), pos]
        exact Nat.max_self _
    · rw [pos_behind fits empty behind, or_iff_right fun none => empty (List.length_eq_zero_iff.mp none)]

section Wrapping

variable {split : Split}

theorem not_fits_iff : ¬ split.Fits ↔
    split.stop.toNat = 2 ^ 32 - 1 ∧ split.separates (split.stop.toNat - 1) = false := by
  have bound := split.stop.isLt
  rw [Fits, not_or, Bool.not_eq_true]
  exact and_congr_left fun _ => by omega

/-- The last character of a longest string is never passed. -/
theorem left_ne_nil_of_wrap (aligned : split.Aligned) (wraps : ¬ split.Fits)
    (inside : split.pos.toNat < split.stop.toNat) : split.left ≠ [] := by
  intro nothing
  have boundary := aligned.resolve_left (Nat.not_le_of_lt inside)
  have separator := Tokens.all_of_runs_eq_nil boundary nothing
    (show split.pos.toNat ≤ split.stop.toNat - 1 by omega) (by omega)
  rw [(not_fits_iff.mp wraps).2] at separator
  cases separator

/-- The position after the next token: behind it, or the start again. -/
theorem next_of_wrap (aligned : split.Aligned) (wraps : ¬ split.Fits)
    (inside : split.pos.toNat < split.stop.toNat) :
    split.next.1 ≠ none ∧ split.next.2.pos.toNat < split.stop.toNat ∧
      (split.left.tail = [] → split.next.2.pos.toNat = 0) ∧
      (split.left.tail ≠ [] → split.next.2.pos.toNat ≠ 0 ∧ split.next.2.left = split.left.tail) := by
  obtain ⟨⟨start, last⟩, rest, ahead⟩ := List.exists_cons_of_ne_nil (left_ne_nil_of_wrap aligned wraps inside)
  obtain ⟨called, behind⟩ := next_of_cons aligned ahead
  obtain ⟨longest, opened⟩ := not_fits_iff.mp wraps
  have run := run_of_cons ahead
  rw [called, ahead, List.tail_cons]
  refine ⟨nofun, ?_⟩
  rcases Nat.eq_or_lt_of_le run.inside with atEnd | before
  · have full : last + 1 = 2 ^ 32 := by omega
    have start : (BitVec.ofNat 32 (last + 1)).toNat = 0 := by simp [full]
    have none : rest = [] := behind.trans (Tokens.runs_of_le (by omega))
    exact ⟨by simp only [start]; omega, fun _ => start, fun more => absurd none more⟩
  · have separator := run.right.resolve_left (Nat.ne_of_lt before)
    have apart : last ≠ split.stop.toNat - 1 := by
      rintro rfl
      rw [opened] at separator
      cases separator
    have pos : (BitVec.ofNat 32 (last + 1)).toNat = last + 1 := toNat_place (by omega)
    have more : rest ≠ [] := by
      intro nothing
      have closed := run.all_behind (behind.symm.trans nothing) (show last ≤ split.stop.toNat - 1 by omega)
        (by omega)
      rw [opened] at closed
      cases closed
    refine ⟨by simp only [pos]; omega, fun none => absurd none more, fun _ => ⟨by simp only [pos]; omega, ?_⟩⟩
    rw [behind, left]
    simp only [pos]
    rfl

theorem not_fits_after (wraps : ¬ split.Fits) (calls : Nat) : ¬ (split.after calls).Fits := by
  rwa [Fits, after_stop, after_separates]

section

variable (aligned : split.Aligned) (wraps : ¬ split.Fits) (inside : split.pos.toNat < split.stop.toNat)

include aligned wraps inside

theorem pos_after_of_wrap (calls : Nat) : (split.after calls).pos.toNat < split.stop.toNat := by
  induction calls with
  | zero => exact inside
  | succ calls ih =>
    have step := next_of_wrap (aligned.after calls) (not_fits_after wraps calls)
    rw [after_stop] at step
    rw [after_succ']
    exact (step ih).2.1

theorem next_after_of_wrap (calls : Nat) : (split.after calls).next.1 ≠ none := by
  have step := next_of_wrap (aligned.after calls) (not_fits_after wraps calls)
  rw [after_stop] at step
  exact (step (pos_after_of_wrap aligned wraps inside calls)).1

/-- Up to the last token the tokens are returned one after the other. -/
theorem after_of_wrap {calls : Nat} (before : calls < split.left.length) :
    (split.after calls).left = split.left.drop calls ∧
      (calls ≠ 0 → (split.after calls).pos.toNat ≠ 0) := by
  induction calls with
  | zero => exact ⟨rfl, fun none => absurd rfl none⟩
  | succ calls ih =>
    obtain ⟨ahead, -⟩ := ih (Nat.lt_of_succ_lt before)
    have step := next_of_wrap (aligned.after calls) (not_fits_after wraps calls)
    rw [after_stop, ahead, List.tail_drop] at step
    have more : split.left.drop (calls + 1) ≠ [] := by
      rw [ne_eq, List.drop_eq_nil_iff]
      omega
    obtain ⟨moved, rest⟩ := (step (pos_after_of_wrap aligned wraps inside calls)).2.2.2 more
    rw [after_succ']
    exact ⟨rest, fun _ => moved⟩

/-- The call that returns the last token begins anew. -/
theorem after_left_of_wrap : (split.after split.left.length).pos.toNat = 0 := by
  have some := List.length_pos_iff.mpr (left_ne_nil_of_wrap aligned wraps inside)
  obtain ⟨count, length⟩ := Nat.exists_eq_add_one.mpr some
  obtain ⟨ahead, -⟩ := after_of_wrap aligned wraps inside (show count < split.left.length by omega)
  have step := next_of_wrap (aligned.after count) (not_fits_after wraps count)
  rw [after_stop, ahead, List.tail_drop] at step
  have none : split.left.drop (count + 1) = [] := by
    rw [List.drop_eq_nil_iff]
    omega
  rw [length, after_succ']
  exact (step (pos_after_of_wrap aligned wraps inside count)).2.2.1 none

end

/-- What a call does depends on the tokens ahead only. -/
theorem next_congr {other : Split} (aligned : split.Aligned) (aligned' : other.Aligned)
    (same : split.original = other.original) (delimiter : split.delimiter = other.delimiter)
    (ahead : split.left = other.left) (more : split.left ≠ []) : split.next = other.next := by
  obtain ⟨⟨start, last⟩, rest, first⟩ := List.exists_cons_of_ne_nil more
  obtain ⟨string, pos, stop, ch⟩ := split
  obtain ⟨string', pos', stop', ch'⟩ := other
  obtain ⟨rfl, rfl⟩ := Str.mk.inj same
  cases delimiter
  rw [(next_of_cons aligned first).1, (next_of_cons aligned' (ahead ▸ first)).1]

/-- On a longest string the observers agree at its start only: what is left behind any
other position is split once, while the calls begin anew. -/
theorem agree_iff_of_wrap (aligned : split.Aligned) (wraps : ¬ split.Fits)
    (inside : split.pos.toNat < split.stop.toNat) :
    split.Agree split.original ↔ split.pos.toNat = 0 := by
  have more := left_ne_nil_of_wrap aligned wraps inside
  have always := next_after_of_wrap aligned wraps inside
  constructor
  · intro agree
    by_contra later
    have length := len_remainder (Nat.le_of_lt inside)
    have bound := split.stop.isLt
    have fits : (split.remainder.split split.delimiter).Fits := by
      left
      change split.remainder.len + 1 < _
      omega
    apply always (split.remainder.tokens split.delimiter).length
    rw [← agree.tokens, next_after (split_aligned ..) fits, split_left, List.getElem?_length]
    rfl
  · intro start
    have whole : split.remainder = split.original := by
      have zero : split.pos = 0#32 := BitVec.eq_of_toNat_eq start
      rw [remainder_eq, start, original, zero, BitVec.sub_zero]
      simp only [Nat.zero_add]
    have ahead : split.left = split.original.tokens split.delimiter := by
      rw [left, start]
      rfl
    have first : (split.original.split split.delimiter).next = split.next := by
      apply next_congr (split_aligned ..) aligned rfl rfl
      · rw [split_left, ahead]
      · rwa [split_left, ← ahead]
    refine ⟨whole ▸ List.suffix_refl _, fun calls => ?_, ?_⟩
    · rw [whole]
      cases calls with
      | zero => exact congrArg Prod.fst first
      | succ calls => rw [after_succ, after_succ, first]
    · rw [done_iff]
      exact iff_of_false (Nat.not_le_of_lt inside) fun none => always 0 (none 0)

theorem pos_of_wrap (wraps : ¬ (string.split ch).Fits) :
    (string.split ch).pos.toNat < string.len ∧
      ((string.split ch).pos.toNat = 0 ↔ string.string 0 ≠ ch) := by
  obtain ⟨bound, skipped, holds⟩ := split_pos string ch
  obtain ⟨longest, opened⟩ := not_fits_iff.mp wraps
  change string.len = 2 ^ 32 - 1 at longest
  change decide (string.string (string.len - 1) = ch) = false at opened
  have inside : (string.split ch).pos.toNat < string.len := by
    apply Nat.lt_of_le_of_ne bound
    intro atEnd
    exact of_decide_eq_false opened (skipped (string.len - 1) (by omega))
  refine ⟨inside, ?_⟩
  constructor
  · intro start
    rw [start] at holds
    exact holds.resolve_left (by omega)
  · intro other
    by_contra later
    exact other (skipped 0 (Nat.pos_of_ne_zero later))

/-- A split of the string that has not skipped the first delimiters. -/
def rewound (string : Str) (ch : Ch) : Split := { string.split ch with pos := 0 }

theorem pos_after_rewound (wraps : ¬ (string.split ch).Fits) :
    ((rewound string ch).after calls).pos.toNat = 0 ↔ calls % (string.tokens ch).length = 0 := by
  have aligned : (rewound string ch).Aligned := .inr (.inl rfl)
  have still : ¬ (rewound string ch).Fits := wraps
  have inside : (rewound string ch).pos.toNat < (rewound string ch).stop.toNat :=
    Nat.zero_lt_of_lt (pos_of_wrap wraps).1
  have ahead : (rewound string ch).left = string.tokens ch := rfl
  have periodic : Function.IsPeriodicPt (fun split : Split => split.next.2) (string.tokens ch).length
      (rewound string ch) := by
    have start := after_left_of_wrap aligned still inside
    have same := after_original (rewound string ch) (string.tokens ch).length
    have delimiter := after_delimiter (rewound string ch) (string.tokens ch).length
    rw [ahead] at start
    change (rewound string ch).after (string.tokens ch).length = rewound string ch
    generalize (rewound string ch).after (string.tokens ch).length = turned at start same delimiter
    obtain ⟨characters, pos, stop, separator⟩ := turned
    obtain ⟨rfl, rfl⟩ := Str.mk.inj same
    cases delimiter
    have zero : pos = 0#32 := BitVec.eq_of_toNat_eq start
    rw [zero]
    rfl
  have turns : (rewound string ch).after calls =
      (rewound string ch).after (calls % (string.tokens ch).length) :=
    (periodic.iterate_mod_apply calls).symm
  have some := List.length_pos_iff.mpr (left_ne_nil_of_wrap aligned still inside)
  rw [ahead] at some
  have moved := (after_of_wrap aligned still inside (ahead ▸ Nat.mod_lt calls some)).2
  rw [turns]
  constructor
  · intro start
    by_contra later
    exact moved later start
  · intro full
    rw [full]
    rfl

theorem agree_iff_of_not_fits (wraps : ¬ (string.split ch).Fits) :
    ((string.split ch).after calls).Agree string ↔
      calls = 0 ∧ string.string 0 ≠ ch ∨ calls ≠ 0 ∧ calls % (string.tokens ch).length = 0 := by
  have aligned := split_aligned string ch
  obtain ⟨inside, start⟩ := pos_of_wrap wraps
  have within := pos_after_of_wrap aligned wraps inside calls
  rw [← after_stop calls] at within
  have same : ((string.split ch).after calls).original = string := after_original _ calls
  have agree := agree_iff_of_wrap (aligned.after calls) (not_fits_after wraps calls) within
  rw [same] at agree
  rw [agree]
  cases calls with
  | zero => simpa using start
  | succ calls =>
    have first : (string.split ch).next = (rewound string ch).next :=
      next_congr aligned (.inr (.inl rfl)) rfl rfl (split_left string ch)
        (left_ne_nil_of_wrap aligned wraps inside)
    rw [after_succ, first, ← after_succ, pos_after_rewound wraps]
    simp

end Wrapping

/-- After any number of calls the observers agree exactly when the position has come to
rest: not past the end, and not before delimiters with no token behind them. -/
theorem split_observers_agree_iff (string : Str) (ch : Ch) (calls : Nat) :
    ((string.split ch).after calls).Agree string ↔ Settled string ch calls := by
  have fits : ¬ (string.split ch).Fits ↔ string.len = 2 ^ 32 - 1 ∧ string.string (string.len - 1) ≠ ch := by
    rw [not_fits_iff]
    exact and_congr_right fun _ => decide_eq_false_iff_not
  unfold Settled
  split
  · exact agree_iff_of_not_fits (fits.mpr (by assumption))
  · exact agree_iff_of_fits (not_not.mp fun wraps => absurd (fits.mp wraps) (by assumption))

/-- After the only token of `"a"`, the remainder is 2^32 - 1 characters long. -/
theorem split_observers_disagree :
    ¬ (((literal [0x61]).split 0x20).after 1).Agree (literal [0x61]) := by
  intro agree
  have shorter := agree.suffix.length_le
  simp only [chars, List.length_map, List.length_range] at shorter
  revert shorter
  decide

end WalnutOs.Klib.Str
