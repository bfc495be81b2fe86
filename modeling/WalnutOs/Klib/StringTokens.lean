import WalnutOs.Klib.Strings
import WalnutOs.Lib.Tokens
import Mathlib.Algebra.Group.Nat.Defs
import Mathlib.Logic.Function.Iterate

/-! The tokens that `str::Split` yields, call after call. -/

namespace WalnutOs.Klib.Str

open Lib

/-- The characters from `start` up to `last`, in place. -/
def substr (string : Nat → Ch) (start last : Nat) : Str :=
  ⟨fun i => string (start + i), BitVec.ofNat 32 (last - start)⟩

/-- Where the tokens of a string begin and end. -/
def tokens (string : Str) (ch : Ch) : List (Nat × Nat) :=
  Tokens.runs (fun i => string.string i = ch) 0 string.len

theorem toNat_place {place : Nat} (small : place < 2 ^ 32) : (BitVec.ofNat 32 place).toNat = place := by
  rw [BitVec.toNat_ofNat, Nat.mod_eq_of_lt small]

theorem ofPointer_succ (string : Nat → Ch) (size : Nat) :
    ofPointer string (BitVec.ofNat 32 (size + 1)) = ⟨string, BitVec.ofNat 32 size⟩ := by
  rw [ofPointer, BitVec.ofNat_add]
  exact congrArg _ (BitVec.add_sub_cancel ..)

theorem scan_ne (string : Nat → Ch) (ch : Ch) (pos stop : Nat) :
    scan (fun i => string i ≠ ch) pos stop =
      Tokens.firstFrom (fun i => !decide (string i = ch)) pos stop := by
  simp only [scan, Tokens.firstFrom, ne_eq, decide_not]

namespace Split

variable {split : Split} {start last : Nat} {rest : List (Nat × Nat)}

/-- The state after some calls of `next`. -/
def after (calls : Nat) (split : Split) : Split := (fun split => split.next.2)^[calls] split

@[simp] theorem after_zero : split.after 0 = split := rfl

theorem after_succ (calls : Nat) : split.after (calls + 1) = split.next.2.after calls := rfl

theorem after_succ' (calls : Nat) : split.after (calls + 1) = (split.after calls).next.2 :=
  Function.iterate_succ_apply' ..

theorem after_add (calls more : Nat) : split.after (calls + more) = (split.after calls).after more := by
  rw [Nat.add_comm]
  exact Function.iterate_add_apply ..

def separates (split : Split) (place : Nat) : Bool := split.string place = split.delimiter

/-- The tokens ahead. -/
def left (split : Split) : List (Nat × Nat) :=
  Tokens.runs split.separates split.pos.toNat split.stop.toNat

/-- The position is not inside of a token. -/
def Aligned (split : Split) : Prop :=
  split.stop.toNat ≤ split.pos.toNat ∨ Tokens.Boundary split.separates split.pos.toNat

/-- The position past the last token fits its 32 bits. -/
def Fits (split : Split) : Prop :=
  split.stop.toNat + 1 < 2 ^ 32 ∨ split.separates (split.stop.toNat - 1) = true

theorem next_moves : ∃ pos, split.next.2 = { split with pos := pos } := by
  unfold next
  dsimp only
  split
  · exact ⟨split.pos, rfl⟩
  · split <;> exact ⟨_, rfl⟩

@[simp] theorem next_string : split.next.2.string = split.string := by
  obtain ⟨pos, moved⟩ := split.next_moves
  rw [moved]

@[simp] theorem next_stop : split.next.2.stop = split.stop := by
  obtain ⟨pos, moved⟩ := split.next_moves
  rw [moved]

@[simp] theorem next_delimiter : split.next.2.delimiter = split.delimiter := by
  obtain ⟨pos, moved⟩ := split.next_moves
  rw [moved]

@[simp] theorem next_separates : split.next.2.separates = split.separates := by
  unfold separates
  rw [next_string, next_delimiter]

theorem pos_of_left_cons (more : split.left = (start, last) :: rest) :
    split.pos.toNat < split.stop.toNat := by
  by_contra atEnd
  rw [left, Tokens.runs_of_le (Nat.le_of_not_lt atEnd)] at more
  cases more

/-- Where the loop that skips delimiters ends, and what is ahead then. -/
theorem skip_cases (aligned : split.Aligned) (inside : split.pos.toNat < split.stop.toNat) :
    (scan (fun i => split.string i ≠ split.delimiter) split.pos.toNat split.stop.toNat =
        split.stop.toNat ∧ split.left = []) ∨
      ∃ start last, start < last ∧ last ≤ split.stop.toNat ∧
        scan (fun i => split.string i ≠ split.delimiter) split.pos.toNat split.stop.toNat = start ∧
        scan (fun i => split.string i = split.delimiter) start split.stop.toNat = last ∧
        split.left = (start, last) :: Tokens.runs split.separates (last + 1) split.stop.toNat := by
  have boundary := aligned.resolve_left (Nat.not_le_of_lt inside)
  rw [scan_ne]
  obtain ⟨-, high, -⟩ := Tokens.firstFrom_spec
    (fun i => !decide (split.string i = split.delimiter)) (Nat.le_of_lt inside)
  rcases Nat.eq_or_lt_of_le high with atEnd | more
  · exact .inl ⟨atEnd, Tokens.runs_eq_nil atEnd⟩
  · have ahead := Tokens.runs_cons boundary (Nat.le_of_lt inside) rfl more rfl
    have run := (Tokens.mem_runs.mp (ahead ▸ List.mem_cons_self)).2
    exact .inr ⟨_, _, run.nonempty, run.inside, rfl, rfl, ahead⟩

theorem next_of_cons (aligned : split.Aligned) (more : split.left = (start, last) :: rest) :
    split.next = (some (substr split.string start last), { split with pos := BitVec.ofNat 32 (last + 1) }) ∧
      rest = Tokens.runs split.separates (last + 1) split.stop.toNat := by
  have inside := pos_of_left_cons more
  rcases skip_cases aligned inside with ⟨-, none⟩ | ⟨start', last', nonempty, bound, skipped, ends, ahead⟩
  · rw [more] at none
    cases none
  · rw [more, List.cons.injEq, Prod.mk.injEq] at ahead
    obtain ⟨⟨rfl, rfl⟩, rest⟩ := ahead
    refine ⟨?_, rest⟩
    rw [next, if_neg (by simpa [BitVec.le_def] using inside)]
    simp only [skipped, ends]
    rw [if_neg (by omega), ofPointer_succ, substr]

theorem next_of_nil (aligned : split.Aligned) (none : split.left = []) :
    split.next = (.none, if split.pos ≥ split.stop then split else { split with pos := split.stop }) := by
  by_cases atEnd : split.pos ≥ split.stop
  · rw [next, if_pos atEnd, if_pos atEnd]
  · have inside : split.pos.toNat < split.stop.toNat := by simpa [BitVec.le_def] using atEnd
    rcases skip_cases aligned inside with ⟨skipped, -⟩ | ⟨start, last, -, -, -, -, ahead⟩
    · rw [next, if_neg atEnd, if_neg atEnd]
      simp only [skipped, if_true]
    · rw [none] at ahead
      cases ahead

theorem run_of_cons (more : split.left = (start, last) :: rest) :
    Tokens.IsRun split.separates split.stop.toNat start last :=
  (Tokens.mem_runs.mp (more ▸ List.mem_cons_self)).2

theorem Fits.last_lt (fits : split.Fits) (more : split.left = (start, last) :: rest) :
    last + 1 < 2 ^ 32 := by
  have inside := (run_of_cons more).inside
  rcases fits with small | closed
  · omega
  · have := (run_of_cons more).last_lt closed
    omega

theorem Aligned.next (aligned : split.Aligned) : split.next.2.Aligned := by
  rcases ahead : split.left with _ | ⟨⟨start, last⟩, rest⟩
  · rw [next_of_nil aligned ahead]
    dsimp only
    split
    · exact aligned
    · exact .inl (Nat.le_refl _)
  · have run := run_of_cons ahead
    have inside := run.inside
    have bound := split.stop.isLt
    rw [(next_of_cons aligned ahead).1]
    unfold Aligned
    rcases Nat.lt_or_ge (last + 1) (2 ^ 32) with small | wraps
    · have pos : (BitVec.ofNat 32 (last + 1)).toNat = last + 1 := toNat_place small
      rcases run.right with atEnd | separator
      · exact .inl (by simp only [pos]; omega)
      · refine .inr (.inr ?_)
        simp only [pos, Nat.add_sub_cancel]
        exact separator
    · have full : last + 1 = 2 ^ 32 := by omega
      exact .inr (.inl (by simp [full]))

/-- One call takes the first token. -/
theorem left_next (aligned : split.Aligned) (fits : split.Fits) :
    split.next.2.left = split.left.tail := by
  rcases ahead : split.left with _ | ⟨⟨start, last⟩, rest⟩
  · rw [next_of_nil aligned ahead]
    dsimp only
    split
    · exact ahead
    · exact Tokens.runs_of_le (Nat.le_refl _)
  · obtain ⟨called, tail⟩ := next_of_cons aligned ahead
    rw [called, List.tail_cons, tail]
    have pos : (BitVec.ofNat 32 (last + 1)).toNat = last + 1 :=
      toNat_place (fits.last_lt ahead)
    simp only [left, pos]
    rfl

theorem Fits.next (fits : split.Fits) : split.next.2.Fits := by
  rwa [Fits, next_stop, next_separates]

/-- The calls return the tokens ahead, one after the other, and then none. -/
theorem next_after (aligned : split.Aligned) (fits : split.Fits) (calls : Nat) :
    (split.after calls).next.1 =
      (split.left[calls]?).map fun token => substr split.string token.1 token.2 := by
  induction calls generalizing split with
  | zero =>
    rw [after_zero]
    rcases ahead : split.left with _ | ⟨⟨start, last⟩, rest⟩
    · rw [next_of_nil aligned ahead]
      rfl
    · rw [(next_of_cons aligned ahead).1]
      rfl
  | succ calls ih =>
    rw [after_succ, ih aligned.next fits.next, left_next aligned fits, next_string, List.getElem?_tail]

end Split

/-- The constructor skips the delimiters at the start. -/
theorem split_pos (string : Str) (ch : Ch) :
    (string.split ch).pos.toNat ≤ string.len ∧
      (∀ place < (string.split ch).pos.toNat, string.string place = ch) ∧
      ((string.split ch).pos.toNat = string.len ∨ string.string (string.split ch).pos.toNat ≠ ch) := by
  obtain ⟨-, high, skipped, holds⟩ :=
    Tokens.firstFrom_spec (fun i => !decide (string.string i = ch)) (Nat.zero_le string.len)
  have bound := string.size.isLt
  have pos : (string.split ch).pos.toNat =
      Tokens.firstFrom (fun i => !decide (string.string i = ch)) 0 string.len := by
    rw [split, scan_ne]
    exact toNat_place (Nat.lt_of_le_of_lt high bound)
  rw [pos]
  refine ⟨high, fun place before => ?_, ?_⟩
  · simpa using skipped place (Nat.zero_le place) before
  · simpa using holds

theorem split_aligned (string : Str) (ch : Ch) : (string.split ch).Aligned := by
  obtain ⟨-, skipped, -⟩ := split_pos string ch
  rcases Nat.eq_zero_or_pos (string.split ch).pos.toNat with atStart | later
  · exact .inr (.inl atStart)
  · exact .inr (.inr (decide_eq_true (skipped _ (by omega))))

/-- A fresh `Split` has all tokens ahead. -/
theorem split_left (string : Str) (ch : Ch) : (string.split ch).left = string.tokens ch := by
  obtain ⟨-, skipped, -⟩ := split_pos string ch
  exact Tokens.runs_skip (Nat.zero_le _) fun place _ before => decide_eq_true (skipped place before)

/-- The tokens of a string are its maximal runs of other characters than the delimiter, in
their order; the calls of `next` return them one after the other, and then none. -/
theorem split_next_tokens (string : Str) (ch : Ch) (short : string.len < 2 ^ 32 - 1) :
    (∀ start last, (start, last) ∈ string.tokens ch ↔
      Tokens.IsRun (fun i => string.string i = ch) string.len start last) ∧
    (string.tokens ch).Pairwise (fun token next => token.2 < next.1) ∧
    ∀ calls, ((string.split ch).after calls).next.1 =
      ((string.tokens ch)[calls]?).map fun token => substr string.string token.1 token.2 := by
  have fits : (string.split ch).Fits := .inl (Nat.add_lt_of_lt_sub short)
  refine ⟨fun start last => ?_, ?_, fun calls => ?_⟩
  · rw [tokens, Tokens.mem_runs]
    exact and_iff_right (Nat.zero_le start)
  · exact Tokens.runs_apart
  · rw [Split.next_after (split_aligned string ch) fits, split_left]
    rfl

theorem split_next_tokens_spaced :
    (literal [0x20, 0x61, 0x62, 0x20, 0x20, 0x63]).tokens 0x20 = [(1, 3), (5, 6)] ∧
      ∀ calls, (((literal [0x20, 0x61, 0x62, 0x20, 0x20, 0x63]).split 0x20).after calls).next.1 =
        (([(1, 3), (5, 6)] : List (Nat × Nat))[calls]?).map fun token =>
          substr (literal [0x20, 0x61, 0x62, 0x20, 0x20, 0x63]).string token.1 token.2 :=
  ⟨by decide, (split_next_tokens _ _ (by decide)).2.2⟩

end WalnutOs.Klib.Str
