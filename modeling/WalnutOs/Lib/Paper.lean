import Mathlib.Data.List.Basic
import Mathlib.Tactic.Common

/-! Text set in lines of a bounded width, seen through a window onto its last lines. -/

namespace WalnutOs.Lib

universe u
variable {Cell : Type u} {width height row col : Nat} {cell filler : Cell}

inductive Mark (Cell : Type u) where
  | cell (cell : Cell)
  | lineEnd

/-- The lines that are finished, and the one that is being written. -/
structure Paper (Cell : Type u) where
  finished : List (List Cell)
  line : List Cell

namespace Paper

variable {paper : Paper Cell}

def blank : Paper Cell := ⟨[], []⟩

def write (paper : Paper Cell) (cell : Cell) : Paper Cell := { paper with line := paper.line ++ [cell] }

/-- What was written last in the line is taken back. -/
def erase (paper : Paper Cell) : Paper Cell := { paper with line := paper.line.dropLast }

def endLine (paper : Paper Cell) : Paper Cell := ⟨paper.finished ++ [paper.line], []⟩

/-- A line ends as soon as it is full. -/
def type (width : Nat) (paper : Paper Cell) : Mark Cell → Paper Cell
  | .cell cell => if paper.line.length + 1 = width then (paper.write cell).endLine else paper.write cell
  | .lineEnd => paper.endLine

def typeAll (width : Nat) (paper : Paper Cell) (marks : List (Mark Cell)) : Paper Cell :=
  marks.foldl (type width) paper

/-- How many lines have left a window of some height. -/
def scrolled (height : Nat) (paper : Paper Cell) : Nat := paper.finished.length + 1 - height

/-- The row of the window that the line being written is in. -/
def cursorRow (height : Nat) (paper : Paper Cell) : Nat := paper.finished.length - paper.scrolled height

/-- A cell of the window; where there is no text, it shows the filler. -/
def shows (height : Nat) (filler : Cell) (paper : Paper Cell) (row col : Nat) : Cell :=
  (((paper.finished ++ [paper.line])[paper.scrolled height + row]?).bind (·[col]?)).getD filler

theorem cursorRow_lt (positive : 0 < height) : paper.cursorRow height < height := by
  unfold cursorRow scrolled
  omega

theorem shows_blank (height : Nat) (filler : Cell) (row col : Nat) :
    (blank : Paper Cell).shows height filler row col = filler := by
  rw [shows, blank, List.nil_append]
  cases scrolled height ⟨[], []⟩ + row <;> rfl

/-- A cell is written where the line ends. -/
theorem shows_write (positive : 0 < height) : (paper.write cell).shows height filler row col =
    if row = paper.cursorRow height ∧ col = paper.line.length then cell
    else paper.shows height filler row col := by
  have same : (paper.write cell).scrolled height = paper.scrolled height := rfl
  rw [shows, shows, same, write]
  rcases Nat.lt_trichotomy (paper.scrolled height + row) paper.finished.length with above | here | below
  · have other : ¬(row = paper.cursorRow height ∧ col = paper.line.length) := by
      unfold cursorRow
      omega
    rw [if_neg other, List.getElem?_append_left above, List.getElem?_append_left above]
  · have under : row = paper.cursorRow height := by
      unfold cursorRow
      omega
    rw [here, List.getElem?_concat_length, List.getElem?_concat_length, Option.bind_some, Option.bind_some]
    by_cases last : col = paper.line.length
    · rw [if_pos ⟨under, last⟩, last, List.getElem?_concat_length, Option.getD_some]
    · rw [if_neg fun both => last both.2]
      rcases Nat.lt_or_gt_of_ne last with before | behind
      · rw [List.getElem?_append_left before]
      · have none : (paper.line ++ [cell])[col]? = none := by
          rw [List.getElem?_eq_none_iff, List.length_append, List.length_singleton]
          exact behind
        rw [none, List.getElem?_eq_none (Nat.le_of_lt behind)]
  · have other : ¬(row = paper.cursorRow height ∧ col = paper.line.length) := by
      unfold cursorRow scrolled at *
      omega
    have none : ∀ line : List Cell, (paper.finished ++ [line])[paper.scrolled height + row]? = none := by
      intro line
      rw [List.getElem?_eq_none_iff, List.length_append, List.length_singleton]
      exact below
    rw [if_neg other, none, none]

theorem shows_behind (positive : 0 < height) (behind : paper.line.length ≤ col) :
    paper.shows height filler (paper.cursorRow height) col = filler := by
  have last : paper.scrolled height + paper.cursorRow height = paper.finished.length := by
    unfold cursorRow scrolled
    omega
  rw [shows, last, List.getElem?_concat_length, Option.bind_some, List.getElem?_eq_none behind, Option.getD_none]

theorem shows_erase (positive : 0 < height) : paper.erase.shows height filler row col =
    if row = paper.cursorRow height ∧ col + 1 = paper.line.length then filler
    else paper.shows height filler row col := by
  rcases List.eq_nil_or_concat paper.line with empty | ⟨before, last, line⟩
  · have same : paper.erase = paper := by rw [erase, empty, List.dropLast_nil, ← empty]
    rw [same, empty, if_neg fun both => Nat.succ_ne_zero col both.2]
  · have shorter : paper.erase.line = before := by rw [erase, line, List.concat_eq_append, List.dropLast_concat]
    have again : paper = paper.erase.write last := by
      rw [write, shorter, ← List.concat_eq_append, ← line]
      rfl
    have count : paper.line.length = before.length + 1 := by rw [line, List.length_concat]
    have place : paper.erase.cursorRow height = paper.cursorRow height := rfl
    by_cases here : row = paper.cursorRow height ∧ col = before.length
    · rw [if_pos ⟨here.1, by rw [here.2, count]⟩, here.1, ← place]
      exact shows_behind positive (Nat.le_of_eq (by rw [shorter, here.2]))
    · rw [if_neg fun both => here ⟨both.1, Nat.succ.inj (both.2.trans count)⟩]
      conv_rhs => rw [again, shows_write positive, shorter, place, if_neg here]

/-- A new line below the text changes nothing until the window is full; from then on each takes the
window down by one. -/
theorem shows_endLine : paper.endLine.shows height filler row col =
    if paper.finished.length + 1 < height then paper.shows height filler row col
    else if row + 1 < height then paper.shows height filler (row + 1) col else filler := by
  have lines : paper.endLine.finished ++ [paper.endLine.line] =
      (paper.finished ++ [paper.line]) ++ [[]] := rfl
  have count : paper.endLine.finished.length = paper.finished.length + 1 := by
    rw [endLine, List.length_append, List.length_singleton]
  have length : (paper.finished ++ [paper.line]).length = paper.finished.length + 1 := by
    rw [List.length_append, List.length_singleton]
  have place : ∀ index : Nat, ((paper.finished ++ [paper.line]) ++ [[]])[index]?.bind (·[col]?) =
      (paper.finished ++ [paper.line])[index]?.bind (·[col]?) := by
    intro index
    rcases Nat.lt_trichotomy index (paper.finished ++ [paper.line]).length with old | new | none
    · rw [List.getElem?_append_left old]
    · rw [new, List.getElem?_concat_length, List.getElem?_eq_none (Nat.le_refl _)]
      rfl
    · rw [List.getElem?_eq_none (Nat.le_of_lt none), List.getElem?_eq_none]
      rw [List.length_append, List.length_singleton]
      exact none
  rw [shows, lines, place, scrolled, count]
  split
  · rename_i room
    have still : paper.finished.length + 1 + 1 - height = paper.scrolled height := by
      unfold scrolled
      omega
    rw [still, shows]
  · rename_i full
    split
    · have next : paper.finished.length + 1 + 1 - height + row = paper.scrolled height + (row + 1) := by
        unfold scrolled
        omega
      rw [next, shows]
    · rw [List.getElem?_eq_none (by rw [length]; omega)]
      rfl

theorem cursorRow_endLine (positive : 0 < height) : paper.endLine.cursorRow height =
    if paper.finished.length + 1 < height then paper.cursorRow height + 1 else paper.cursorRow height := by
  have count : paper.endLine.finished.length = paper.finished.length + 1 := by
    rw [endLine, List.length_append, List.length_singleton]
  rw [cursorRow, scrolled, count, cursorRow, scrolled]
  split <;> omega

end Paper

end WalnutOs.Lib
