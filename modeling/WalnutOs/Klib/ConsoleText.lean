import WalnutOs.Lib.Paper
import WalnutOs.Klib.ConsoleNumbers

/-! The screen as a window onto the last lines of all that was printed. -/

namespace WalnutOs.Klib.Console

open WalnutOs.Lib

section Scroll

variable {console : Console} {index : Nat}

theorem consolePage_writeCell (console : Console) (written index : Nat) (cell : BitVec 16) :
    (console.writeCell written cell).consolePage index =
      if index = written then cell else console.consolePage index :=
  Function.update_apply ..

/-- Part of a row is lifted; the row below is read as it was. -/
theorem liftCells_consolePage (console : Console) (i : Nat) {count : Nat} (inside : count ≤ maxCols) :
    ((List.range count).foldl (fun console j =>
      console.writeCell (i * maxCols + j) (console.consolePage ((i + 1) * maxCols + j))) console).consolePage
        index =
      if i * maxCols ≤ index ∧ index < i * maxCols + count then console.consolePage (index + maxCols)
      else console.consolePage index := by
  induction count generalizing index with
  | zero => rw [if_neg (by omega), List.range_zero, List.foldl_nil]
  | succ count ih =>
    have below : (i + 1) * maxCols + count = i * maxCols + count + maxCols := by
      rw [Nat.succ_mul]
      omega
    rw [List.range_succ, List.foldl_append, List.foldl_cons, List.foldl_nil, consolePage_writeCell,
      ih (Nat.le_of_succ_le inside), ih (Nat.le_of_succ_le inside), below]
    by_cases here : index = i * maxCols + count
    · rw [if_pos here, if_neg (by omega), if_pos (by omega), here]
    · rw [if_neg here]
      exact if_congr (by omega) rfl rfl

theorem liftRow_consolePage (console : Console) (i : Nat) : (console.liftRow i).consolePage index =
    if i * maxCols ≤ index ∧ index < (i + 1) * maxCols then console.consolePage (index + maxCols)
    else console.consolePage index := by
  rw [Nat.succ_mul]
  exact liftCells_consolePage console i (Nat.le_refl _)

theorem liftRows_consolePage (console : Console) (count : Nat) :
    ((List.range count).foldl liftRow console).consolePage index =
      if index < count * maxCols then console.consolePage (index + maxCols) else console.consolePage index := by
  induction count generalizing index with
  | zero => rw [if_neg (by omega), List.range_zero, List.foldl_nil]
  | succ count ih =>
    rw [List.range_succ, List.foldl_append, List.foldl_cons, List.foldl_nil, liftRow_consolePage, ih, ih,
      Nat.succ_mul]
    by_cases row : count * maxCols ≤ index ∧ index < count * maxCols + maxCols
    · rw [if_pos row, if_neg (by omega), if_pos (by omega)]
    · rw [if_neg row]
      exact if_congr (by omega) rfl rfl

/-- Cells that are set to one value. -/
theorem fillCells_consolePage (console : Console) (start count : Nat) :
    ((List.range count).foldl (fun console j => console.writeCell (start + j) blank) console).consolePage index =
      if start ≤ index ∧ index < start + count then blank else console.consolePage index := by
  induction count generalizing index with
  | zero => rw [if_neg (by omega), List.range_zero, List.foldl_nil]
  | succ count ih =>
    rw [List.range_succ, List.foldl_append, List.foldl_cons, List.foldl_nil, consolePage_writeCell, ih]
    by_cases here : index = start + count
    · rw [if_pos here, if_pos (by omega)]
    · rw [if_neg here]
      exact if_congr (by omega) rfl rfl

/-- Scrolling takes the rows up by one and blanks the last. -/
theorem scroll_consolePage (console : Console) {row col : Nat} (inside : row < maxRows) (within : col < maxCols) :
    console.scroll.consolePage (row * maxCols + col) =
      if row + 1 < maxRows then console.consolePage ((row + 1) * maxCols + col) else blank := by
  have next : row * maxCols + col + maxCols = (row + 1) * maxCols + col := by
    rw [Nat.succ_mul]
    omega
  have lastRow : (maxRows - 1) * maxCols ≤ row * maxCols + col ↔ ¬row + 1 < maxRows := by
    simp only [maxRows, maxCols] at *
    omega
  have inPage : row * maxCols + col < (maxRows - 1) * maxCols + maxCols := by
    simp only [maxRows, maxCols] at *
    omega
  rw [scroll, fillCells_consolePage, liftRows_consolePage, next]
  by_cases last : row + 1 < maxRows
  · rw [if_neg fun both => lastRow.mp both.1 last, if_pos last,
      if_pos (Nat.lt_of_not_le fun under => lastRow.mp under last)]
  · rw [if_pos ⟨lastRow.mpr last, inPage⟩, if_neg last]

theorem clear_consolePage (console : Console) (inside : index < maxRows * maxCols) :
    console.clear.consolePage index = blank := by
  have filled := @fillCells_consolePage index console 0 (maxRows * maxCols)
  rw [if_pos ⟨Nat.zero_le _, by rwa [Nat.zero_add]⟩] at filled
  simp only [Nat.zero_add] at filled
  dsimp only [clear, moveCursor]
  exact filled

end Scroll

/-- The window onto the paper, with the cursor where its last line ends. -/
structure Shows (console : Console) (paper : Paper (BitVec 16)) : Prop where
  col : console.mCol = paper.line.length
  row : console.mRow = paper.cursorRow maxRows
  short : paper.line.length < maxCols
  cells : ∀ row < maxRows, ∀ col < maxCols,
    console.consolePage (row * maxCols + col) = paper.shows maxRows blank row col

/-- What a character is on the paper. -/
def mark (fg bg : Color) (ch : Ch) : Mark (BitVec 16) :=
  if ch = 0x0A then .lineEnd else .cell (createChar ch fg bg)

variable {console other : Console} {paper : Paper (BitVec 16)}

theorem Shows.of_sameScreen (shows : Shows other paper) (same : SameScreen console other) :
    Shows console paper := by
  refine ⟨same.col.trans shows.col, same.row.trans shows.row, shows.short, fun row inside col within => ?_⟩
  rw [same.cells _ (by simp only [maxRows, maxCols] at *; omega)]
  exact shows.cells row inside col within

/-- A line ends, whether it is full or not. -/
theorem shows_newLine (row : console.mRow = paper.cursorRow maxRows)
    (cells : ∀ row < maxRows, ∀ col < maxCols,
      console.consolePage (row * maxCols + col) = paper.shows maxRows blank row col) :
    Shows console.newLine paper.endLine := by
  have under := @Paper.cursorRow_lt _ maxRows paper (by decide)
  have next : (console.mRow + 1) % 256 = console.mRow + 1 := by
    rw [row]
    simp only [maxRows] at under
    simp only [maxRows]
    omega
  have moves := @Paper.cursorRow_endLine _ maxRows paper (by decide)
  have last : console.mRow + 1 = maxRows ↔ ¬paper.finished.length + 1 < maxRows := by
    rw [row, Paper.cursorRow, Paper.scrolled]
    simp only [maxRows]
    omega
  rw [newLine]
  dsimp only
  rw [next]
  by_cases full : console.mRow + 1 = maxRows
  · rw [if_pos full]
    rw [if_neg (last.mp full)] at moves
    obtain ⟨sameCol, sameRow⟩ := scroll_cursor { console with mCol := 0, mRow := console.mRow + 1 - 1 }
    refine ⟨sameCol, sameRow.trans (row.trans moves.symm), Nat.zero_lt_succ _, fun row inside col within => ?_⟩
    rw [scroll_consolePage _ inside within, Paper.shows_endLine, if_neg (last.mp full)]
    split
    · exact cells _ ‹_› col within
    · rfl
  · rw [if_neg full]
    have room := Decidable.not_not.mp (full ∘ last.mpr)
    rw [if_pos room] at moves
    refine ⟨rfl, ?_, Nat.zero_lt_succ _, fun row inside col within => ?_⟩
    · rw [moves, ← row]
    · rw [Paper.shows_endLine, if_pos room]
      exact cells row inside col within

theorem Shows.putColor (shows : Shows console paper) (ch : Ch) (fg bg : Color) :
    Shows (console.putColor ch fg bg) (paper.type maxCols (mark fg bg ch)) := by
  have under := @Paper.cursorRow_lt _ maxRows paper (by decide)
  have short := shows.short
  rw [Console.putColor, mark]
  by_cases feed : ch = 0x0A
  · rw [if_pos feed, if_pos feed]
    exact shows_newLine shows.row shows.cells
  · rw [if_neg feed, if_neg feed]
    have next : (console.mCol + 1) % 256 = paper.line.length + 1 := by
      rw [shows.col]
      simp only [maxCols] at short
      omega
    have written : ∀ row < maxRows, ∀ col < maxCols,
        (console.writeCell (console.mCol + console.mRow * maxCols) (createChar ch fg bg)).consolePage
          (row * maxCols + col) = (paper.write (createChar ch fg bg)).shows maxRows blank row col := by
      intro row inside col within
      rw [Paper.shows_write (by decide), consolePage_writeCell, shows.cells row inside col within,
        shows.col, shows.row]
      refine if_congr ?_ rfl rfl
      simp only [maxRows, maxCols] at *
      omega
    dsimp only
    rw [mCol_writeCell, next, Paper.type]
    split
    · exact shows_newLine shows.row written
    · rename_i room
      refine ⟨?_, shows.row, ?_, written⟩
      · rw [Paper.write, List.length_append, List.length_singleton]
      · rw [Paper.write, List.length_append, List.length_singleton]
        exact Nat.lt_of_le_of_ne short room

theorem Shows.putColorStr (shows : Shows console paper) (string : List Ch) (fg bg : Color) :
    Shows (console.putColorStr string fg bg) (paper.typeAll maxCols (string.map (mark fg bg))) := by
  induction string generalizing console paper with
  | nil => exact shows
  | cons ch rest ih => exact ih (shows.putColor ch fg bg)

theorem Shows.putStr (shows : Shows console paper) (string : List Ch) :
    Shows (console.putStr string) (paper.typeAll maxCols (string.map (mark .white .black))) :=
  shows.putColorStr string .white .black

theorem Shows.newLine (shows : Shows console paper) : Shows console.newLine paper.endLine :=
  shows_newLine shows.row shows.cells

theorem Shows.moveCursor (shows : Shows console paper) : Shows console.moveCursor paper :=
  ⟨shows.col, shows.row, shows.short, shows.cells⟩

theorem shows_clear (console : Console) : Shows console.clear Paper.blank := by
  refine ⟨rfl, rfl, Nat.zero_lt_succ _, fun row inside col within => ?_⟩
  rw [Paper.shows_blank]
  refine clear_consolePage console ?_
  simp only [maxRows, maxCols] at *
  omega

/-- A blank over the character before the cursor takes it back. -/
theorem Shows.printBackChar (shows : Shows console paper) (behind : console.mCol ≠ 0) :
    Shows (console.printBackChar 0x20) paper.erase := by
  have col := shows.col
  have short := shows.short
  have shorter : paper.erase.line.length = paper.line.length - 1 := List.length_dropLast
  rw [Console.printBackChar, stepBack, if_neg behind]
  refine ⟨?_, shows.row, ?_, fun row inside col within => ?_⟩
  · rw [shorter, ← shows.col]
    rfl
  · rw [shorter]
    exact Nat.lt_of_le_of_lt (Nat.sub_le _ _) short
  · have under := @Paper.cursorRow_lt _ maxRows paper (by decide)
    rw [Paper.shows_erase (by decide), ← shows.cells row inside col within]
    refine (consolePage_writeCell ..).trans (if_congr ?_ rfl rfl)
    dsimp only
    rw [shows.row]
    simp only [maxRows, maxCols] at *
    omega

/-- What an argument is printed as. -/
def Arg.text : Arg → List Ch
  | .char ch => [ch]
  | .str string => string
  | .bool b => if b then [0x74, 0x72, 0x75, 0x65] else [0x66, 0x61, 0x6C, 0x73, 0x65]
  | .ptr addr => [0x30, 0x78] ++ hexString addr
  | .u32 num => decimalString num
  | .i32 num => decimalString num
  | .u16 num => decimalString (num.zeroExtend 32)
  | .i16 num => decimalString (num.signExtend 32)
  | .u8 num => decimalString (num.zeroExtend 32)
  | .i8 num => decimalString (num.signExtend 32)

/-- Digits begin behind the first cell of the screen and end before its last one. -/
def Room (console : Console) (digits : List Ch) : Prop :=
  console.position ≠ 0 ∧ console.position + digits.length < maxRows * maxCols

def ArgRoom (console : Console) : Arg → Prop
  | .ptr ptr => Room (console.putStr [0x30, 0x78]) (hexString ptr)
  | arg => ∀ num, arg.number? = some num → Room console (decimalString num)

theorem SameScreen.refl (console : Console) : SameScreen console console :=
  ⟨rfl, rfl, fun _ _ => rfl⟩

theorem putU32_sameScreen (col : console.mCol < maxCols) (row : console.mRow < maxRows) {num : BitVec 32}
    (room : Room console (decimalString num)) :
    SameScreen (console.putU32 num) (console.putStr (decimalString num)) :=
  (putDigits_sameScreen_iff col row (Nat.le_refl 10) (fun value _ => decimalDigit_eq value) (by decide)
    num).mpr room

/-- An argument with room is printed as its text. -/
theorem put_sameScreen (col : console.mCol < maxCols) (row : console.mRow < maxRows) {arg : Arg}
    (room : ArgRoom console arg) : SameScreen (console.put arg) (console.putStr arg.text) := by
  cases arg with
  | char ch => exact SameScreen.refl _
  | str string => exact SameScreen.refl _
  | bool b => exact SameScreen.refl _
  | ptr ptr =>
    obtain ⟨prefixCol, prefixRow, -⟩ := putStr_cursor col row [0x30, 0x78]
    rw [Arg.text, putStr_append]
    exact (putDigits_sameScreen_iff prefixCol prefixRow (by decide : 10 ≤ 16) hexValues_eq (by decide)
      ptr).mpr room
  | u32 num | i32 num | u16 num | i16 num | u8 num | i8 num =>
    exact putU32_sameScreen col row (room _ rfl)

/-- An argument put on the paper. -/
def typed (paper : Paper (BitVec 16)) (arg : Arg) : Paper (BitVec 16) :=
  paper.typeAll maxCols (arg.text.map (mark .white .black))

theorem Shows.put (shows : Shows console paper) {arg : Arg} (room : ArgRoom console arg) :
    Shows (console.put arg) (typed paper arg) := by
  have col : console.mCol < maxCols := shows.col ▸ shows.short
  have row : console.mRow < maxRows := shows.row ▸ Paper.cursorRow_lt (by decide)
  exact (shows.putStr arg.text).of_sameScreen (put_sameScreen col row room)

theorem Shows.puts (shows : Shows console paper) {args : List Arg}
    (room : EveryStep Console.put ArgRoom console args) :
    Shows (args.foldl Console.put console) (args.foldl typed paper) := by
  induction args generalizing console paper with
  | nil => exact shows
  | cons arg rest ih => exact ih (shows.put room.1) room.2

theorem Shows.printColor (shows : Shows console paper) (fg bg : Color) (args : List (List Ch)) :
    Shows (console.printColor fg bg args)
      (args.foldl (fun paper string => paper.typeAll maxCols (string.map (mark fg bg))) paper) := by
  induction args generalizing console paper with
  | nil => exact shows
  | cons string rest ih => exact ih (shows.putColorStr string fg bg)

/-- What each operation does to the paper. The cursor cannot be moved over it. -/
def Operation.onPaper (paper : Paper (BitVec 16)) : Operation → Paper (BitVec 16)
  | .putChar ch | .printChar ch => paper.type maxCols (mark .white .black ch)
  | .putColor ch fg bg => paper.type maxCols (mark fg bg ch)
  | .putColorStr string fg bg => paper.typeAll maxCols (string.map (mark fg bg))
  | .put arg => typed paper arg
  | .print args => args.foldl typed paper
  | .printLine args => (args.foldl typed paper).endLine
  | .printColor fg bg args =>
    args.foldl (fun paper string => paper.typeAll maxCols (string.map (mark fg bg))) paper
  | .printLineColor fg bg args =>
    (args.foldl (fun paper string => paper.typeAll maxCols (string.map (mark fg bg))) paper).endLine
  | .printBackChar _ => paper.erase
  | .clear => Paper.blank
  | .putCharBack _ | .rowUp | .rowDown | .colBack | .colForward => paper

/-- Numbers have room, a character is only taken back from the line it is in, and the cursor is not
moved. -/
def Operation.Types (console : Console) : Operation → Prop
  | .put arg => ArgRoom console arg
  | .print args | .printLine args => EveryStep Console.put ArgRoom console args
  | .printBackChar ch => ch = 0x20 ∧ console.mCol ≠ 0
  | .putCharBack _ | .rowUp | .rowDown | .colBack | .colForward => False
  | _ => True

theorem Shows.perform (shows : Shows console paper) {operation : Operation}
    (types : operation.Types console) : Shows (console.perform operation) (operation.onPaper paper) := by
  cases operation with
  | putChar ch => exact shows.putColor ch .white .black
  | printChar ch => exact (shows.putColor ch .white .black).moveCursor
  | putColor ch fg bg => exact shows.putColor ch fg bg
  | putColorStr string fg bg => exact shows.putColorStr string fg bg
  | put arg => exact shows.put types
  | print args => exact (shows.puts types).moveCursor
  | printLine args => exact (shows.puts types).moveCursor.newLine.moveCursor
  | printColor fg bg args => exact shows.printColor fg bg args
  | printLineColor fg bg args => exact (shows.printColor fg bg args).newLine.moveCursor
  | printBackChar ch =>
    obtain ⟨rfl, behind⟩ := types
    exact shows.printBackChar behind
  | clear => exact shows_clear console
  | putCharBack ch => exact absurd types id
  | rowUp => exact absurd types id
  | rowDown => exact absurd types id
  | colBack => exact absurd types id
  | colForward => exact absurd types id

theorem Shows.performed (shows : Shows console paper) {operations : List Operation}
    (types : EveryStep Console.perform (fun console operation => operation.Types console) console operations) :
    Shows (operations.foldl Console.perform console) (operations.foldl Operation.onPaper paper) := by
  induction operations generalizing console paper with
  | nil => exact shows
  | cons operation rest ih => exact ih (shows.perform types.1) types.2

/-- Whatever is printed after the screen was cleared, the screen is a window of its rows onto the last
lines of the text, and the cursor is where the text ends. -/
theorem screen_shows_printed (console : Console) (operations : List Operation)
    (types : EveryStep Console.perform (fun console operation => operation.Types console) console.clear
      operations) :
    let printed := operations.foldl Console.perform console.clear
    let paper := operations.foldl Operation.onPaper Paper.blank
    (∀ row < maxRows, ∀ col < maxCols,
      printed.consolePage (row * maxCols + col) = paper.shows maxRows blank row col) ∧
      printed.mRow = paper.cursorRow maxRows ∧ printed.mCol = paper.line.length := by
  have shows := (shows_clear console).performed types
  exact ⟨shows.cells, shows.row, shows.col⟩

/-- A number in the second line, and the cursor behind it. -/
theorem screen_shows_printed_number :
    let printed := [Operation.printLine [.str [0x6F, 0x6B]], .print [.u32 42]].foldl Console.perform
      (constructed (fun _ => 0) 0).clear
    printed.consolePage (1 * maxCols + 0) = createChar 0x34 .white .black ∧ printed.mRow = 1 ∧
      printed.mCol = 2 := by
  have word : Operation.Types (constructed (fun _ => 0) 0).clear (.printLine [.str [0x6F, 0x6B]]) :=
    ⟨fun _ absent => absurd absent.symm (Option.some_ne_none _), trivial⟩
  have shows := (shows_clear (constructed (fun _ => 0) 0)).perform word
  have room : Room ((constructed (fun _ => 0) 0).clear.perform (.printLine [.str [0x6F, 0x6B]]))
      (decimalString 42) := by
    rw [Room, position, shows.col, shows.row]
    decide
  obtain ⟨cells, row, col⟩ := screen_shows_printed (constructed (fun _ => 0) 0)
    [.printLine [.str [0x6F, 0x6B]], .print [.u32 42]]
    ⟨word, ⟨fun _ some => Option.some.inj some ▸ room, trivial⟩, trivial⟩
  exact ⟨(cells 1 (by decide) 0 (by decide)).trans (by decide), row.trans (by decide), col.trans (by decide)⟩

end WalnutOs.Klib.Console
