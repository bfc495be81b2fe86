import WalnutOs.Klib.Console
import Mathlib.Algebra.Group.Nat.Defs

/-! The cursor and the cells written stay on the screen, except after a number
that runs over the end of the last row. -/

namespace WalnutOs.Klib.Console

open WalnutOs.Lib

/-- Every cell written is on the screen. -/
def CellsInside (console : Console) : Prop :=
  ∀ index ∈ console.written, index < maxRows * maxCols

/-- The cursor is on the screen, and so is every cell written. -/
structure OnScreen (console : Console) : Prop where
  col : console.mCol < maxCols
  row : console.mRow < maxRows
  cells : CellsInside console

/-- The index of the cell under the cursor. -/
def position (console : Console) : Nat :=
  console.mRow * maxCols + console.mCol

theorem OnScreen.position_lt {console : Console} (valid : OnScreen console) :
    console.position < maxRows * maxCols := by
  have col := valid.col
  have row := valid.row
  simp only [position, maxRows, maxCols] at *
  omega

@[simp] theorem position_writeCell (console : Console) (index : Nat) (cell : BitVec 16) :
    (console.writeCell index cell).position = console.position := rfl

@[simp] theorem mCol_writeCell (console : Console) (index : Nat) (cell : BitVec 16) :
    (console.writeCell index cell).mCol = console.mCol := rfl

@[simp] theorem mRow_writeCell (console : Console) (index : Nat) (cell : BitVec 16) :
    (console.writeCell index cell).mRow = console.mRow := rfl

theorem OnScreen.moveCursor {console : Console} (valid : OnScreen console) :
    OnScreen console.moveCursor :=
  ⟨valid.col, valid.row, valid.cells⟩

theorem CellsInside.writeCell {console : Console} (before : CellsInside console) {index : Nat}
    (inside : index < maxRows * maxCols) (cell : BitVec 16) :
    CellsInside (console.writeCell index cell) := by
  intro other member
  rcases List.mem_cons.mp member with same | earlier
  · exact same ▸ inside
  · exact before other earlier

theorem OnScreen.writeCell {console : Console} (valid : OnScreen console) {index : Nat}
    (inside : index < maxRows * maxCols) (cell : BitVec 16) :
    OnScreen (console.writeCell index cell) :=
  ⟨valid.col, valid.row, valid.cells.writeCell inside cell⟩

/-- A loop whose rounds do not move the cursor does not move it. -/
private theorem foldl_cursor (console : Console) (body : Console → Nat → Console) (rounds : List Nat)
    (cursor : ∀ console round, (body console round).mCol = console.mCol ∧
      (body console round).mRow = console.mRow) :
    (rounds.foldl body console).mCol = console.mCol ∧
      (rounds.foldl body console).mRow = console.mRow := by
  induction rounds generalizing console with
  | nil => exact ⟨rfl, rfl⟩
  | cons round rest ih =>
    obtain ⟨col, row⟩ := ih (body console round)
    obtain ⟨sameCol, sameRow⟩ := cursor console round
    exact ⟨col.trans sameCol, row.trans sameRow⟩

private theorem foldl_cells {console : Console} {body : Console → Nat → Console} {rounds : List Nat}
    (inside : ∀ console, ∀ round ∈ rounds, CellsInside console → CellsInside (body console round))
    (before : CellsInside console) : CellsInside (rounds.foldl body console) := by
  induction rounds generalizing console with
  | nil => exact before
  | cons round rest ih =>
    exact ih (fun console later member => inside console later (List.mem_cons_of_mem _ member))
      (inside console round List.mem_cons_self before)

private theorem liftRow_cursor (console : Console) (i : Nat) :
    (console.liftRow i).mCol = console.mCol ∧ (console.liftRow i).mRow = console.mRow :=
  foldl_cursor console _ _ fun _ _ => ⟨rfl, rfl⟩

private theorem CellsInside.liftRow {console : Console} (before : CellsInside console) {i : Nat}
    (above : i < maxRows - 1) : CellsInside (console.liftRow i) := by
  refine foldl_cells (fun console j member before => before.writeCell ?_ _) before
  have column := List.mem_range.mp member
  simp only [maxRows, maxCols] at *
  omega

theorem scroll_cursor (console : Console) :
    console.scroll.mCol = console.mCol ∧ console.scroll.mRow = console.mRow := by
  obtain ⟨liftCol, liftRow⟩ := foldl_cursor console Console.liftRow (List.range (maxRows - 1))
    liftRow_cursor
  obtain ⟨col, row⟩ := foldl_cursor ((List.range (maxRows - 1)).foldl Console.liftRow console)
    (fun console j => console.writeCell ((maxRows - 1) * maxCols + j) blank)
    (List.range maxCols) fun _ _ => ⟨rfl, rfl⟩
  exact ⟨col.trans liftCol, row.trans liftRow⟩

theorem CellsInside.scroll {console : Console} (before : CellsInside console) :
    CellsInside console.scroll := by
  refine foldl_cells (fun console j member before => before.writeCell ?_ _)
    (foldl_cells (fun _ _ member before => before.liftRow (List.mem_range.mp member)) before)
  have column := List.mem_range.mp member
  simp only [maxRows, maxCols] at *
  omega

theorem OnScreen.scroll {console : Console} (valid : OnScreen console) :
    OnScreen console.scroll := by
  obtain ⟨col, row⟩ := scroll_cursor console
  exact ⟨by rw [col]; exact valid.col, by rw [row]; exact valid.row, valid.cells.scroll⟩

theorem OnScreen.newLine {console : Console} (row : console.mRow < maxRows)
    (cells : CellsInside console) :
    OnScreen console.newLine := by
  have next : (console.mRow + 1) % 256 = console.mRow + 1 := by
    simp only [maxRows] at row
    omega
  unfold Console.newLine
  simp only [next]
  split
  · exact OnScreen.scroll ⟨Nat.zero_lt_succ _, row, cells⟩
  · rename_i above
    simp only [maxRows] at row above
    exact ⟨Nat.zero_lt_succ _, by simp only [maxRows]; omega, cells⟩

theorem OnScreen.putColor {console : Console} (valid : OnScreen console) (ch : Ch)
    (fg bg : Color) : OnScreen (console.putColor ch fg bg) := by
  have inside : console.mCol + console.mRow * maxCols < maxRows * maxCols := by
    rw [Nat.add_comm]
    exact valid.position_lt
  have cells := valid.cells.writeCell inside (createChar ch fg bg)
  have next : (console.mCol + 1) % 256 = console.mCol + 1 := by
    have col := valid.col
    simp only [maxCols] at col
    omega
  unfold Console.putColor
  split
  · exact OnScreen.newLine valid.row valid.cells
  · simp only [mCol_writeCell, next]
    split
    · exact OnScreen.newLine valid.row cells
    · rename_i within
      have col := valid.col
      exact ⟨by show console.mCol + 1 < maxCols; omega, valid.row, cells⟩

theorem OnScreen.putChar {console : Console} (valid : OnScreen console) (ch : Ch) :
    OnScreen (console.putChar ch) :=
  valid.putColor ch .white .black

theorem OnScreen.putColorStr {console : Console} (valid : OnScreen console) (string : List Ch)
    (fg bg : Color) : OnScreen (console.putColorStr string fg bg) := by
  induction string generalizing console with
  | nil => exact valid
  | cons ch rest ih => exact ih (valid.putColor ch fg bg)

theorem OnScreen.putStr {console : Console} (valid : OnScreen console) (string : List Ch) :
    OnScreen (console.putStr string) :=
  valid.putColorStr string .white .black

theorem OnScreen.printColor {console : Console} (valid : OnScreen console) (fg bg : Color)
    (args : List (List Ch)) : OnScreen (console.printColor fg bg args) := by
  induction args generalizing console with
  | nil => exact valid
  | cons string rest ih => exact ih (valid.putColorStr string fg bg)

theorem OnScreen.clear {console : Console} (valid : OnScreen console) :
    OnScreen console.clear := by
  have cells : CellsInside ((List.range (maxRows * maxCols)).foldl
      (fun console i => console.writeCell i blank) console) :=
    foldl_cells (fun _ _ member before => before.writeCell (List.mem_range.mp member) _) valid.cells
  unfold Console.clear
  generalize (List.range (maxRows * maxCols)).foldl _ console = blanked at cells ⊢
  exact OnScreen.moveCursor ⟨Nat.zero_lt_succ _, Nat.zero_lt_succ _, cells⟩

/-- Going back is one less in the linear position, stopping at the first cell. -/
theorem stepBack_position (console : Console) (col : console.mCol < maxCols) :
    console.stepBack.mCol < maxCols ∧ console.stepBack.mRow ≤ console.mRow ∧
    console.stepBack.position = console.position - 1 := by
  simp only [stepBack, position, maxCols] at *
  split
  · split
    · simp only
      omega
    · omega
  · simp only
    omega

@[simp] theorem written_stepBack (console : Console) :
    console.stepBack.written = console.written := by
  unfold stepBack
  split
  · split <;> rfl
  · rfl

theorem OnScreen.stepBack {console : Console} (valid : OnScreen console) :
    OnScreen console.stepBack := by
  obtain ⟨col, row, -⟩ := stepBack_position console valid.col
  exact ⟨col, Nat.lt_of_le_of_lt row valid.row, by simpa [CellsInside] using valid.cells⟩

theorem OnScreen.putCharBack {console : Console} (valid : OnScreen console) (ch : Ch) :
    OnScreen (console.putCharBack ch) := by
  refine (valid.writeCell ?_ _).stepBack
  rw [Nat.add_comm]
  exact valid.position_lt

theorem OnScreen.printBackChar {console : Console} (valid : OnScreen console) (ch : Ch) :
    OnScreen (console.printBackChar ch) := by
  refine (valid.stepBack.writeCell ?_ _).moveCursor
  rw [Nat.add_comm]
  exact valid.stepBack.position_lt

theorem OnScreen.rowUp {console : Console} (valid : OnScreen console) : OnScreen console.rowUp := by
  unfold Console.rowUp
  split
  · exact OnScreen.moveCursor ⟨valid.col, Nat.lt_of_le_of_lt (Nat.sub_le _ _) valid.row, valid.cells⟩
  · exact valid

theorem OnScreen.rowDown {console : Console} (valid : OnScreen console) : OnScreen console.rowDown := by
  unfold Console.rowDown
  split
  · exact OnScreen.moveCursor ⟨valid.col, Nat.add_lt_of_lt_sub ‹_›, valid.cells⟩
  · exact valid

theorem OnScreen.colBack {console : Console} (valid : OnScreen console) : OnScreen console.colBack := by
  unfold Console.colBack
  split
  · exact OnScreen.moveCursor ⟨Nat.lt_of_le_of_lt (Nat.sub_le _ _) valid.col, valid.row, valid.cells⟩
  · exact valid

theorem OnScreen.colForward {console : Console} (valid : OnScreen console) : OnScreen console.colForward := by
  unfold Console.colForward
  split
  · exact OnScreen.moveCursor ⟨Nat.add_lt_of_lt_sub ‹_›, valid.row, valid.cells⟩
  · exact valid

/-- Moving forward by less than a row adds to the linear position. -/
theorem move_position {console : Console} (col : console.mCol < maxCols)
    (row : console.mRow < 255) {amt : Nat} (short : amt < maxCols) :
    (console.move amt).mCol < maxCols ∧
    (console.move amt).position = console.position + amt ∧
    (CellsInside console → CellsInside (console.move amt)) := by
  unfold move
  simp only [maxCols] at col short
  rw [if_neg (by omega)]
  split
  · rename_i passed
    simp only [maxCols] at passed
    have newCol : (((console.mCol : Int) + amt - maxCols) % 256).toNat = console.mCol + amt - 80 := by
      simp only [maxCols]
      omega
    have newRow : (console.mRow + 1) % 256 = console.mRow + 1 := by omega
    simp only [newCol, newRow]
    split
    · obtain ⟨sameCol, sameRow⟩ := scroll_cursor
        { console with mCol := console.mCol + amt - 80, mRow := console.mRow + 1 }
      refine ⟨?_, ?_, fun cells => CellsInside.scroll cells⟩
      · rw [sameCol]
        simp only [maxCols]
        omega
      · simp only [position, sameCol, sameRow, maxCols]
        omega
    · refine ⟨?_, ?_, id⟩
      · simp only [maxCols]
        omega
      · simp only [position, maxCols]
        omega
  · rename_i within
    simp only [maxCols] at within
    refine ⟨?_, ?_, id⟩
    · simp only [maxCols]
      omega
    · simp only [position, maxCols]
      omega

/-- How often `divLoop` runs its body. -/
def rounds (base : Nat) : Nat → Nat → Nat
  | 0, _ => 0
  | fuel + 1, num => if num / base > 0 then rounds base fuel (num / base) + 1 else 1

theorem rounds_pos (base fuel num : Nat) : 0 < rounds base (fuel + 1) num := by
  unfold rounds
  split <;> omega

theorem rounds_le {base : Nat} (fuel num places : Nat) (below : num < base ^ (places + 1)) :
    rounds base fuel num ≤ places + 1 := by
  induction fuel generalizing num places with
  | zero => exact Nat.zero_le _
  | succ fuel ih =>
    unfold rounds
    split
    · rename_i more
      cases places with
      | zero =>
        rw [Nat.zero_add, Nat.pow_one] at below
        rw [Nat.div_eq_of_lt below] at more
        exact absurd more (Nat.lt_irrefl 0)
      | succ places =>
        have smaller : num / base < base ^ (places + 1) :=
          Nat.div_lt_of_lt_mul (by rwa [Nat.mul_comm, ← Nat.pow_succ])
        exact Nat.succ_le_succ (ih _ _ smaller)
    · omega

private theorem divLoop_counter (base fuel num counter : Nat)
    (small : counter + rounds base fuel num < 256) :
    divLoop base (fun counter _ => (counter + 1) % 256) fuel counter num =
      counter + rounds base fuel num := by
  induction fuel generalizing num counter with
  | zero => rfl
  | succ fuel ih =>
    simp only [divLoop, rounds] at *
    split
    · rename_i more
      rw [if_pos more] at small
      have step : (counter + 1) % 256 = counter + 1 := by omega
      rw [step, ih _ _ (by omega)]
      omega
    · rename_i done
      rw [if_neg done] at small
      omega

/-- A 32-bit number has at most ten digits in base ten or more, and at least one. -/
theorem numDigits_eq {base : Nat} (large : 10 ≤ base) (num : BitVec 32) :
    numDigits num.toNat base = rounds base 32 num.toNat ∧
    1 ≤ numDigits num.toNat base ∧ numDigits num.toNat base ≤ 10 := by
  have below : num.toNat < base ^ (9 + 1) :=
    Nat.lt_of_lt_of_le (Nat.lt_of_lt_of_le num.isLt (by decide))
      (Nat.pow_le_pow_left large (9 + 1))
  have few := rounds_le 32 num.toNat 9 below
  have some : 0 < rounds base 32 num.toNat := rounds_pos base 31 num.toNat
  have same : numDigits num.toNat base = rounds base 32 num.toNat := by
    have counted := divLoop_counter base 32 num.toNat 0 (by omega)
    rw [Nat.zero_add] at counted
    exact counted
  exact ⟨same, by omega, by omega⟩

/-- Writing digits backwards goes back one cell a digit. -/
theorem divLoop_back (base : Nat) (digit : Nat → Ch) (fuel num : Nat) (console : Console)
    (col : console.mCol < maxCols) :
    let after := divLoop base (fun console num => console.putCharBack (digit (num % base)))
      fuel console num
    after.mCol < maxCols ∧ after.mRow ≤ console.mRow ∧
    after.position = console.position - rounds base fuel num ∧
    (OnScreen console → OnScreen after) := by
  induction fuel generalizing num console with
  | zero => exact ⟨col, Nat.le_refl _, rfl, id⟩
  | succ fuel ih =>
    obtain ⟨backCol, backRow, backPosition⟩ := stepBack_position
      (console.writeCell (console.mCol + console.mRow * maxCols)
        (createChar (digit (num % base)) .white .black)) col
    simp only [divLoop, rounds]
    split
    · obtain ⟨restCol, restRow, restPosition, restValid⟩ :=
        ih (num / base) (console.putCharBack (digit (num % base))) backCol
      refine ⟨restCol, Nat.le_trans restRow backRow, ?_, fun valid =>
        restValid (valid.putCharBack _)⟩
      rw [restPosition, putCharBack, backPosition, position_writeCell]
      omega
    · exact ⟨backCol, backRow, backPosition, fun valid => valid.putCharBack _⟩

/-- The row number of a cursor whose column is on the screen is on it exactly
when the linear position is. -/
theorem row_lt_iff {console : Console} (col : console.mCol < maxCols) :
    console.mRow < maxRows ↔ console.position < maxRows * maxCols := by
  simp only [position, maxRows, maxCols] at *
  omega

/-- The cursor ends behind the digits, one cell too far if it was in the first cell. Digits that
fit do not leave the screen. -/
theorem putDigits_position {console : Console} (col : console.mCol < maxCols) (row : console.mRow < maxRows)
    {base : Nat} (large : 10 ≤ base) (digit : Nat → Ch) (num : BitVec 32) :
    (console.putDigits base digit num.toNat).mCol < maxCols ∧
      (console.putDigits base digit num.toNat).position =
        max console.position 1 + numDigits num.toNat base ∧
      (OnScreen console → console.position + numDigits num.toNat base < maxRows * maxCols →
        OnScreen (console.putDigits base digit num.toNat)) := by
  obtain ⟨counted, some, few⟩ := numDigits_eq large num
  have forth : ((numDigits num.toNat base : Int) - 1) = ((numDigits num.toNat base - 1 : Nat) : Int) := by
    omega
  have again : ((numDigits num.toNat base : Int) + 1) = ((numDigits num.toNat base + 1 : Nat) : Int) := by
    omega
  have near : numDigits num.toNat base - 1 < maxCols := by simp only [maxCols]; omega
  have far : numDigits num.toNat base + 1 < maxCols := by simp only [maxCols]; omega
  have low : console.mRow < 255 := Nat.lt_trans row (by decide)
  unfold putDigits
  simp only [forth, again]
  obtain ⟨startCol, startPosition, startCells⟩ := move_position col low near
  obtain ⟨backCol, backRow, backPosition, backValid⟩ :=
    divLoop_back base digit 32 num.toNat _ startCol
  have startRow : (console.move (numDigits num.toNat base - 1 : Nat)).mRow ≤ maxRows := by
    simp only [position, maxRows, maxCols] at *
    omega
  have backLow := Nat.lt_of_le_of_lt (Nat.le_trans backRow startRow) (by decide : maxRows < 255)
  obtain ⟨endCol, endPosition, endCells⟩ := move_position backCol backLow far
  rw [backPosition, startPosition, ← counted] at endPosition
  refine ⟨endCol, by rw [endPosition]; omega, fun valid inside => ?_⟩
  have start : OnScreen (console.move (numDigits num.toNat base - 1 : Nat)) := by
    refine ⟨startCol, (row_lt_iff startCol).mpr ?_, startCells valid.cells⟩
    rw [startPosition]
    omega
  refine ⟨endCol, (row_lt_iff endCol).mpr ?_, endCells (backValid start).cells⟩
  rw [endPosition]
  simp only [maxRows, maxCols] at *
  omega

/-- A number stays on the screen exactly when its digits do not reach the end
of the last row. -/
theorem putDigits_onScreen_iff {console : Console} (valid : OnScreen console) {base : Nat}
    (large : 10 ≤ base) (digit : Nat → Ch) (num : BitVec 32) :
    OnScreen (console.putDigits base digit num.toNat) ↔
      (console.mRow + 1 = maxRows → console.mCol + numDigits num.toNat base < maxCols) := by
  have col := valid.col
  have row := valid.row
  obtain ⟨counted, some, few⟩ := numDigits_eq large num
  obtain ⟨endCol, endPosition, stays⟩ := putDigits_position col row large digit num
  constructor
  · intro final last
    have inside := final.position_lt
    rw [endPosition] at inside
    simp only [position, maxRows, maxCols] at *
    omega
  · intro fits
    apply stays valid
    simp only [position, maxRows, maxCols] at *
    omega

/-- The number that an integer argument is printed as. -/
def Arg.number? : Arg → Option (BitVec 32)
  | .u32 num => some num
  | .i32 num => some num
  | .u16 num => some (num.zeroExtend 32)
  | .i16 num => some (num.signExtend 32)
  | .u8 num => some (num.zeroExtend 32)
  | .i8 num => some (num.signExtend 32)
  | .char _ | .str _ | .bool _ | .ptr _ => none

/-- In the last row a number leaves a column free after its digits, and so does
a pointer after its prefix and its digits, unless the prefix alone wraps. -/
def ArgFits (console : Console) : Arg → Prop
  | .ptr ptr => console.mRow + 1 = maxRows → console.mCol + 2 < maxCols →
      console.mCol + 2 + numDigits ptr.toNat 16 < maxCols
  | arg => ∀ num, arg.number? = some num → console.mRow + 1 = maxRows →
      console.mCol + numDigits num.toNat 10 < maxCols

theorem mCol_newLine (console : Console) : console.newLine.mCol = 0 := by
  unfold newLine
  simp only
  split
  · rw [(scroll_cursor _).1]
  · rfl

/-- A character other than a line feed goes one column on, or to the next line. -/
private theorem putChar_plain (console : Console) (ch : Ch) (plain : ch ≠ 0x0A)
    (col : console.mCol < maxCols) :
    ((console.putChar ch).mCol = if console.mCol + 1 = maxCols then 0 else console.mCol + 1) ∧
    (console.mCol + 1 ≠ maxCols → (console.putChar ch).mRow = console.mRow) := by
  have next : (console.mCol + 1) % 256 = console.mCol + 1 := by
    simp only [maxCols] at col
    omega
  simp only [putChar, putColor, if_neg plain, mCol_writeCell, next]
  split
  · exact ⟨mCol_newLine _, fun below => absurd ‹_› below⟩
  · exact ⟨rfl, fun _ => rfl⟩

/-- The column and row after the two characters of a pointer's prefix. -/
theorem putStr_prefix {console : Console} (col : console.mCol < maxCols) :
    let after := console.putStr [0x30, 0x78]
    (console.mCol + 2 < maxCols → after.mCol = console.mCol + 2 ∧ after.mRow = console.mRow) ∧
    (maxCols ≤ console.mCol + 2 → after.mCol ≤ 1) := by
  obtain ⟨firstCol, firstRow⟩ := putChar_plain console 0x30 (by decide) col
  have width : maxCols = 80 := rfl
  have between : (console.putChar 0x30).mCol < maxCols := by
    rw [firstCol]
    split <;> omega
  obtain ⟨secondCol, secondRow⟩ := putChar_plain (console.putChar 0x30) 0x78 (by decide) between
  simp only [putStr, List.foldl_cons, List.foldl_nil, secondCol]
  constructor
  · intro room
    rw [if_neg (by omega)] at firstCol
    rw [firstCol] at secondRow ⊢
    exact ⟨if_neg (by omega), (secondRow (by omega)).trans (firstRow (by omega))⟩
  · intro wraps
    split at firstCol <;> split <;> omega

/-- Putting one argument stays on the screen exactly when the argument fits. -/
theorem OnScreen.put_iff {console : Console} (valid : OnScreen console) (arg : Arg) :
    OnScreen (console.put arg) ↔ ArgFits console arg := by
  have number (num : BitVec 32) : OnScreen (console.putU32 num) ↔
      (console.mRow + 1 = maxRows → console.mCol + numDigits num.toNat 10 < maxCols) :=
    putDigits_onScreen_iff valid (Nat.le_refl 10) _ num
  cases arg with
  | char ch => simpa [put, ArgFits, Arg.number?] using valid.putChar ch
  | str string => simpa [put, ArgFits, Arg.number?] using valid.putStr string
  | bool b => simpa [put, putBool, ArgFits, Arg.number?] using valid.putStr _
  | ptr ptr =>
    obtain ⟨roomy, wrapping⟩ := putStr_prefix valid.col
    have pointer := putDigits_onScreen_iff (valid.putStr [0x30, 0x78]) (by decide : 10 ≤ 16)
      (fun digit => hexValues.getD digit 0) ptr
    have few := (numDigits_eq (by decide : 10 ≤ 16) ptr).2.2
    simp only [put, putPtr, pointer, ArgFits]
    by_cases room : console.mCol + 2 < maxCols
    · rw [(roomy room).1, (roomy room).2]
      exact ⟨fun fits last _ => fits last, fun fits last => fits last room⟩
    · have early := wrapping (Nat.le_of_not_lt room)
      constructor
      · exact fun _ _ within => absurd within room
      · intro _ _
        simp only [maxCols]
        omega
  | u32 num | i32 num | u16 num | i16 num | u8 num | i8 num =>
    simp [put, ArgFits, Arg.number?, number]

/-- The arguments of a print are put one after the other. -/
def OperationFits (console : Console) : Operation → Prop
  | .put arg => ArgFits console arg
  | .print args | .printLine args => EveryStep put ArgFits console args
  | _ => True

/-- On the screen after the operation, and after each `put` that it makes. -/
def StaysOnScreen (console : Console) (operation : Operation) : Prop :=
  (match operation with
    | .print args | .printLine args =>
      EveryStep put (fun console arg => OnScreen (console.put arg)) console args
    | _ => True) ∧
  OnScreen (console.perform operation)

private theorem puts_iff {console : Console} (valid : OnScreen console) (args : List Arg) :
    EveryStep put (fun console arg => OnScreen (console.put arg)) console args ↔
      EveryStep put ArgFits console args :=
  EveryStep.iff_of_invariant OnScreen (fun _ _ valid fits => (valid.put_iff _).mpr fits)
    (fun _ _ valid => valid.put_iff _) valid args

private theorem OnScreen.puts {console : Console} (valid : OnScreen console) {args : List Arg}
    (fits : EveryStep put ArgFits console args) : OnScreen (args.foldl put console) :=
  EveryStep.final (fun _ _ valid fits => (valid.put_iff _).mpr fits) valid fits

/-- Every operation other than a put keeps to the screen by itself. -/
theorem OnScreen.stays_iff {console : Console} (valid : OnScreen console)
    (operation : Operation) : StaysOnScreen console operation ↔ OperationFits console operation := by
  have always {operation : Operation} (other : OperationFits console operation = True)
      (stays : StaysOnScreen console operation) :
      StaysOnScreen console operation ↔ OperationFits console operation := by
    rw [other]
    exact iff_true_intro stays
  cases operation with
  | put arg => simpa [StaysOnScreen, OperationFits, perform] using valid.put_iff arg
  | print args =>
    refine ⟨fun stays => (puts_iff valid args).mp stays.1, fun fits => ?_⟩
    exact ⟨(puts_iff valid args).mpr fits, (valid.puts fits).moveCursor⟩
  | printLine args =>
    refine ⟨fun stays => (puts_iff valid args).mp stays.1, fun fits => ?_⟩
    have printed := (valid.puts fits).moveCursor
    exact ⟨(puts_iff valid args).mpr fits, (OnScreen.newLine printed.row printed.cells).moveCursor⟩
  | putChar ch => exact always rfl ⟨trivial, valid.putChar ch⟩
  | printChar ch => exact always rfl ⟨trivial, (valid.putChar ch).moveCursor⟩
  | putColor ch fg bg => exact always rfl ⟨trivial, valid.putColor ch fg bg⟩
  | putColorStr string fg bg => exact always rfl ⟨trivial, valid.putColorStr string fg bg⟩
  | printColor fg bg args => exact always rfl ⟨trivial, valid.printColor fg bg args⟩
  | printLineColor fg bg args =>
    have printed := valid.printColor fg bg args
    exact always rfl ⟨trivial, (OnScreen.newLine printed.row printed.cells).moveCursor⟩
  | printBackChar ch => exact always rfl ⟨trivial, valid.printBackChar ch⟩
  | putCharBack ch => exact always rfl ⟨trivial, valid.putCharBack ch⟩
  | clear => exact always rfl ⟨trivial, valid.clear⟩
  | rowUp => exact always rfl ⟨trivial, valid.rowUp⟩
  | rowDown => exact always rfl ⟨trivial, valid.rowDown⟩
  | colBack => exact always rfl ⟨trivial, valid.colBack⟩
  | colForward => exact always rfl ⟨trivial, valid.colForward⟩

theorem OnScreen.constructed (page : Nat → BitVec 16) (cursor : Nat) :
    OnScreen (Console.constructed page cursor) :=
  ⟨by simp [Console.constructed, maxCols], by simp [Console.constructed, maxRows],
    by simp [CellsInside, Console.constructed]⟩

/-- A run of operations keeps the cursor and the cells written on the screen
exactly when every number it prints in the last row fits into the row. -/
theorem run_onScreen_iff (page : Nat → BitVec 16) (cursor : Nat) (operations : List Operation) :
    EveryStep perform StaysOnScreen (constructed page cursor) operations ↔
      EveryStep perform OperationFits (constructed page cursor) operations :=
  EveryStep.iff_of_invariant OnScreen
    (fun _ operation valid fits => ((valid.stays_iff operation).mpr fits).2)
    (fun _ operation valid => valid.stays_iff operation) (OnScreen.constructed page cursor) operations

/-- Cursor keys to the last cell of the screen. -/
def toCorner : List Operation :=
  List.replicate 24 .rowDown ++ List.replicate 79 .colForward

private theorem toCorner_cursor :
    let corner := toCorner.foldl perform (constructed (fun _ => 0) 0)
    corner.mRow = 24 ∧ corner.mCol = 79 ∧ corner.written = [] := by
  decide +kernel

/-- The second digit of a number printed in the corner goes to row 25. -/
theorem number_in_corner_leaves_screen :
    ¬ EveryStep perform StaysOnScreen (constructed (fun _ => 0) 0) (toCorner ++ [.put (.u32 10)]) := by
  rw [EveryStep.append]
  rintro ⟨-, ⟨-, last⟩, -⟩
  obtain ⟨row, col, written⟩ := toCorner_cursor
  have valid : OnScreen (toCorner.foldl perform (constructed (fun _ => 0) 0)) := by
    refine ⟨by rw [col]; decide, by rw [row]; decide, ?_⟩
    rw [CellsInside, written]
    exact fun _ member => absurd member List.not_mem_nil
  have fits := (valid.put_iff (.u32 10)).mp last 10 rfl (by rw [row]; rfl)
  rw [col] at fits
  revert fits
  decide

end WalnutOs.Klib.Console
