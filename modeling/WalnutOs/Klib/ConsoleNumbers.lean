import WalnutOs.Klib.ConsoleBounds
import Mathlib.Data.Nat.Digits.Lemmas

/-! A number is printed as its string of digits is, except in the first cell of the
screen and where the digits reach the end of the last row. -/

namespace WalnutOs.Klib.Console

open WalnutOs.Lib

/-- The digits of a number, the most significant one first. -/
def numeral (base : Nat) (digit : Nat → Ch) (num : Nat) : List Ch :=
  if num = 0 then [digit 0] else ((Nat.digits base num).map digit).reverse

def decimalDigit (digit : Nat) : Ch := BitVec.ofNat 8 (0x30 + digit)

/-- Hexadecimal digits in upper case. -/
def hexDigit (digit : Nat) : Ch :=
  if digit < 10 then BitVec.ofNat 8 (0x30 + digit) else BitVec.ofNat 8 (0x41 + (digit - 10))

def decimalString (num : BitVec 32) : List Ch := numeral 10 decimalDigit num.toNat

def hexString (ptr : BitVec 32) : List Ch := numeral 16 hexDigit ptr.toNat

section Numeral

variable {base : Nat} {digit : Nat → Ch}

/-- The last digit is the remainder, the others are those of the quotient. -/
theorem numeral_eq (large : 2 ≤ base) (num : Nat) : numeral base digit num =
    (if num / base > 0 then numeral base digit (num / base) else []) ++ [digit (num % base)] := by
  by_cases zero : num = 0
  · simp [numeral, zero]
  · have split := Nat.digits_def' (Nat.lt_of_lt_of_le Nat.one_lt_two large) (Nat.pos_of_ne_zero zero)
    rw [numeral, if_neg zero, split, List.map_cons, List.reverse_cons]
    congr 1
    by_cases more : num / base > 0
    · rw [if_pos more, numeral, if_neg (Nat.ne_of_gt more)]
    · rw [if_neg more, Nat.eq_zero_of_not_pos more, Nat.digits_zero, List.map_nil, List.reverse_nil]

theorem length_numeral (large : 2 ≤ base) (fuel num : Nat) (below : num < base ^ (fuel + 1)) :
    (numeral base digit num).length = rounds base (fuel + 1) num := by
  induction fuel generalizing num with
  | zero =>
    rw [Nat.zero_add, pow_one] at below
    simp [numeral_eq large num, rounds, Nat.div_eq_of_lt below]
  | succ fuel ih =>
    rw [numeral_eq large, rounds]
    by_cases more : num / base > 0
    · have smaller : num / base < base ^ (fuel + 1) :=
        Nat.div_lt_of_lt_mul (by rwa [← pow_succ'])
      rw [if_pos more, if_pos more, List.length_append, List.length_singleton, ih _ smaller]
    · simp [more]

/-- The digits of a number are no line feeds if no digit is. -/
theorem numeral_plain (large : 2 ≤ base) (plain : ∀ value < base, digit value ≠ 0x0A) (num : Nat) :
    ∀ ch ∈ numeral base digit num, ch ≠ 0x0A := by
  intro ch member
  unfold numeral at member
  split at member
  · rw [List.mem_singleton.mp member]
    exact plain 0 (by omega)
  · obtain ⟨value, inside, rfl⟩ := List.mem_map.mp (List.mem_reverse.mp member)
    exact plain value (Nat.digits_lt_base large inside)

end Numeral

/-- The page with characters laid from a cell on. -/
def lay (page : Nat → BitVec 16) : Nat → List Ch → Nat → BitVec 16
  | _, [] => page
  | start, ch :: rest => lay (Function.update page start (createChar ch .white .black)) (start + 1) rest

theorem lay_concat (page : Nat → BitVec 16) (start : Nat) (chars : List Ch) (ch : Ch) :
    lay page start (chars ++ [ch]) =
      lay (Function.update page (start + chars.length) (createChar ch .white .black)) start chars := by
  induction chars generalizing page start with
  | nil => rfl
  | cons first rest ih =>
    have shift : start + 1 + rest.length = start + (rest.length + 1) := by omega
    rw [List.cons_append, lay, lay, ih, shift, Function.update_comm (by omega), List.length_cons]

/-- Moving forward within the screen leaves the page as it is. -/
theorem move_consolePage {console : Console} (col : console.mCol < maxCols) {amt : Nat}
    (short : amt < maxCols) (room : console.position + amt < maxRows * maxCols) :
    (console.move amt).consolePage = console.consolePage := by
  simp only [position, maxRows, maxCols] at col short room
  unfold move
  rw [if_neg (by omega)]
  split
  · rename_i passed
    simp only [maxCols] at passed
    rw [if_neg (by simp only [maxRows]; omega)]
  · rfl

@[simp] theorem consolePage_putCharBack (console : Console) (ch : Ch) :
    (console.putCharBack ch).consolePage =
      Function.update console.consolePage console.position (createChar ch .white .black) := by
  rw [putCharBack, position, Nat.add_comm console.mCol]
  unfold stepBack
  split
  · split <;> rfl
  · rfl

theorem putCharBack_position {console : Console} (ch : Ch) (col : console.mCol < maxCols) :
    (console.putCharBack ch).mCol < maxCols ∧
      (console.putCharBack ch).position = console.position - 1 := by
  obtain ⟨backCol, -, back⟩ := stepBack_position
    (console.writeCell (console.mCol + console.mRow * maxCols) (createChar ch .white .black)) col
  exact ⟨backCol, back⟩

/-- Digits written backwards lie as they are read. -/
theorem divLoop_lay {base : Nat} {digit glyph : Nat → Ch} (large : 2 ≤ base)
    (same : ∀ value < base, digit value = glyph value) (fuel num : Nat) (console : Console)
    (below : num < base ^ (fuel + 1)) (col : console.mCol < maxCols)
    (room : (numeral base glyph num).length ≤ console.position + 1) :
    (divLoop base (fun console num => console.putCharBack (digit (num % base))) (fuel + 1)
      console num).consolePage =
      lay console.consolePage (console.position + 1 - (numeral base glyph num).length)
        (numeral base glyph num) := by
  induction fuel generalizing num console with
  | zero =>
    rw [Nat.zero_add, pow_one] at below
    simp [divLoop, numeral_eq large num, Nat.div_eq_of_lt below, Nat.mod_eq_of_lt below, lay, same _ below]
  | succ fuel ih =>
    have last := same _ (Nat.mod_lt num (Nat.lt_of_lt_of_le Nat.two_pos large))
    obtain ⟨backCol, position⟩ := putCharBack_position (digit (num % base)) col
    rw [divLoop]
    rw [numeral_eq large] at room ⊢
    by_cases more : num / base > 0
    · have smaller : num / base < base ^ (fuel + 1) :=
        Nat.div_lt_of_lt_mul (by rwa [← pow_succ'])
      have some : 0 < (numeral base glyph (num / base)).length := by
        rw [length_numeral large _ _ smaller]
        exact rounds_pos ..
      rw [if_pos more, List.length_append, List.length_singleton] at room
      have start : console.position + 1 - ((numeral base glyph (num / base)).length + 1) +
          (numeral base glyph (num / base)).length = console.position := by omega
      have again : console.position - 1 + 1 - (numeral base glyph (num / base)).length =
          console.position + 1 - ((numeral base glyph (num / base)).length + 1) := by omega
      rw [if_pos more, if_pos more, ih _ _ smaller backCol (by rw [position]; omega), lay_concat,
        consolePage_putCharBack, position, last, List.length_append, List.length_singleton, start, again]
    · simp [more, lay, last]

section PutDigits

variable {console : Console} {base : Nat} {digit glyph : Nat → Ch}

theorem numDigits_numeral (large : 10 ≤ base) (glyph : Nat → Ch) (num : BitVec 32) :
    (numeral base glyph num.toNat).length = numDigits num.toNat base := by
  have below : num.toNat < base ^ 32 :=
    Nat.lt_of_lt_of_le num.isLt (Nat.pow_le_pow_left (Nat.le_trans (by decide) large) 32)
  rw [(numDigits_eq large num).1, length_numeral (Nat.le_trans (by decide) large) 31 _ below]

/-- Digits that fit on the screen are laid from the cursor on. -/
theorem putDigits_consolePage (col : console.mCol < maxCols) (large : 10 ≤ base)
    (same : ∀ value < base, digit value = glyph value) (num : BitVec 32)
    (room : console.position + (numeral base glyph num.toNat).length < maxRows * maxCols) :
    (console.putDigits base digit num.toNat).consolePage =
      lay console.consolePage console.position (numeral base glyph num.toNat) := by
  obtain ⟨counted, some, few⟩ := numDigits_eq large num
  have length := numDigits_numeral large glyph num
  have two : 2 ≤ base := Nat.le_trans (by decide) large
  have below : num.toNat < base ^ 32 :=
    Nat.lt_of_lt_of_le num.isLt (Nat.pow_le_pow_left two 32)
  have forth : ((numDigits num.toNat base : Int) - 1) = ((numDigits num.toNat base - 1 : Nat) : Int) := by
    omega
  have again : ((numDigits num.toNat base : Int) + 1) = ((numDigits num.toNat base + 1 : Nat) : Int) := by
    omega
  have near : numDigits num.toNat base - 1 < maxCols := by simp only [maxCols]; omega
  have far : numDigits num.toNat base + 1 < maxCols := by simp only [maxCols]; omega
  have low : console.mRow < 255 := by
    simp only [position, maxRows, maxCols] at room
    omega
  rw [length] at room
  unfold putDigits
  simp only [forth, again]
  obtain ⟨startCol, startPosition, -⟩ := move_position col low near
  obtain ⟨backCol, -, backPosition, -⟩ := divLoop_back base digit 32 num.toNat _ startCol
  rw [startPosition, ← counted] at backPosition
  rw [move_consolePage backCol far, divLoop_lay two same 31 _ _ below startCol,
    move_consolePage col near, startPosition, length]
  · congr 1
    omega
  · omega
  · rw [startPosition, length]
    omega
  · by_cases first : console.position = 0
    · rw [backPosition, first]
      simp only [maxRows, maxCols]
      omega
    · rw [backPosition]
      omega

end PutDigits

section PutStr

variable {console : Console}

theorem mRow_newLine (row : console.mRow < maxRows) :
    console.newLine.mRow < maxRows ∧ console.mRow ≤ console.newLine.mRow := by
  have next : (console.mRow + 1) % 256 = console.mRow + 1 := by
    simp only [maxRows] at row
    omega
  simp only [newLine, next]
  split
  · rw [(scroll_cursor _).2]
    exact ⟨row, Nat.le_refl _⟩
  · rename_i above
    exact ⟨Nat.lt_of_le_of_ne row above, Nat.le_succ _⟩

/-- Characters keep the cursor on the screen and never take it up. -/
theorem putStr_cursor (col : console.mCol < maxCols) (row : console.mRow < maxRows) (string : List Ch) :
    (console.putStr string).mCol < maxCols ∧ (console.putStr string).mRow < maxRows ∧
      console.mRow ≤ (console.putStr string).mRow := by
  induction string generalizing console with
  | nil => exact ⟨col, row, Nat.le_refl _⟩
  | cons ch rest ih =>
    have next : (console.mCol + 1) % 256 = console.mCol + 1 := by
      simp only [maxCols] at col
      omega
    have one : (console.putChar ch).mCol < maxCols ∧ (console.putChar ch).mRow < maxRows ∧
        console.mRow ≤ (console.putChar ch).mRow := by
      simp only [putChar, putColor, mCol_writeCell, next]
      split
      · exact ⟨by rw [mCol_newLine]; decide, mRow_newLine row⟩
      · split
        · exact ⟨by rw [mCol_newLine]; decide, mRow_newLine row⟩
        · rename_i within
          exact ⟨Nat.lt_of_le_of_ne col within, row, Nat.le_refl _⟩
    obtain ⟨endCol, endRow, under⟩ := ih one.1 one.2.1
    exact ⟨endCol, endRow, Nat.le_trans one.2.2 under⟩

/-- A character that is no line feed, put before the last cell of the screen. -/
theorem putChar_room (col : console.mCol < maxCols) {ch : Ch} (plain : ch ≠ 0x0A)
    (room : console.position + 1 < maxRows * maxCols) :
    (console.putChar ch).mCol < maxCols ∧ (console.putChar ch).position = console.position + 1 ∧
      (console.putChar ch).consolePage =
        Function.update console.consolePage console.position (createChar ch .white .black) := by
  simp only [position, maxRows, maxCols] at col room
  have next : (console.mCol + 1) % 256 = console.mCol + 1 := by omega
  have under : console.mCol + console.mRow * maxCols = console.position := Nat.add_comm ..
  simp only [putChar, putColor, if_neg plain, mCol_writeCell, next, under]
  split
  · rename_i wraps
    simp only [maxCols] at wraps
    have down : (console.mRow + 1) % 256 = console.mRow + 1 := by omega
    have inside : ¬console.mRow + 1 = maxRows := by
      simp only [maxRows]
      omega
    simp only [newLine, mRow_writeCell, down, if_neg inside, position, maxCols]
    exact ⟨by decide, by omega, rfl⟩
  · rename_i within
    simp only [maxCols] at within
    exact ⟨by simp only [maxCols]; omega, rfl, rfl⟩

/-- Characters that fit on the screen are laid from the cursor on. -/
theorem putStr_room (col : console.mCol < maxCols) {string : List Ch} (plain : ∀ ch ∈ string, ch ≠ 0x0A)
    (room : console.position + string.length < maxRows * maxCols) :
    (console.putStr string).mCol < maxCols ∧
      (console.putStr string).position = console.position + string.length ∧
      (console.putStr string).consolePage = lay console.consolePage console.position string := by
  induction string generalizing console with
  | nil => exact ⟨col, rfl, rfl⟩
  | cons ch rest ih =>
    rw [List.length_cons] at room
    obtain ⟨nextCol, nextPosition, nextPage⟩ := putChar_room col (plain ch List.mem_cons_self) (by omega)
    obtain ⟨endCol, endPosition, endPage⟩ :=
      ih nextCol (fun other member => plain other (List.mem_cons_of_mem _ member))
        (by rw [nextPosition]; omega)
    refine ⟨endCol, endPosition.trans ?_, endPage.trans ?_⟩
    · rw [nextPosition, List.length_cons]
      omega
    · rw [nextPage, nextPosition, lay]

end PutStr

/-- The same cells on the screen and the same cursor. -/
structure SameScreen (console other : Console) : Prop where
  col : console.mCol = other.mCol
  row : console.mRow = other.mRow
  cells : ∀ index < maxRows * maxCols, console.consolePage index = other.consolePage index

/-- Columns on the screen and the linear position determine the cursor. -/
theorem cursor_eq {console other : Console} (col : console.mCol < maxCols) (otherCol : other.mCol < maxCols)
    (same : console.position = other.position) :
    console.mCol = other.mCol ∧ console.mRow = other.mRow := by
  simp only [position, maxCols] at *
  omega

/-- Digits are printed like their string exactly when the cursor is behind the first cell
and they end before the last one. -/
theorem putDigits_sameScreen_iff {console : Console} (col : console.mCol < maxCols)
    (row : console.mRow < maxRows) {base : Nat} (large : 10 ≤ base) {digit glyph : Nat → Ch}
    (same : ∀ value < base, digit value = glyph value) (plain : ∀ value < base, glyph value ≠ 0x0A)
    (num : BitVec 32) :
    SameScreen (console.putDigits base digit num.toNat) (console.putStr (numeral base glyph num.toNat)) ↔
      console.position ≠ 0 ∧
        console.position + (numeral base glyph num.toNat).length < maxRows * maxCols := by
  have length := numDigits_numeral large glyph num
  obtain ⟨endCol, endPosition, -⟩ := putDigits_position col row large digit num
  rw [← length] at endPosition
  constructor
  · intro same
    have inside := (putStr_cursor col row (numeral base glyph num.toNat)).2.1
    rw [← same.row] at inside
    have room : console.position + (numeral base glyph num.toNat).length < maxRows * maxCols := by
      have below := (row_lt_iff endCol).mp inside
      omega
    obtain ⟨-, stringPosition, -⟩ := putStr_room col
      (numeral_plain (Nat.le_trans (by decide) large) plain num.toNat) room
    refine ⟨fun first => ?_, room⟩
    have positions : (console.putDigits base digit num.toNat).position =
        (console.putStr (numeral base glyph num.toNat)).position := by
      rw [position, position, same.row, same.col]
    omega
  · rintro ⟨behind, room⟩
    obtain ⟨stringCol, stringPosition, stringPage⟩ := putStr_room col
      (numeral_plain (Nat.le_trans (by decide) large) plain num.toNat) room
    obtain ⟨cols, rows⟩ := cursor_eq endCol stringCol (by omega)
    refine ⟨cols, rows, fun index _ => ?_⟩
    rw [putDigits_consolePage col large same num room, stringPage]

theorem putStr_append (console : Console) (first second : List Ch) :
    console.putStr (first ++ second) = (console.putStr first).putStr second :=
  List.foldl_append

theorem decimalDigit_eq (value : Nat) : BitVec.ofNat 8 (value + 0x30) = decimalDigit value := by
  rw [decimalDigit, Nat.add_comm]

theorem hexValues_eq : ∀ value < 16, hexValues.getD value 0 = hexDigit value := by decide

/-- A number is printed as its decimal string exactly when the cursor is not in the first
cell of the screen and the digits leave a column free in the last row; a pointer is printed
as its hexadecimal string exactly when its digits leave a column free there, or begin in a
new line. -/
theorem number_like_string_iff {console : Console} (col : console.mCol < maxCols)
    (row : console.mRow < maxRows) (num : BitVec 32) :
    (SameScreen (console.put (.u32 num)) (console.put (.str (decimalString num))) ↔
      ¬(console.mCol = 0 ∧ console.mRow = 0) ∧
        (console.mRow + 1 = maxRows → console.mCol + (decimalString num).length < maxCols)) ∧
    (SameScreen (console.put (.ptr num)) (console.put (.str ([0x30, 0x78] ++ hexString num))) ↔
      (console.mRow + 1 = maxRows → console.mCol + 2 < maxCols →
        console.mCol + 2 + (hexString num).length < maxCols)) := by
  constructor
  · have decimals := putDigits_sameScreen_iff col row (Nat.le_refl 10)
      (fun value _ => decimalDigit_eq value) (by decide) num
    rw [← decimalString] at decimals
    have few := (numDigits_eq (Nat.le_refl 10) num).2.2
    rw [← numDigits_numeral (Nat.le_refl 10) decimalDigit, ← decimalString] at few
    simp only [put, putU32]
    rw [decimals]
    simp only [position, maxRows, maxCols] at col row ⊢
    omega
  · obtain ⟨prefixCol, prefixRow, under⟩ := putStr_cursor col row [0x30, 0x78]
    obtain ⟨roomy, wrapping⟩ := putStr_prefix col
    have digits := putDigits_sameScreen_iff prefixCol prefixRow (by decide : 10 ≤ 16) hexValues_eq
      (by decide) num
    rw [← hexString] at digits
    have few := (numDigits_eq (by decide : 10 ≤ 16) num).2.2
    rw [← numDigits_numeral (by decide) hexDigit, ← hexString] at few
    simp only [put, putPtr, putStr_append]
    rw [digits]
    simp only [position, maxRows, maxCols] at col row prefixCol prefixRow roomy wrapping ⊢
    by_cases room : console.mCol + 2 < 80
    · obtain ⟨sameCol, sameRow⟩ := roomy room
      omega
    · have early := wrapping (by omega)
      by_cases last : console.mRow + 1 = 25
      · omega
      · obtain ⟨-, behind, -⟩ := putStr_room col (show ∀ ch ∈ [0x30, 0x78], ch ≠ 0x0A by decide) (by
          simp only [position, maxRows, maxCols, List.length_cons, List.length_nil]
          omega)
        simp only [position, maxCols, List.length_cons, List.length_nil] at behind
        omega

/-- A number and a pointer in the middle of the screen. -/
theorem number_like_string_middle :
    SameScreen (put ⟨5, 3, fun _ => 0, 0, []⟩ (.u32 420))
        (put ⟨5, 3, fun _ => 0, 0, []⟩ (.str (decimalString 420))) ∧
      SameScreen (put ⟨5, 3, fun _ => 0, 0, []⟩ (.ptr 0xB8000))
        (put ⟨5, 3, fun _ => 0, 0, []⟩ (.str ([0x30, 0x78] ++ hexString 0xB8000))) :=
  ⟨(number_like_string_iff (by decide) (by decide) 420).1.mpr (by decide),
    (number_like_string_iff (by decide) (by decide) 0xB8000).2.mpr (by decide)⟩

/-- In the first cell of the screen the cursor ends two columns after `7`. -/
theorem not_number_like_string : ¬∀ console : Console, console.mCol < maxCols → console.mRow < maxRows →
    ∀ num : BitVec 32,
      SameScreen (console.put (.u32 num)) (console.put (.str (decimalString num))) ∧
      SameScreen (console.put (.ptr num)) (console.put (.str ([0x30, 0x78] ++ hexString num))) := by
  intro claim
  have same := (claim (constructed (fun _ => 0) 0) (by decide) (by decide) 7).1.col
  revert same
  decide +kernel

end WalnutOs.Klib.Console
