import WalnutOs.Lib.Run
import Mathlib.Logic.Function.Basic

/-! The text console, `klib/console.hh` and `klib/console.cc`. -/

namespace WalnutOs.Klib

open WalnutOs.Lib

inductive Color where
  | black | blue | green | cyan | red | magenta | brown | lightGray
  | darkGray | lightBlue | lightGreen | lightCyan | lightRed | pink | yellow | white
  deriving DecidableEq

def Color.code : Color → BitVec 16
  | .black => 0x0 | .blue => 0x1 | .green => 0x2 | .cyan => 0x3
  | .red => 0x4 | .magenta => 0x5 | .brown => 0x6 | .lightGray => 0x7
  | .darkGray => 0x8 | .lightBlue => 0x9 | .lightGreen => 0xA | .lightCyan => 0xB
  | .lightRed => 0xC | .pink => 0xD | .yellow => 0xE | .white => 0xF

/-- A `char` of the target, which is signed. -/
abbrev Ch := BitVec 8

def maxRows : Nat := 25

def maxCols : Nat := 80

/-- `consolePage` is the memory from the page's first cell on, past the screen's
last cell too. `cursor` is the position the display was last told to show, and
`written` lists the indices of the cells written so far, the latest first. -/
structure Console where
  mCol : Nat
  mRow : Nat
  consolePage : Nat → BitVec 16
  cursor : Nat
  written : List Nat

namespace Console

/-- The constructed console, over whatever the page held. -/
def constructed (page : Nat → BitVec 16) (cursor : Nat) : Console :=
  ⟨0, 0, page, cursor, []⟩

def createChar (ch : Ch) (fg bg : Color) : BitVec 16 :=
  ((bg.code <<< 4 ||| fg.code) <<< 8) ||| ch.signExtend 16

def writeCell (console : Console) (index : Nat) (cell : BitVec 16) : Console :=
  { console with
    consolePage := Function.update console.consolePage index cell
    written := index :: console.written }

def blank : BitVec 16 := createChar 0x20 .white .black

/-- Row `i` takes the cells of the row below it. -/
def liftRow (console : Console) (i : Nat) : Console :=
  (List.range maxCols).foldl (fun console j =>
    console.writeCell (i * maxCols + j) (console.consolePage ((i + 1) * maxCols + j))) console

def scroll (console : Console) : Console :=
  let lifted := (List.range (maxRows - 1)).foldl liftRow console
  (List.range maxCols).foldl (fun console j =>
    console.writeCell ((maxRows - 1) * maxCols + j) blank) lifted

def newLine (console : Console) : Console :=
  let console := { console with mCol := 0, mRow := (console.mRow + 1) % 256 }
  if console.mRow = maxRows then scroll { console with mRow := console.mRow - 1 } else console

def moveCursor (console : Console) : Console :=
  { console with cursor := (console.mRow * maxCols + console.mCol) % 65536 }

def putColor (console : Console) (ch : Ch) (fg bg : Color) : Console :=
  if ch = 0x0A then console.newLine
  else
    let console := console.writeCell (console.mCol + console.mRow * maxCols) (createChar ch fg bg)
    let console := { console with mCol := (console.mCol + 1) % 256 }
    if console.mCol = maxCols then console.newLine else console

def putChar (console : Console) (ch : Ch) : Console :=
  console.putColor ch .white .black

def putColorStr (console : Console) (string : List Ch) (fg bg : Color) : Console :=
  string.foldl (fun console ch => console.putColor ch fg bg) console

def putStr (console : Console) (string : List Ch) : Console :=
  string.foldl putChar console

def printChar (console : Console) (ch : Ch) : Console :=
  (console.putChar ch).moveCursor

def move (console : Console) (amt : Int) : Console :=
  let newCol : Int := console.mCol + amt
  if newCol < 0 then
    { console with mCol := 0, mRow := if console.mRow > 0 then console.mRow - 1 else console.mRow }
  else if newCol ≥ maxCols then
    let console := { console with
      mCol := ((newCol - maxCols) % 256).toNat
      mRow := (console.mRow + 1) % 256 }
    -- the row is not taken back here, as `newLine` does
    if console.mRow = maxRows then console.scroll else console
  else { console with mCol := newCol.toNat }

/-- One cell back, to the end of the row above from the first column. -/
def stepBack (console : Console) : Console :=
  if console.mCol = 0 then
    if console.mRow ≠ 0 then { console with mCol := maxCols - 1, mRow := console.mRow - 1 }
    else console
  else { console with mCol := console.mCol - 1 }

def putCharBack (console : Console) (ch : Ch) : Console :=
  (console.writeCell (console.mCol + console.mRow * maxCols) (createChar ch .white .black)).stepBack

def printBackChar (console : Console) (ch : Ch) : Console :=
  let console := console.stepBack
  (console.writeCell (console.mCol + console.mRow * maxCols) (createChar ch .white .black)).moveCursor

def clear (console : Console) : Console :=
  let blanked := (List.range (maxRows * maxCols)).foldl
    (fun console i => console.writeCell i blank) console
  { blanked with mCol := 0, mRow := 0 }.moveCursor

def rowUp (console : Console) : Console :=
  if console.mRow > 0 then { console with mRow := console.mRow - 1 }.moveCursor else console

def rowDown (console : Console) : Console :=
  if console.mRow < maxRows - 1 then { console with mRow := console.mRow + 1 }.moveCursor
  else console

def colBack (console : Console) : Console :=
  if console.mCol > 0 then { console with mCol := console.mCol - 1 }.moveCursor else console

def colForward (console : Console) : Console :=
  if console.mCol < maxCols - 1 then { console with mCol := console.mCol + 1 }.moveCursor
  else console

/-- `do { body; num /= base; } while (num > 0)`. A 32-bit number is used up
after at most 32 rounds, whatever the base. -/
def divLoop {α : Type} (base : Nat) (body : α → Nat → α) : Nat → α → Nat → α
  | 0, state, _ => state
  | fuel + 1, state, num =>
    let state := body state num
    if num / base > 0 then divLoop base body fuel state (num / base) else state

def numDigits (num base : Nat) : Nat :=
  divLoop base (fun counter _ => (counter + 1) % 256) 32 0 num

/-- The digits are written from the last one backwards. -/
def putDigits (console : Console) (base : Nat) (digit : Nat → Ch) (num : Nat) : Console :=
  let digits : Int := numDigits num base
  let written := divLoop base (fun console num => console.putCharBack (digit (num % base))) 32
    (console.move (digits - 1)) num
  written.move (digits + 1)

def putU32 (console : Console) (num : BitVec 32) : Console :=
  console.putDigits 10 (fun digit => BitVec.ofNat 8 (digit + 0x30)) num.toNat

def hexValues : List Ch :=
  [0x30, 0x31, 0x32, 0x33, 0x34, 0x35, 0x36, 0x37, 0x38, 0x39, 0x41, 0x42, 0x43, 0x44, 0x45, 0x46]

def putPtr (console : Console) (ptr : BitVec 32) : Console :=
  (console.putStr [0x30, 0x78]).putDigits 16 (fun digit => hexValues.getD digit 0) ptr.toNat

def putBool (console : Console) (b : Bool) : Console :=
  console.putStr (if b then [0x74, 0x72, 0x75, 0x65] else [0x66, 0x61, 0x6C, 0x73, 0x65])

/-- What the overloads of `put` print. -/
inductive Arg where
  | char (ch : Ch)
  | str (string : List Ch)
  | u32 (num : BitVec 32)
  | i32 (num : BitVec 32)
  | u16 (num : BitVec 16)
  | i16 (num : BitVec 16)
  | u8 (num : BitVec 8)
  | i8 (num : BitVec 8)
  | bool (b : Bool)
  | ptr (ptr : BitVec 32)

/-- Every integer is converted to `u32`, the signed ones with their sign. -/
def put (console : Console) : Arg → Console
  | .char ch => console.putChar ch
  | .str string => console.putStr string
  | .u32 num => console.putU32 num
  | .i32 num => console.putU32 num
  | .u16 num => console.putU32 (num.zeroExtend 32)
  | .i16 num => console.putU32 (num.signExtend 32)
  | .u8 num => console.putU32 (num.zeroExtend 32)
  | .i8 num => console.putU32 (num.signExtend 32)
  | .bool b => console.putBool b
  | .ptr ptr => console.putPtr ptr

def print (console : Console) (args : List Arg) : Console :=
  (args.foldl put console).moveCursor

def printLine (console : Console) (args : List Arg) : Console :=
  ((console.print args).newLine).moveCursor

/-- `put_color` is overloaded on characters and strings alone. -/
def printColor (console : Console) (fg bg : Color) (args : List (List Ch)) : Console :=
  args.foldl (fun console string => console.putColorStr string fg bg) console

def printLineColor (console : Console) (fg bg : Color) (args : List (List Ch)) : Console :=
  ((console.printColor fg bg args).newLine).moveCursor

/-- The operations of the console. -/
inductive Operation where
  | putChar (ch : Ch)
  | printChar (ch : Ch)
  | putColor (ch : Ch) (fg bg : Color)
  | putColorStr (string : List Ch) (fg bg : Color)
  | put (arg : Arg)
  | print (args : List Arg)
  | printLine (args : List Arg)
  | printColor (fg bg : Color) (args : List (List Ch))
  | printLineColor (fg bg : Color) (args : List (List Ch))
  | printBackChar (ch : Ch)
  | putCharBack (ch : Ch)
  | rowUp
  | rowDown
  | colBack
  | colForward
  | clear

def perform (console : Console) : Operation → Console
  | .putChar ch => console.putChar ch
  | .printChar ch => console.printChar ch
  | .putColor ch fg bg => console.putColor ch fg bg
  | .putColorStr string fg bg => console.putColorStr string fg bg
  | .put arg => console.put arg
  | .print args => console.print args
  | .printLine args => console.printLine args
  | .printColor fg bg args => console.printColor fg bg args
  | .printLineColor fg bg args => console.printLineColor fg bg args
  | .printBackChar ch => console.printBackChar ch
  | .putCharBack ch => console.putCharBack ch
  | .rowUp => console.rowUp
  | .rowDown => console.rowDown
  | .colBack => console.colBack
  | .colForward => console.colForward
  | .clear => console.clear

end Console

end WalnutOs.Klib
