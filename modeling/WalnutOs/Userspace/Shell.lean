import WalnutOs.Klib.Keyboard
import WalnutOs.Klib.Strings
import WalnutOs.Vfs.FileHandle

/-! The shell, `userspace/shell/shell.cc`, with the tables of `ps2/keyboard.cc` that turn
scan codes into characters. -/

namespace WalnutOs.Klib

namespace KeyboardResponse

def backspaceDown : KeyboardResponse := 0x0E
def enterDown : KeyboardResponse := 0x1C
def leftShiftDown : KeyboardResponse := 0x2A
def rightShiftDown : KeyboardResponse := 0x36
def leftShiftUp : KeyboardResponse := 0xAA
def rightShiftUp : KeyboardResponse := 0xB6
def nextIsExtended : KeyboardResponse := 0xE0
def exCursorUpDown : KeyboardResponse := 0x48
def exCursorLeftDown : KeyboardResponse := 0x4B
def exCursorRightDown : KeyboardResponse := 0x4D
def exCursorDownDown : KeyboardResponse := 0x50

end KeyboardResponse

/-- The entries behind these are `'\0'`. -/
def keyTable : List Ch := [
  0x00, 0x00, 0x31, 0x32, 0x33, 0x34, 0x35, 0x36, 0x37, 0x38, 0x39, 0x30, 0x2D, 0x3D, 0x00, 0x00,
  0x71, 0x77, 0x65, 0x72, 0x74, 0x79, 0x75, 0x69, 0x6F, 0x70, 0x5B, 0x5D, 0x00, 0x00, 0x61, 0x73,
  0x64, 0x66, 0x67, 0x68, 0x6A, 0x6B, 0x6C, 0x3B, 0x27, 0x60, 0x00, 0x5C, 0x7A, 0x78, 0x63, 0x76,
  0x62, 0x6E, 0x6D, 0x2C, 0x2E, 0x2F, 0x00, 0x00, 0x00, 0x20]

def shiftTable : List Ch := [
  0x00, 0x00, 0x21, 0x40, 0x23, 0x24, 0x25, 0x5E, 0x26, 0x2A, 0x28, 0x29, 0x5F, 0x2B, 0x00, 0x00,
  0x51, 0x57, 0x45, 0x52, 0x54, 0x59, 0x55, 0x49, 0x4F, 0x50, 0x7B, 0x7D, 0x00, 0x00, 0x41, 0x53,
  0x44, 0x46, 0x47, 0x48, 0x4A, 0x4B, 0x4C, 0x3A, 0x22, 0x7E, 0x00, 0x7C, 0x5A, 0x58, 0x43, 0x56,
  0x42, 0x4E, 0x4D, 0x3C, 0x3E, 0x3F, 0x00, 0x00, 0x00, 0x20]

def responseToChar (response : KeyboardResponse) : Ch := keyTable.getD response.toNat 0

def responseToShiftedChar (response : KeyboardResponse) : Ch := shiftTable.getD response.toNat 0

end WalnutOs.Klib

namespace WalnutOs.Userspace

open WalnutOs.Klib WalnutOs.Wnfs WalnutOs.Vfs

/-- A string literal of the source. -/
def literal (text : String) : List Ch := text.toList.map fun ch => BitVec.ofNat 8 ch.toNat

/-- The globals that the shell works on. A file handle without a drive is none. On the terminal is what
the shell itself prints: the lines in which `FileHandle::read` and `read_from_file` trace their calls, and
the warning of `keyboard_handler`, appear on the same screen and are left out. -/
structure System where
  terminal : Console
  file : Option FileHandle
  world : World

namespace System

def print (system : System) (args : List Console.Arg) : System :=
  { system with terminal := system.terminal.print args }

def printLine (system : System) (args : List Console.Arg) : System :=
  { system with terminal := system.terminal.printLine args }

def text (words : String) : Console.Arg := .str (literal words)

/-- A call on the open file. -/
def onFile {Value : Type} (call : FileHandle → WnfsM (Value × FileHandle)) (handle : FileHandle)
    (system : System) : Except Fault (Value × System) :=
  (call handle system.world).map fun ((value, handle), world) =>
    (value, { system with file := some handle, world })

def seek (position : Except Unit (BitVec 32)) (handle : FileHandle) (system : System) :
    Except Fault System :=
  match position with
  | .error _ => .ok (system.printLine [text "Please enter a valid position to seek to."])
  | .ok num => do
    match ← system.onFile (FileHandle.seek num.toNat) handle with
    | (.error _, system) => .ok (system.printLine [text "Error seeking in file"])
    | (.ok (), system) => .ok (system.printLine [text "Seeked to ", .u32 num])

def write (remainder : Str) (handle : FileHandle) (system : System) : Except Fault System := do
  match ← system.onFile (FileHandle.write remainder.chars) handle with
  | (.error _, system) => .ok (system.printLine [text "Failed writing to file"])
  | (.ok _, system) => .ok (system.printLine [text "Wrote ", .str remainder.chars, text " to file"])

def readErrorText : ReadError → String
  | .endOfFile => "end of file"
  | .badPosition => "bad file position"
  | .diskError | .badINode => "fatal"

def read (handle : FileHandle) (system : System) : Except Fault System := do
  match ← system.onFile (FileHandle.read 12) handle with
  | (.error error, system) =>
    .ok ((system.print [text "Error while reading file: "]).printLine [text (readErrorText error)])
  | (.ok bytes, system) =>
    let system := system.printLine [text "Read ", .u32 (BitVec.ofNat 32 bytes.length), text " bytes"]
    .ok ((bytes.foldl (fun system byte => system.print [.char byte]) system).printLine [])

def mkfile (arg : Str) (system : System) : Except Fault System := do
  match ← FileHandle.create arg.chars system.world with
  | (.error _, world) =>
    .ok ({ system with world }.printLine [text "File handle encountered an error"])
  | (.ok handle, world) =>
    .ok { system.printLine [text "File handle successfully created with name ", .str arg.chars] with
      file := some handle, world }

/-- A command on the open file does nothing without one. -/
def withFile (system : System) (command : FileHandle → System → Except Fault System) :
    Except Fault System :=
  match system.file with
  | none => .ok system
  | some handle => command handle system

def parseInput (buffer : Nat → Ch) (stop : Nat) (system : System) : Except Fault System :=
  let spaceSplit := Str.split ⟨buffer, BitVec.ofNat 32 stop⟩ 0x20
  if spaceSplit.done then .ok system
  else
    match spaceSplit.next with
    | (none, _) => .error .outOfBounds
    | (some command, spaceSplit) =>
      let is (name : String) : Bool := command.equals (.literal (literal name))
      if is "Hello" then .ok (system.printLine [text "Hello"])
      else if is "dir" then .ok system
      else if is "seek" then system.withFile (seek spaceSplit.remainder.intoU32)
      else if is "write" then system.withFile (write spaceSplit.remainder)
      else if is "read" then system.withFile read
      else if is "mkdir" then .ok system
      else if is "mkfile" then
        match spaceSplit.next.1 with
        | none => .ok system
        | some arg => system.mkfile arg
      else .ok system

end System

/-- `inputBuffer` is the memory from the buffer's first character on. -/
structure Shell where
  leftShiftPressed : Bool
  rightShiftPressed : Bool
  extended : Bool
  inputBuffer : Nat → Ch
  bufPtr : Nat
  system : System

namespace Shell

open KeyboardResponse

def bufferLen : Nat := 512

/-- `shell_main` before its loop; the buffer is not initialised. -/
def start (memory : Nat → Ch) (system : System) : Shell :=
  ⟨false, false, false, memory, 0, system.print [.char 0x3E]⟩

/-- The key switch without the extended flag. -/
def plainKey (shell : Shell) (keyCode : KeyboardResponse) : Shell :=
  if keyCode = backspaceDown then
    if shell.bufPtr > 0 then
      { shell with
        system.terminal := shell.system.terminal.printBackChar 0x20
        bufPtr := shell.bufPtr - 1 }
    else shell
  else if keyCode = leftShiftDown then { shell with leftShiftPressed := true }
  else if keyCode = rightShiftDown then { shell with rightShiftPressed := true }
  else if keyCode = leftShiftUp then { shell with leftShiftPressed := false }
  else if keyCode = rightShiftUp then { shell with rightShiftPressed := false }
  else if keyCode = nextIsExtended then { shell with extended := true }
  else shell

/-- The key switch with the extended flag, which moves the terminal's cursor. -/
def extendedKey (terminal : Console) (keyCode : KeyboardResponse) : Console :=
  if keyCode = exCursorUpDown then terminal.rowUp
  else if keyCode = exCursorDownDown then terminal.rowDown
  else if keyCode = exCursorLeftDown then terminal.colBack
  else if keyCode = exCursorRightDown then terminal.colForward
  else terminal

def typeKey (shell : Shell) (key : Ch) : Shell :=
  if shell.bufPtr < bufferLen then
    { shell with
      inputBuffer := Function.update shell.inputBuffer shell.bufPtr key
      bufPtr := shell.bufPtr + 1
      system := shell.system.print [.char key] }
  else shell

/-- The character of a scan code, `'\0'` where it has none. -/
def key (shell : Shell) (keyCode : KeyboardResponse) : Ch :=
  if !shell.leftShiftPressed && !shell.rightShiftPressed then responseToChar keyCode
  else responseToShiftedChar keyCode

/-- One turn of the loop. A character and Enter leave it before the extended flag is cleared. -/
def consume (keyCode : KeyboardResponse) (shell : Shell) : Except Fault Shell :=
  if shell.key keyCode ≠ 0 then .ok (shell.typeKey (shell.key keyCode))
  else if keyCode = enterDown then
    ((shell.system.printLine []).parseInput shell.inputBuffer shell.bufPtr).map fun system =>
      { shell with system := system.print [.char 0x3E], bufPtr := 0 }
  else if !shell.extended then .ok (shell.plainKey keyCode)
  else .ok { shell with
    system.terminal := extendedKey shell.system.terminal keyCode
    extended := false }

end Shell

end WalnutOs.Userspace
