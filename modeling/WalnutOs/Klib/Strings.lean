import WalnutOs.Klib.Console

/-! The strings of `klib/strings.hh`: a pointer and a size, with the decimal
numbers and the tokens that are read from them. -/

namespace WalnutOs.Klib

/-- `string` is the memory from the first character on. -/
structure Str where
  string : Nat → Ch
  size : BitVec 32

namespace Str

def len (string : Str) : Nat := string.size.toNat

/-- The characters of the string. -/
def chars (string : Str) : List Ch := (List.range string.len).map string.string

/-- A string literal. -/
def literal (chars : List Ch) : Str := ⟨fun i => chars.getD i 0, BitVec.ofNat 32 chars.length⟩

/-- The constructor from a pointer takes the size with its null character. -/
def ofPointer (string : Nat → Ch) (size : BitVec 32) : Str := ⟨string, size - 1⟩

/-- The loop of `into_u32`, from the last character down. -/
def intoU32Loop (string : Nat → Ch) : Nat → (mult value prev : BitVec 32) → Except Unit (BitVec 32)
  | 0, _, value, _ => .ok value
  | place + 1, mult, value, prev =>
    if BitVec.slt 0x39 (string place) || BitVec.slt (string place) 0x30 then .error ()
    else
      let value := value + ((string place).signExtend 32 - 0x30) * mult
      if value < prev then .error () else intoU32Loop string place (mult * 10) value value

def intoU32 (string : Str) : Except Unit (BitVec 32) :=
  if string.size > 10 ∨ string.size = 0 then .error ()
  else intoU32Loop string.string string.len 1 0 0

def equals (string other : Str) : Bool :=
  other.size = string.size ∧ (List.range string.len).all fun i => other.string i = string.string i

/-- Where `for (; pos < stop && !found(pos); ++pos)` ends. -/
def scan (found : Nat → Bool) (pos stop : Nat) : Nat :=
  ((List.range' pos (stop - pos)).find? found).getD (max pos stop)

structure Split where
  string : Nat → Ch
  pos : BitVec 32
  stop : BitVec 32
  delimiter : Ch

def split (string : Str) (ch : Ch) : Split :=
  ⟨string.string, BitVec.ofNat 32 (scan (fun i => string.string i ≠ ch) 0 string.len), string.size, ch⟩

namespace Split

def remainder (split : Split) : Str :=
  .ofPointer (fun i => split.string (split.pos.toNat + i)) (split.stop - split.pos + 1)

def done (split : Split) : Bool := split.pos ≥ split.stop

def next (split : Split) : Option Str × Split :=
  if split.pos ≥ split.stop then (none, split)
  else
    let start := scan (fun i => split.string i ≠ split.delimiter) split.pos.toNat split.stop.toNat
    if start = split.stop.toNat then (none, { split with pos := split.stop })
    else
      let last := scan (fun i => split.string i = split.delimiter) start split.stop.toNat
      (some (.ofPointer (fun i => split.string (start + i)) (BitVec.ofNat 32 (last - start + 1))),
        { split with pos := BitVec.ofNat 32 (last + 1) })

end Split

end Str

end WalnutOs.Klib
