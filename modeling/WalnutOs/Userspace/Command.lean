import Mathlib.Data.List.DropRight
import WalnutOs.Klib.StringNumbers
import WalnutOs.Klib.StringTokens
import WalnutOs.Userspace.Shell

/-! What a line of the shell asks for, in terms of its characters, and that `parse_input` does it. -/

namespace WalnutOs.Klib.Str

open WalnutOs.Lib

/-- The first word of a text and what is behind the space that ends it. -/
def firstWord (delimiter : Ch) (text : List Ch) : List Ch :=
  (text.dropWhile (· = delimiter)).takeWhile (· ≠ delimiter)

def behindWord (delimiter : Ch) (text : List Ch) : List Ch :=
  ((text.dropWhile (· = delimiter)).dropWhile (· ≠ delimiter)).tail

variable {string : Nat → Ch} {pos stop : Nat} {text : List Ch}

theorem firstWord_eq_nil_iff {delimiter : Ch} : firstWord delimiter text = [] ↔
    text.dropWhile (· = delimiter) = [] := by
  rw [firstWord]
  cases more : text.dropWhile (· = delimiter) with
  | nil => exact Iff.rfl
  | cons ch rest =>
    have other := List.head?_dropWhile_not (fun other => decide (other = delimiter)) text
    rw [more] at other
    have kept : decide (ch ≠ delimiter) = true := by simpa using other
    rw [List.takeWhile_cons, kept]
    exact iff_of_false (List.cons_ne_nil _ _) (List.cons_ne_nil _ _)

/-- The characters from one place up to another. -/
def between (string : Nat → Ch) (pos stop : Nat) : List Ch := (List.range' pos (stop - pos)).map string

theorem between_of_le (past : stop ≤ pos) : between string pos stop = [] := by
  rw [between, Nat.sub_eq_zero_of_le past]
  rfl

theorem chars_between (small : stop - pos < 2 ^ 32) (string : Nat → Ch) :
    chars ⟨fun i => string (pos + i), BitVec.ofNat 32 (stop - pos)⟩ = between string pos stop := by
  rw [chars, len, toNat_place small, between, List.range'_eq_map_range, List.map_map]
  rfl

/-- Where the two loops of `next` end, in the text ahead. -/
theorem between_scan (inside : pos ≤ stop) (found : Ch → Bool) :
    let place := scan (fun i => found (string i)) pos stop
    (between string pos stop).takeWhile (fun ch => !found ch) = between string pos place ∧
      (between string pos stop).dropWhile (fun ch => !found ch) = between string place stop ∧
      pos ≤ place ∧ place ≤ stop := by
  obtain ⟨low, high, -⟩ := Tokens.firstFrom_spec (fun i => found (string i)) inside
  obtain ⟨taken, dropped⟩ := @Tokens.span_range' (fun i => found (string i)) pos stop inside
  simp only [between, List.takeWhile_map, List.dropWhile_map]
  exact ⟨congrArg (List.map string) taken, congrArg (List.map string) dropped, low, high⟩

theorem chars_literal (short : text.length < 2 ^ 32) : (literal text).chars = text := by
  apply List.ext_getElem
  · rw [length_chars, literal, len, toNat_place short]
  · intro place _ inside
    simp [Str.chars, literal, List.getD_eq_getElem?_getD, inside]

theorem equals_iff (string other : Str) : string.equals other = true ↔ string.chars = other.chars := by
  have size : other.size = string.size ↔ string.len = other.len := by
    rw [len, len, ← BitVec.toNat_inj, eq_comm]
  rw [equals, decide_eq_true_iff, size]
  constructor
  · rintro ⟨length, same⟩
    rw [Str.chars, Str.chars, ← length]
    refine List.map_congr_left fun place member => ?_
    exact (of_decide_eq_true (List.all_eq_true.mp same place member)).symm
  · intro same
    have length : string.len = other.len := by
      rw [← length_chars, ← length_chars, same]
    refine ⟨length, List.all_eq_true.mpr fun place member => decide_eq_true ?_⟩
    rw [Str.chars, Str.chars, ← length] at same
    exact (List.map_inj_left.mp same place member).symm

theorem intoU32_congr {string other : Str} (same : string.chars = other.chars) :
    string.intoU32 = other.intoU32 := by
  rw [intoU32_eq, intoU32_eq, same]

namespace Split

/-- The text that is still to be split. -/
def ahead (split : Split) : List Ch := between split.string split.pos.toNat split.stop.toNat

theorem remainder_chars {split : Split} (inside : split.pos.toNat ≤ split.stop.toNat) :
    split.remainder.chars = split.ahead := by
  have size : split.stop - split.pos = BitVec.ofNat 32 (split.stop.toNat - split.pos.toNat) := by
    bv_omega
  have small : split.stop.toNat - split.pos.toNat < 2 ^ 32 := by omega
  rw [remainder, ofPointer, BitVec.add_sub_cancel, size, chars_between small, ahead]

/-- One past the end there is no text ahead, and the wrapped size of the remainder is no number's. -/
theorem intoU32_remainder {split : Split} (past : split.pos.toNat ≤ split.stop.toNat + 1) :
    split.remainder.intoU32 = (literal split.ahead).intoU32 := by
  have bound := split.stop.isLt
  rcases Nat.lt_or_eq_of_le past with inside | behind
  · refine intoU32_congr ((remainder_chars (Nat.le_of_lt_succ inside)).trans (chars_literal ?_).symm)
    rw [ahead, between, List.length_map, List.length_range']
    omega
  · have size : split.remainder.size = 0xFFFFFFFF := by
      rw [remainder, ofPointer]
      bv_omega
    rw [ahead, between_of_le (by omega), intoU32, if_pos (.inl (by rw [size]; decide))]
    rfl

/-- A call of `next` takes the first word of the text ahead. -/
theorem next_cases (split : Split) (short : split.stop.toNat + 1 < 2 ^ 32) :
    (split.ahead.dropWhile (· = split.delimiter) = [] ∧ split.next.1 = none) ∨
      split.ahead.dropWhile (· = split.delimiter) ≠ [] ∧ ∃ token last, last ≤ split.stop.toNat ∧
        split.next = (some token, { split with pos := BitVec.ofNat 32 (last + 1) }) ∧
        token.chars = firstWord split.delimiter split.ahead ∧
        (split.ahead.dropWhile (· = split.delimiter)).dropWhile (· ≠ split.delimiter) =
          between split.string last split.stop.toNat := by
  unfold next
  by_cases atEnd : split.pos ≥ split.stop
  · have nothing : split.ahead = [] := between_of_le (BitVec.le_def.mp atEnd)
    rw [if_pos atEnd, nothing]
    exact .inl ⟨rfl, rfl⟩
  · have inside : split.pos.toNat ≤ split.stop.toNat := Nat.le_of_not_le (atEnd ∘ BitVec.le_def.mpr)
    have skips : (fun ch => !decide (ch ≠ split.delimiter)) = fun ch => decide (ch = split.delimiter) := by
      simp
    have runs : (fun ch => !decide (ch = split.delimiter)) = fun ch => decide (ch ≠ split.delimiter) := by
      simp
    obtain ⟨-, skipped, -, bound⟩ := @between_scan split.string _ _ inside fun ch => ch ≠ split.delimiter
    rw [skips] at skipped
    rw [if_neg atEnd, firstWord, ahead, skipped]
    dsimp only
    by_cases blank : scan (fun i => split.string i ≠ split.delimiter) split.pos.toNat split.stop.toNat =
        split.stop.toNat
    · rw [if_pos blank, blank]
      exact .inl ⟨between_of_le (Nat.le_refl _), rfl⟩
    · obtain ⟨taken, dropped, low, high⟩ := @between_scan split.string _ _ bound fun ch => ch = split.delimiter
      rw [runs] at taken dropped
      have before := Nat.lt_of_le_of_ne bound blank
      rw [if_neg blank, taken, dropped, ofPointer_succ]
      refine .inr ⟨?_, _, _, high, rfl, chars_between (by omega) _, rfl⟩
      rw [between, ne_eq, List.map_eq_nil_iff, List.range'_eq_nil_iff]
      omega

theorem between_succ (last : Nat) :
    between string (last + 1) stop = (between string last stop).tail := by
  rw [between, between, ← List.map_tail, List.tail_range']
  rfl

end Split

end WalnutOs.Klib.Str

namespace WalnutOs.Klib.Str

open WalnutOs.Lib

theorem ahead_eq_nil_iff (split : Split) : split.ahead = [] ↔ split.done = true := by
  rw [Split.ahead, between, List.map_eq_nil_iff, List.range'_eq_nil_iff, Split.done, decide_eq_true_iff,
    ge_iff_le, BitVec.le_def]
  omega

/-- A fresh `Split` is behind the delimiters that the text starts with. -/
theorem split_ahead (string : Str) (ch : Ch) :
    (string.split ch).ahead = string.chars.dropWhile (· = ch) := by
  have bound := string.size.isLt
  have skips : (fun other => !decide (other ≠ ch)) = fun other => decide (other = ch) := by
    simp
  obtain ⟨-, skipped, -, inside⟩ := @between_scan string.string _ _ (Nat.zero_le string.len) fun other => other ≠ ch
  have whole : between string.string 0 string.len = string.chars := by
    rw [between, Nat.sub_zero, ← List.range_eq_range', chars]
  rw [skips, whole] at skipped
  have size : string.len < 2 ^ 32 := bound
  rw [skipped, Split.ahead, split, toNat_place (by omega)]
  rfl

/-- What a fresh `Split` does first. -/
theorem split_cases (string : Str) (ch : Ch) (short : string.len + 1 < 2 ^ 32) :
    (string.chars.dropWhile (· = ch) = [] ∧ (string.split ch).done = true) ∨
      (string.split ch).done = false ∧ ∃ token last, last ≤ string.len ∧
        (string.split ch).next = (some token, { string.split ch with pos := BitVec.ofNat 32 (last + 1) }) ∧
        token.chars = firstWord ch string.chars ∧
        (string.chars.dropWhile (· = ch)).dropWhile (· ≠ ch) = between string.string last string.len := by
  have ahead := split_ahead string ch
  have blank := ahead_eq_nil_iff (string.split ch)
  have again : ∀ text : List Ch, (text.dropWhile (· = ch)).dropWhile (· = ch) = text.dropWhile (· = ch) :=
    fun text => List.dropWhile_idempotent _ text
  have delimiter : (string.split ch).delimiter = ch := rfl
  have cases := (string.split ch).next_cases short
  rw [delimiter, ahead, again, firstWord, again] at cases
  rcases cases with ⟨nothing, -⟩ | ⟨more, token, last, bound, next, word, rest⟩
  · exact .inl ⟨nothing, blank.mp (ahead.trans nothing)⟩
  · refine .inr ⟨Bool.eq_false_iff.mpr fun done => more ?_, token, last, bound, next, word, rest⟩
    rw [← ahead, blank, done]

end WalnutOs.Klib.Str

namespace WalnutOs.Userspace

open WalnutOs.Klib WalnutOs.Wnfs WalnutOs.Vfs

/-- What the shell keeps apart from the screen. -/
structure Storage where
  file : Option FileHandle
  world : World

/-- What a line asks for; most lines change nothing but the screen. -/
inductive Command where
  | seek (position : List Ch)
  | write (words : List Ch)
  | read
  | mkfile (name : List Ch)
  | other

namespace Command

open Str

/-- The first word of a line says what to do, and the text behind the space that ends it with what. -/
def ofLine (line : List Ch) : Command :=
  if firstWord 0x20 line = literal "seek" then .seek (behindWord 0x20 line)
  else if firstWord 0x20 line = literal "write" then .write (behindWord 0x20 line)
  else if firstWord 0x20 line = literal "read" then .read
  else if firstWord 0x20 line = literal "mkfile" ∧ firstWord 0x20 (behindWord 0x20 line) ≠ [] then
    .mkfile (firstWord 0x20 (behindWord 0x20 line))
  else .other

/-- Without an open file there is nothing to do. -/
def onFile {Value : Type} (call : FileHandle → WnfsM (Value × FileHandle)) (storage : Storage) :
    Except Fault Storage :=
  match storage.file with
  | none => .ok storage
  | some handle => (call handle storage.world).map fun ((_, handle), world) => ⟨some handle, world⟩

def run (storage : Storage) : Command → Except Fault Storage
  | .seek position =>
    match (Str.literal position).intoU32 with
    | .error _ => .ok storage
    | .ok num => onFile (FileHandle.seek num.toNat) storage
  | .write words => onFile (FileHandle.write words) storage
  | .read => onFile (FileHandle.read 12) storage
  | .mkfile name => (FileHandle.create name storage.world).map fun
    | (.error _, world) => { storage with world }
    | (.ok handle, world) => ⟨some handle, world⟩
  | .other => .ok storage

/-- `write` at the very end of a line: there is no text behind it, and the text that the shell takes
instead begins behind the end of the line. -/
def WritesPastEnd (line : List Ch) : Prop :=
  firstWord 0x20 line = literal "write" ∧ (line.dropWhile (· = 0x20)).dropWhile (· ≠ 0x20) = []

instance (line : List Ch) : Decidable (WritesPastEnd line) := inferInstanceAs (Decidable (_ ∧ _))

end Command

namespace System

variable {system : System} {line : List Ch}

def storage (system : System) : Storage := ⟨system.file, system.world⟩

/-- Two systems with the same storage differ on the screen only. -/
theorem eq_of_storage {system other : System} (same : system.storage = other.storage) :
    system = { other with terminal := system.terminal } := by
  obtain ⟨terminal, file, world⟩ := system
  cases same
  rfl

theorem storage_printLine (system : System) (args : List Console.Arg) :
    (system.printLine args).storage = system.storage := rfl

theorem storage_prints (bytes : List Byte) (system : System) :
    (bytes.foldl (fun system byte => system.print [.char byte]) system).storage = system.storage := by
  induction bytes generalizing system with
  | nil => rfl
  | cons byte rest ih => exact ih _

theorem seek_storage (position : Except Unit (BitVec 32)) (system : System) :
    (system.withFile (seek position)).map storage = match position with
      | .error _ => .ok system.storage
      | .ok num => Command.onFile (FileHandle.seek num.toNat) system.storage := by
  obtain ⟨terminal, file, world⟩ := system
  cases file with
  | none => cases position <;> rfl
  | some handle =>
    cases position with
    | error _ => exact congrArg Except.ok (storage_printLine _ _)
    | ok num =>
      simp only [withFile, seek, onFile, Command.onFile, storage]
      rcases FileHandle.seek num.toNat handle world with fault | ⟨⟨answer, after⟩, world⟩
      · rfl
      · cases answer <;> rfl

theorem write_storage (remainder : Str) (system : System) :
    (system.withFile (write remainder)).map storage =
      Command.onFile (FileHandle.write remainder.chars) system.storage := by
  obtain ⟨terminal, file, world⟩ := system
  cases file with
  | none => rfl
  | some handle =>
    simp only [withFile, write, onFile, Command.onFile, storage]
    rcases FileHandle.write remainder.chars handle world with fault | ⟨⟨answer, after⟩, world⟩
    · rfl
    · cases answer <;> rfl

theorem read_storage (system : System) :
    (system.withFile read).map storage = Command.onFile (FileHandle.read 12) system.storage := by
  obtain ⟨terminal, file, world⟩ := system
  cases file with
  | none => rfl
  | some handle =>
    simp only [withFile, read, onFile, Command.onFile, storage]
    rcases FileHandle.read 12 handle world with fault | ⟨⟨answer, after⟩, world⟩
    · rfl
    · cases answer with
      | error _ => rfl
      | ok bytes => exact congrArg Except.ok (storage_prints bytes _)

theorem mkfile_storage (arg : Str) (system : System) :
    (system.mkfile arg).map storage = Command.run system.storage (.mkfile arg.chars) := by
  have same : system.storage.world = system.world := rfl
  simp only [mkfile, Command.run, same]
  rcases FileHandle.create arg.chars system.world with fault | ⟨answer, world⟩
  · rfl
  · cases answer with
    | error _ => exact congrArg Except.ok (storage_printLine { system with world } _)
    | ok handle => rfl

/-- What `parse_input` does to the file and the disk does not depend on the screen. -/
theorem parseInput_storage_congr {system other : System} (same : system.storage = other.storage)
    (buffer : Nat → Ch) (stop : Nat) :
    (system.parseInput buffer stop).map storage = (other.parseInput buffer stop).map storage := by
  have unchanged : (Except.ok system).map storage = (Except.ok other : Except Fault System).map storage :=
    congrArg Except.ok same
  unfold parseInput
  dsimp only
  split
  · exact unchanged
  split
  · rfl
  rename_i command rest _
  by_cases hello : command.equals (.literal (literal "Hello")) = true
  · rw [if_pos hello, if_pos hello]
    exact congrArg Except.ok ((storage_printLine system _).trans (same.trans (storage_printLine other _).symm))
  rw [if_neg hello, if_neg hello]
  by_cases dir : command.equals (.literal (literal "dir")) = true
  · rw [if_pos dir, if_pos dir]
    exact unchanged
  rw [if_neg dir, if_neg dir]
  by_cases seeks : command.equals (.literal (literal "seek")) = true
  · rw [if_pos seeks, if_pos seeks, seek_storage, seek_storage, same]
  rw [if_neg seeks, if_neg seeks]
  by_cases writes : command.equals (.literal (literal "write")) = true
  · rw [if_pos writes, if_pos writes, write_storage, write_storage, same]
  rw [if_neg writes, if_neg writes]
  by_cases reads : command.equals (.literal (literal "read")) = true
  · rw [if_pos reads, if_pos reads, read_storage, read_storage, same]
  rw [if_neg reads, if_neg reads]
  by_cases mkdir : command.equals (.literal (literal "mkdir")) = true
  · rw [if_pos mkdir, if_pos mkdir]
    exact unchanged
  rw [if_neg mkdir, if_neg mkdir]
  by_cases mkfile : command.equals (.literal (literal "mkfile")) = true
  · rw [if_pos mkfile, if_pos mkfile]
    cases rest.next.1 with
    | none => exact unchanged
    | some arg => exact (mkfile_storage arg system).trans (same ▸ (mkfile_storage arg other).symm)
  · rw [if_neg mkfile, if_neg mkfile]
    exact unchanged

/-- `parse_input` does to the file and the disk what the line asks for. -/
theorem parseInput_storage {buffer : Nat → Ch} {stop : Nat} (short : stop + 1 < 2 ^ 32)
    (inside : ¬Command.WritesPastEnd (Str.between buffer 0 stop)) (system : System) :
    (system.parseInput buffer stop).map storage =
      Command.run system.storage (.ofLine (Str.between buffer 0 stop)) := by
  have whole : Str.chars ⟨buffer, BitVec.ofNat 32 stop⟩ = Str.between buffer 0 stop := by
    have chars := @Str.chars_between 0 stop (by omega) buffer
    simp only [Nat.zero_add, Nat.sub_zero] at chars
    exact chars
  have len : Str.len ⟨buffer, BitVec.ofNat 32 stop⟩ = stop := Str.toNat_place (by omega)
  have first := Str.split_cases ⟨buffer, BitVec.ofNat 32 stop⟩ 0x20 (len.symm ▸ short)
  rw [whole, len] at first
  generalize Str.between buffer 0 stop = line at *
  unfold parseInput
  dsimp only
  rcases first with ⟨nothing, done⟩ | ⟨more, command, last, bound, next, word, rest⟩
  · rw [if_pos done, Command.ofLine, Str.firstWord, nothing]
    rfl
  · rw [if_neg (Bool.eq_false_iff.mp more), next]
    have is : ∀ name : String, (literal name).length < 2 ^ 32 →
        (command.equals (.literal (literal name)) = true ↔ Str.firstWord 0x20 line = literal name) :=
      fun name short => by rw [Str.equals_iff, word, Str.chars_literal short]
    simp only [is "Hello" (by decide), is "dir" (by decide), is "seek" (by decide), is "write" (by decide),
      is "read" (by decide), is "mkdir" (by decide), is "mkfile" (by decide)]
    have place := @Str.toNat_place (last + 1) (by omega)
    have size : (Str.split ⟨buffer, BitVec.ofNat 32 stop⟩ 0x20).stop.toNat = stop := len
    have ahead : Str.Split.ahead { Str.split ⟨buffer, BitVec.ofNat 32 stop⟩ 0x20 with
        pos := BitVec.ofNat 32 (last + 1) } = Str.behindWord 0x20 line := by
      rw [Str.behindWord, rest, ← Str.Split.between_succ, Str.Split.ahead, Str.toNat_place (by omega)]
      exact congrArg _ len
    by_cases hello : Str.firstWord 0x20 line = literal "Hello"
    · rw [if_pos hello, Command.ofLine, hello]
      exact congrArg Except.ok (storage_printLine _ _)
    rw [if_neg hello]
    by_cases dir : Str.firstWord 0x20 line = literal "dir"
    · rw [if_pos dir, Command.ofLine, dir]
      rfl
    rw [if_neg dir, Command.ofLine]
    by_cases seeks : Str.firstWord 0x20 line = literal "seek"
    · rw [if_pos seeks, if_pos seeks, seek_storage, Str.Split.intoU32_remainder, ahead]
      · rfl
      · rw [place, size]
        omega
    rw [if_neg seeks, if_neg seeks]
    by_cases writes : Str.firstWord 0x20 line = literal "write"
    · have before : last < stop := by
        refine Nat.lt_of_le_of_ne bound fun atEnd => inside ⟨writes, ?_⟩
        rw [rest, atEnd, Str.between_of_le (Nat.le_refl _)]
      rw [if_pos writes, if_pos writes, write_storage, Str.Split.remainder_chars, ahead]
      · rfl
      · rw [place, size]
        exact before
    rw [if_neg writes, if_neg writes]
    by_cases reads : Str.firstWord 0x20 line = literal "read"
    · rw [if_pos reads, if_pos reads, read_storage]
      rfl
    rw [if_neg reads, if_neg reads]
    by_cases mkdir : Str.firstWord 0x20 line = literal "mkdir"
    · rw [if_pos mkdir, mkdir]
      rfl
    rw [if_neg mkdir]
    by_cases mkfile : Str.firstWord 0x20 line = literal "mkfile"
    · rw [if_pos mkfile]
      have second := Str.Split.next_cases { Str.split ⟨buffer, BitVec.ofNat 32 stop⟩ 0x20 with
        pos := BitVec.ofNat 32 (last + 1) } (size.symm ▸ short)
      rw [ahead] at second
      rcases second with ⟨nothing, none⟩ | ⟨some, name, last, -, next, word, -⟩
      · have unnamed := Str.firstWord_eq_nil_iff.mpr nothing
        rw [none, if_neg fun named => named.2 unnamed]
        rfl
      · have named := some ∘ Str.firstWord_eq_nil_iff.mp
        rw [next, if_pos ⟨mkfile, named⟩]
        exact (system.mkfile_storage name).trans (by rw [word]; rfl)
    · rw [if_neg mkfile, if_neg fun made => mkfile made.1]
      rfl

end System

end WalnutOs.Userspace
