import WalnutOs.Userspace.Command
import WalnutOs.Userspace.ShellKeys

/-! The lines that are typed at the shell: what its buffer holds, what it hands to `parse_input`, and
what comes of them. -/

namespace WalnutOs.Userspace

open WalnutOs.Klib WalnutOs.Wnfs KeyboardResponse

/-- The line that is being typed, and the keys that are held. -/
structure Editor where
  leftShiftPressed : Bool
  rightShiftPressed : Bool
  extended : Bool
  text : List Ch

namespace Editor

def blank : Editor := ⟨false, false, false, []⟩

def key (editor : Editor) (keyCode : KeyboardResponse) : Ch :=
  if editor.leftShiftPressed || editor.rightShiftPressed then responseToShiftedChar keyCode
  else responseToChar keyCode

/-- A line ends at 512 characters; more of them are not taken. -/
def insert (editor : Editor) (key : Ch) : Editor :=
  if editor.text.length < Shell.bufferLen then { editor with text := editor.text ++ [key] } else editor

def control (editor : Editor) (keyCode : KeyboardResponse) : Editor :=
  if keyCode = backspaceDown then { editor with text := editor.text.dropLast }
  else if keyCode = leftShiftDown then { editor with leftShiftPressed := true }
  else if keyCode = rightShiftDown then { editor with rightShiftPressed := true }
  else if keyCode = leftShiftUp then { editor with leftShiftPressed := false }
  else if keyCode = rightShiftUp then { editor with rightShiftPressed := false }
  else if keyCode = nextIsExtended then { editor with extended := true }
  else editor

/-- The editor after a key, and the line that the key enters, if any. -/
def press (editor : Editor) (keyCode : KeyboardResponse) : Editor × List (List Ch) :=
  if editor.key keyCode ≠ 0 then (editor.insert (editor.key keyCode), [])
  else if keyCode = enterDown then ({ editor with text := [] }, [editor.text])
  else if editor.extended then ({ editor with extended := false }, [])
  else (editor.control keyCode, [])

/-- The lines that a sequence of keys enters, and the editor after it. -/
def entered : Editor → List KeyboardResponse → List (List Ch)
  | _, [] => []
  | editor, keyCode :: later => (editor.press keyCode).2 ++ entered (editor.press keyCode).1 later

def after (editor : Editor) (codes : List KeyboardResponse) : Editor :=
  codes.foldl (fun editor keyCode => (editor.press keyCode).1) editor

end Editor

/-- One line after the other is executed. -/
def Storage.execute (storage : Storage) (lines : List (List Ch)) : Except Fault Storage :=
  lines.foldlM (fun storage line => Command.run storage (.ofLine line)) storage

theorem Storage.execute_append (storage : Storage) (lines more : List (List Ch)) :
    storage.execute (lines ++ more) = (storage.execute lines).bind (·.execute more) :=
  List.foldlM_append

namespace Shell

def consumeAll (shell : Shell) (codes : List KeyboardResponse) : Except Fault Shell :=
  codes.foldlM (fun shell keyCode => shell.consume keyCode) shell

/-- The input buffer holds the line of the editor. -/
structure Follows (shell : Shell) (editor : Editor) : Prop where
  leftShiftPressed : shell.leftShiftPressed = editor.leftShiftPressed
  rightShiftPressed : shell.rightShiftPressed = editor.rightShiftPressed
  extended : shell.extended = editor.extended
  text : Str.between shell.inputBuffer 0 shell.bufPtr = editor.text
  inside : shell.bufPtr ≤ bufferLen

variable {shell after : Shell} {editor : Editor} {keyCode : KeyboardResponse}

theorem Follows.length (follows : Follows shell editor) : editor.text.length = shell.bufPtr := by
  rw [← follows.text, Str.between, List.length_map, List.length_range', Nat.sub_zero]

theorem Follows.key (follows : Follows shell editor) (keyCode : KeyboardResponse) :
    shell.key keyCode = editor.key keyCode := by
  rw [Shell.key, Editor.key, follows.leftShiftPressed, follows.rightShiftPressed]
  cases editor.leftShiftPressed <;> cases editor.rightShiftPressed <;> rfl

/-- A character more at the end of the buffer. -/
theorem between_update (buffer : Nat → Ch) (stop : Nat) (key : Ch) :
    Str.between (Function.update buffer stop key) 0 (stop + 1) = Str.between buffer 0 stop ++ [key] := by
  rw [Str.between, Str.between, Nat.sub_zero, Nat.sub_zero, ← List.range_eq_range', ← List.range_eq_range',
    List.range_succ, List.map_append, List.map_singleton, Function.update_self]
  refine congrArg (· ++ [key]) (List.map_congr_left fun place member => ?_)
  exact Function.update_of_ne (Nat.ne_of_lt (List.mem_range.mp member)) _ _

theorem between_dropLast (buffer : Nat → Ch) (stop : Nat) :
    Str.between buffer 0 (stop - 1) = (Str.between buffer 0 stop).dropLast := by
  cases stop with
  | zero => rfl
  | succ stop =>
    rw [Str.between, Str.between, Nat.sub_zero, Nat.sub_zero, ← List.range_eq_range', ← List.range_eq_range',
      List.range_succ, List.map_append, List.map_singleton, List.dropLast_concat]
    rfl

theorem Follows.typeKey (follows : Follows shell editor) (key : Ch) :
    Follows (shell.typeKey key) (editor.insert key) := by
  rw [Shell.typeKey, Editor.insert, follows.length]
  by_cases room : shell.bufPtr < bufferLen
  · rw [if_pos room, if_pos room]
    exact ⟨follows.leftShiftPressed, follows.rightShiftPressed, follows.extended,
      (between_update _ _ _).trans (congrArg (· ++ [key]) follows.text), room⟩
  · rw [if_neg room, if_neg room]
    exact follows

theorem Follows.plainKey (follows : Follows shell editor) (keyCode : KeyboardResponse) :
    Follows (shell.plainKey keyCode) (editor.control keyCode) := by
  obtain ⟨left, right, extended, text, inside⟩ := follows
  rw [Shell.plainKey, Editor.control]
  split
  · have shorter : Str.between shell.inputBuffer 0 (shell.bufPtr - 1) = editor.text.dropLast :=
      (between_dropLast _ _).trans (congrArg List.dropLast text)
    split
    · exact ⟨left, right, extended, shorter, Nat.le_trans (Nat.sub_le _ _) inside⟩
    · rename_i empty
      have none : shell.bufPtr - 1 = shell.bufPtr := by omega
      exact ⟨left, right, extended, none ▸ shorter, inside⟩
  repeat' split
  · exact ⟨rfl, right, extended, text, inside⟩
  · exact ⟨left, rfl, extended, text, inside⟩
  · exact ⟨rfl, right, extended, text, inside⟩
  · exact ⟨left, rfl, extended, text, inside⟩
  · exact ⟨left, right, rfl, text, inside⟩
  · exact ⟨left, right, extended, text, inside⟩

theorem plainKey_storage (shell : Shell) (keyCode : KeyboardResponse) :
    (shell.plainKey keyCode).system.storage = shell.system.storage := by
  rw [Shell.plainKey]
  repeat' split
  all_goals rfl

/-- The line that a key enters is executed, and the buffer holds the editor's line again. -/
theorem Follows.consume (follows : Follows shell editor)
    (ends : ∀ line ∈ (editor.press keyCode).2, ¬Command.WritesPastEnd line) :
    (shell.consume keyCode).map (fun after => after.system.storage) =
        shell.system.storage.execute (editor.press keyCode).2 ∧
      ∀ after, shell.consume keyCode = .ok after → Follows after (editor.press keyCode).1 := by
  have same := follows.key keyCode
  rw [Shell.consume, Editor.press, same] at *
  by_cases character : editor.key keyCode ≠ 0
  · rw [if_pos character, if_pos character]
    have typed := follows.typeKey (editor.key keyCode)
    refine ⟨?_, fun after answer => Except.ok.inj answer ▸ typed⟩
    rw [Shell.typeKey]
    split <;> rfl
  rw [if_neg character] at ends
  rw [if_neg character, if_neg character]
  by_cases enter : keyCode = enterDown
  · rw [if_pos enter] at ends
    rw [if_pos enter, if_pos enter]
    have whole := ends _ (List.mem_singleton_self _)
    rw [← follows.text] at whole
    have short : shell.bufPtr + 1 < 2 ^ 32 := Nat.lt_of_le_of_lt (Nat.succ_le_succ follows.inside) (by decide)
    have parsed := System.parseInput_storage short whole (shell.system.printLine [])
    rw [System.storage_printLine, follows.text] at parsed
    rw [Storage.execute, List.foldlM_cons, ← parsed]
    cases (shell.system.printLine []).parseInput shell.inputBuffer shell.bufPtr with
    | error fault =>
      refine ⟨rfl, fun after answer => ?_⟩
      cases answer
    | ok system =>
      refine ⟨rfl, fun after answer => Except.ok.inj answer ▸ ?_⟩
      exact ⟨follows.leftShiftPressed, follows.rightShiftPressed, follows.extended, rfl, Nat.zero_le _⟩
  · rw [if_neg enter, if_neg enter, follows.extended]
    cases extended : editor.extended with
    | false =>
      refine ⟨?_, fun after answer => Except.ok.inj answer ▸ follows.plainKey keyCode⟩
      exact congrArg Except.ok (plainKey_storage shell keyCode)
    | true =>
      refine ⟨rfl, fun after answer => Except.ok.inj answer ▸ ?_⟩
      exact ⟨follows.leftShiftPressed, follows.rightShiftPressed, rfl, follows.text, follows.inside⟩

theorem consumeAll_cons (shell : Shell) (keyCode : KeyboardResponse) (later : List KeyboardResponse) :
    shell.consumeAll (keyCode :: later) = (shell.consume keyCode).bind (·.consumeAll later) := rfl

theorem Follows.consumeAll (follows : Follows shell editor) {codes : List KeyboardResponse}
    (ends : ∀ line ∈ editor.entered codes, ¬Command.WritesPastEnd line) :
    (shell.consumeAll codes).map (fun final => final.system.storage) =
        shell.system.storage.execute (editor.entered codes) ∧
      ∀ final, shell.consumeAll codes = .ok final → Follows final (editor.after codes) := by
  induction codes generalizing shell editor with
  | nil => exact ⟨rfl, fun final answer => Except.ok.inj answer ▸ follows⟩
  | cons keyCode later ih =>
    rw [Editor.entered, List.forall_mem_append] at ends
    obtain ⟨executed, next⟩ := follows.consume ends.1
    rw [consumeAll_cons, Editor.entered, Storage.execute_append, ← executed]
    cases taken : shell.consume keyCode with
    | error fault =>
      refine ⟨rfl, fun final answer => ?_⟩
      cases answer
    | ok after => exact ih (next after taken) ends.2

/-- Whatever keys come, the shell's buffer holds the line as it was edited and never more than its 512
characters, and the file and the disk are as the lines entered leave them, executed one after the other;
a fault comes at the line that has it. No line may end with the word `write`. -/
theorem lines_executed (memory : Nat → Ch) (system : System) (codes : List KeyboardResponse)
    (ends : ∀ line ∈ Editor.blank.entered codes, ¬Command.WritesPastEnd line) :
    ((start memory system).consumeAll codes).map (fun final => final.system.storage) =
        system.storage.execute (Editor.blank.entered codes) ∧
      ∀ final, (start memory system).consumeAll codes = .ok final →
        Str.between final.inputBuffer 0 final.bufPtr = (Editor.blank.after codes).text ∧
          final.bufPtr ≤ bufferLen := by
  have initial : Follows (start memory system) .blank := ⟨rfl, rfl, rfl, rfl, Nat.zero_le _⟩
  obtain ⟨executed, holds⟩ := initial.consumeAll ends
  exact ⟨executed, fun final answer => ⟨(holds final answer).text, (holds final answer).inside⟩⟩

/-- A command is mistyped and put right. -/
theorem lines_executed_seek :
    ((start (fun _ => 0) ShellRun.idle).consumeAll [0x1F, 0x12, 0x12, 0x2D, 0x0E, 0x25, 0x39, 0x08, 0x1C]).map
        (fun final => final.system.storage) =
      ShellRun.idle.storage.execute [literal "seek 7"] :=
  (lines_executed (fun _ => 0) ShellRun.idle [0x1F, 0x12, 0x12, 0x2D, 0x0E, 0x25, 0x39, 0x08, 0x1C]
    (by decide +kernel)).1

end Shell

end WalnutOs.Userspace
