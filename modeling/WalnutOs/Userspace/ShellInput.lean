import WalnutOs.Klib.CircularContents
import WalnutOs.Userspace.Command
import WalnutOs.Userspace.ShellKeys

/-! The way of a key from the interrupt of the keyboard to the shell: the handler puts it into the
response buffer while the shell takes from there. -/

namespace WalnutOs.Userspace

open WalnutOs.Klib WalnutOs.Lib WalnutOs.Wnfs KeyboardResponse

/-- The answer behind a mapped one. -/
theorem exists_of_map_ok {Answer Other : Type} {answer : Except Fault Answer} {change : Answer → Other}
    {result : Other} (mapped : answer.map change = .ok result) :
    ∃ value, answer = .ok value ∧ change value = result := by
  cases answer with
  | error fault => cases mapped
  | ok value => exact ⟨value, rfl, Except.ok.inj mapped⟩

namespace Shell

/-- The shell with another screen. -/
def withTerminal (shell : Shell) (terminal : Console) : Shell :=
  { shell with system.terminal := terminal }

variable {shell after : Shell} {keyCode : KeyboardResponse}

theorem bufPtr_withTerminal (shell : Shell) (terminal : Console) :
    (shell.withTerminal terminal).bufPtr = shell.bufPtr :=
  rfl

theorem typeKey_withTerminal (shell : Shell) (ch : Ch) (terminal : Console) :
    ∃ shown, (shell.withTerminal terminal).typeKey ch = (shell.typeKey ch).withTerminal shown := by
  unfold typeKey
  rw [bufPtr_withTerminal]
  by_cases room : shell.bufPtr < bufferLen
  · rw [if_pos room, if_pos room]
    exact ⟨terminal.print [.char ch], rfl⟩
  · rw [if_neg room, if_neg room]
    exact ⟨terminal, rfl⟩

theorem plainKey_withTerminal (shell : Shell) (keyCode : KeyboardResponse) (terminal : Console) :
    ∃ shown, (shell.withTerminal terminal).plainKey keyCode =
      (shell.plainKey keyCode).withTerminal shown := by
  unfold plainKey
  rw [bufPtr_withTerminal]
  by_cases backspace : keyCode = backspaceDown
  · rw [if_pos backspace, if_pos backspace]
    by_cases typed : shell.bufPtr > 0
    · rw [if_pos typed, if_pos typed]
      exact ⟨terminal.printBackChar 0x20, rfl⟩
    · rw [if_neg typed, if_neg typed]
      exact ⟨terminal, rfl⟩
  rw [if_neg backspace, if_neg backspace]
  refine ⟨terminal, ?_⟩
  repeat' split
  all_goals rfl

/-- A code does the same whatever is on the screen. -/
theorem consume_withTerminal (taken : shell.consume keyCode = .ok after) (terminal : Console) :
    ∃ shown, (shell.withTerminal terminal).consume keyCode = .ok (after.withTerminal shown) := by
  have key : (shell.withTerminal terminal).key keyCode = shell.key keyCode := rfl
  unfold consume at taken ⊢
  rw [key]
  by_cases character : shell.key keyCode ≠ 0
  · rw [if_pos character] at taken ⊢
    cases Except.ok.inj taken
    obtain ⟨shown, same⟩ := shell.typeKey_withTerminal (shell.key keyCode) terminal
    exact ⟨shown, congrArg Except.ok same⟩
  rw [if_neg character] at taken ⊢
  by_cases enter : keyCode = enterDown
  · rw [if_pos enter] at taken ⊢
    have same := System.parseInput_storage_congr
      (show (shell.system.printLine []).storage = ((shell.withTerminal terminal).system.printLine []).storage
        from rfl) shell.inputBuffer shell.bufPtr
    obtain ⟨system, parsed, rfl⟩ := exists_of_map_ok taken
    rw [parsed] at same
    obtain ⟨other, again, equal⟩ := exists_of_map_ok same.symm
    refine ⟨(other.print [.char 0x3E]).terminal, ?_⟩
    rw [System.eq_of_storage equal] at again
    exact congrArg (Except.map _) again
  rw [if_neg enter] at taken ⊢
  have flag : (shell.withTerminal terminal).extended = shell.extended := rfl
  rw [flag]
  by_cases plain : (!shell.extended) = true
  · rw [if_pos plain] at taken ⊢
    cases Except.ok.inj taken
    obtain ⟨shown, same⟩ := shell.plainKey_withTerminal keyCode terminal
    exact ⟨shown, congrArg Except.ok same⟩
  · rw [if_neg plain] at taken ⊢
    cases Except.ok.inj taken
    exact ⟨extendedKey terminal keyCode, rfl⟩

end Shell

namespace ShellRun

def withTerminal (run : ShellRun) (terminal : Console) : ShellRun :=
  { run with shell := run.shell.withTerminal terminal }

theorem step_withTerminal {run after : ShellRun} {keyCode : KeyboardResponse}
    (taken : run.step keyCode = some after) (terminal : Console) :
    ∃ shown, (run.withTerminal terminal).step keyCode = some (after.withTerminal shown) := by
  obtain ⟨shell, codes⟩ := after
  obtain ⟨consumed, rfl⟩ := step_some taken
  obtain ⟨shown, same⟩ := Shell.consume_withTerminal consumed terminal
  refine ⟨shown, ?_⟩
  have behind : (run.withTerminal terminal).shell = run.shell.withTerminal terminal := rfl
  rw [step, behind, same]
  rfl

end ShellRun

/-- The driver and the shell, with the keys that the handler was to pass on, in order. -/
structure Session where
  machine : Ps2Machine
  run : ShellRun
  received : List KeyboardResponse

/-- The kernel gives the device a command, the device interrupts, the kernel prints on the screen of the
shell, as the handler does when the write of a command fails, or the shell looks for a response. -/
inductive SessionEvent where
  | enqueueCommand (cmd : KeyboardCommand)
  | interrupt (scanCode : KeyboardResponse)
  | print (operation : Console.Operation)
  | popResponse

namespace Session

/-- The codes that the handler keeps to itself. -/
def Handled (scanCode : KeyboardResponse) : Prop :=
  scanCode = ps2SelfTestPassed ∨ scanCode = commandAcknowledged ∨ scanCode = f1Down

instance (scanCode : KeyboardResponse) : Decidable (Handled scanCode) :=
  inferInstanceAs (Decidable (_ ∨ _ ∨ _))

/-- The machine that the kernel starts, with the shell before its loop. -/
def start (machine : Ps2Machine) (memory : Nat → Ch) (system : System) : Session :=
  ⟨machine, .start memory system, []⟩

/-- A turn of the shell's loop without a response does nothing. -/
def popResponse (session : Session) : Option Session :=
  let (responseBuffer, response) := session.machine.keyboard.responseBuffer.pop
  match response with
  | none => some session
  | some keyCode =>
    (session.run.step keyCode).map fun run =>
      { session with machine.keyboard.responseBuffer := responseBuffer, run }

def step (session : Session) : SessionEvent → Option Session
  | .enqueueCommand cmd => some { session with machine := (session.machine.enqueueCommand cmd).2 }
  | .interrupt scanCode => some { session with
      machine := session.machine.keyboardHandler scanCode
      received := if Handled scanCode then session.received else session.received ++ [scanCode] }
  | .print operation => some { session with
      run := session.run.withTerminal (session.run.shell.system.terminal.perform operation) }
  | .popResponse => session.popResponse

/-- The responses that wait for the shell. -/
def waiting (session : Session) : List KeyboardResponse :=
  session.machine.keyboard.responseBuffer.contents

/-- The codes that the shell has consumed, and those that it would consume next, in order. -/
def passed (session : Session) : List KeyboardResponse :=
  session.run.consumed.reverse ++ session.waiting

/-- A key comes while fewer than 2041 others wait. -/
def HasRoom (session : Session) : SessionEvent → Prop
  | .interrupt scanCode => ¬Handled scanCode → session.waiting.length + 1 < 2042
  | .enqueueCommand _ | .print _ | .popResponse => True

instance (session : Session) : (event : SessionEvent) → Decidable (session.HasRoom event)
  | .interrupt scanCode => inferInstanceAs (Decidable (¬Handled scanCode → _))
  | .enqueueCommand _ | .print _ | .popResponse => .isTrue trivial

/-- Apart from the screen the shell is where the codes consumed lead. -/
def Led (memory : Nat → Ch) (system : System) (session : Session) : Prop :=
  ∃ terminal, session.run.consumed.reverse.foldlM ShellRun.step (.start memory system) =
    some (session.run.withTerminal terminal)

/-- The shell is where the codes consumed lead, and what is passed on was received, in that order. -/
structure Kept (memory : Nat → Ch) (system : System) (session : Session) : Prop where
  led : session.Led memory system
  order : session.passed.Sublist session.received

variable {session after final : Session} {machine : Ps2Machine} {memory : Nat → Ch} {system : System}

theorem responseBuffer_enqueueCommand (machine : Ps2Machine) (cmd : KeyboardCommand) :
    (machine.enqueueCommand cmd).2.keyboard.responseBuffer = machine.keyboard.responseBuffer := by
  unfold Ps2Machine.enqueueCommand
  split <;> rfl

theorem responseBuffer_keyboardHandler (machine : Ps2Machine) (scanCode : KeyboardResponse) :
    (machine.keyboardHandler scanCode).keyboard.responseBuffer =
      if Handled scanCode then machine.keyboard.responseBuffer
      else (machine.keyboard.responseBuffer.push scanCode).1 := by
  have same : (machine.keyboardHandler scanCode).keyboard = (machine.receive scanCode).keyboard := rfl
  rw [same, Ps2Machine.receive]
  by_cases tested : scanCode = ps2SelfTestPassed
  · rw [if_pos tested, if_pos (.inl tested)]
  by_cases acknowledged : scanCode = commandAcknowledged
  · rw [if_neg tested, if_pos acknowledged, if_pos (.inr (.inl acknowledged))]
  by_cases shutDown : scanCode = f1Down
  · rw [if_neg tested, if_neg acknowledged, if_pos shutDown, if_pos (.inr (.inr shutDown))]
  · have passed : ¬Handled scanCode := not_or.mpr ⟨tested, not_or.mpr ⟨acknowledged, shutDown⟩⟩
    rw [if_neg tested, if_neg acknowledged, if_neg shutDown, if_neg passed]

/-- The handler changes what waits for the shell only by a push. -/
theorem passed_interrupt (session : Session) (scanCode : KeyboardResponse) (run : ShellRun)
    (received : List KeyboardResponse) :
    passed ⟨session.machine.keyboardHandler scanCode, run, received⟩ = run.consumed.reverse ++
      if Handled scanCode then session.waiting
      else (session.machine.keyboard.responseBuffer.push scanCode).1.contents := by
  rw [passed, waiting, responseBuffer_keyboardHandler]
  split <;> rfl

theorem Kept.interrupt (kept : Kept memory system session) {scanCode : KeyboardResponse}
    (taken : session.step (.interrupt scanCode) = some after) :
    Kept memory system after ∧
      (after.passed = after.received ↔
        session.passed = session.received ∧ session.HasRoom (.interrupt scanCode)) := by
  cases Option.some.inj taken
  have order := kept.order
  have passes := session.passed_interrupt scanCode session.run
  by_cases handled : Handled scanCode
  · simp only [if_pos handled] at passes ⊢
    refine ⟨⟨kept.led, (passes _).symm ▸ order⟩, ?_⟩
    rw [passes, HasRoom]
    exact (and_iff_left fun other => absurd handled other).symm
  · simp only [if_neg handled] at passes ⊢
    have pushed := session.machine.keyboard.responseBuffer.contents_push_sublist scanCode
    have later : (session.run.consumed.reverse ++
        (session.machine.keyboard.responseBuffer.push scanCode).1.contents).Sublist
          (session.passed ++ [scanCode]) := by
      rw [passed, List.append_assoc]
      exact pushed.append_left _
    refine ⟨⟨kept.led, (passes _).symm ▸ later.trans (order.append_right _)⟩, ?_⟩
    rw [passes, HasRoom]
    constructor
    · intro whole
      -- Nothing can be missing now if nothing is missing in the end.
      have longer := later.length_le
      have shorter := order.length_le
      rw [whole, List.length_append, List.length_append] at longer
      have earlier := order.eq_of_length (Nat.le_antisymm shorter (Nat.le_of_add_le_add_right longer))
      refine ⟨earlier, fun _ => ?_⟩
      rw [← earlier, passed, List.append_assoc] at whole
      have stored := congrArg List.length (List.append_cancel_left whole)
      rw [List.length_append, List.length_singleton] at stored
      exact (CircularBuffer.length_contents_push_iff _ _).mp stored
    · rintro ⟨earlier, room⟩
      rw [← earlier, CircularBuffer.contents_push_room (room handled), passed, List.append_assoc]
      rfl

theorem passed_popResponse {keyCode : KeyboardResponse} {run : ShellRun}
    (popped : session.waiting.head? = some keyCode) (next : run.consumed = keyCode :: session.run.consumed) :
    run.consumed.reverse ++ session.waiting.tail = session.passed := by
  rw [passed, next, List.reverse_cons, List.append_assoc, List.singleton_append,
    List.cons_head?_tail popped]

theorem Kept.popResponse (kept : Kept memory system session)
    (taken : session.step .popResponse = some after) :
    Kept memory system after ∧
      (after.passed = after.received ↔
        session.passed = session.received ∧ session.HasRoom .popResponse) := by
  obtain ⟨rest, response⟩ := session.machine.keyboard.responseBuffer.pop_eq
  rw [and_iff_left (show session.HasRoom .popResponse from trivial)]
  rw [Session.step, Session.popResponse] at taken
  dsimp only at taken
  rw [response] at taken
  cases first : session.machine.keyboard.responseBuffer.contents.head? with
  | none =>
    rw [first] at taken
    cases Option.some.inj taken
    exact ⟨kept, Iff.rfl⟩
  | some keyCode =>
    rw [first] at taken
    obtain ⟨run, consumed, rfl⟩ := Option.map_eq_some_iff.mp taken
    have next := (ShellRun.step_some consumed).2
    have same : run.consumed.reverse ++ session.waiting.tail = session.passed :=
      passed_popResponse first next
    have passes : passed { session with
        machine.keyboard.responseBuffer := session.machine.keyboard.responseBuffer.pop.1, run } =
          session.passed := by
      rw [← same, passed, waiting, rest, waiting]
    refine ⟨⟨?_, passes ▸ kept.order⟩, passes ▸ Iff.rfl⟩
    obtain ⟨terminal, led⟩ := kept.led
    obtain ⟨shown, stepped⟩ := ShellRun.step_withTerminal consumed terminal
    refine ⟨shown, ?_⟩
    dsimp only
    rw [next, List.reverse_cons, List.foldlM_append, led]
    exact (Option.bind_some _ _).trans (by rw [List.foldlM_cons, stepped]; rfl)

theorem Kept.step (kept : Kept memory system session) {event : SessionEvent}
    (taken : session.step event = some after) :
    Kept memory system after ∧
      (after.passed = after.received ↔ session.passed = session.received ∧ session.HasRoom event) := by
  cases event with
  | enqueueCommand cmd =>
    cases Option.some.inj taken
    have same : passed { session with machine := (session.machine.enqueueCommand cmd).2 } =
        session.passed := by
      rw [passed, waiting, responseBuffer_enqueueCommand]
      rfl
    exact ⟨⟨kept.led, same ▸ kept.order⟩, same ▸ (and_iff_left trivial).symm⟩
  | interrupt scanCode => exact kept.interrupt taken
  | print operation =>
    cases Option.some.inj taken
    exact ⟨⟨kept.led, kept.order⟩, (and_iff_left trivial).symm⟩
  | popResponse => exact kept.popResponse taken

/-- However the interrupts of the keyboard, the kernel's commands to it, its lines on the screen and the
turns of the shell's loop come after each other, the shell, apart from the screen, is in the state that the
codes it consumed lead to; those and the codes that wait for it were received in this order. They are all
that was received exactly if every key came while fewer than 2041 others waited. -/
theorem responses_in_order (empty : machine.keyboard.responseBuffer.contents = [])
    {events : List SessionEvent} (taken : events.foldlM step (start machine memory system) = some final) :
    (final.Led memory system ∧ final.passed.Sublist final.received) ∧
      (final.passed = final.received ↔ EveryTaken step HasRoom (start machine memory system) events) := by
  have nothing : (start machine memory system).passed = [] := by
    rw [passed, waiting, start, empty]
    rfl
  have initial : Kept memory system (start machine memory system) :=
    ⟨⟨system.terminal.print [.char 0x3E], rfl⟩, nothing ▸ List.Sublist.refl _⟩
  obtain ⟨kept, whole⟩ := EveryTaken.final_iff
    (fun _ _ _ kept taken => kept.step taken) initial taken
  exact ⟨⟨kept.led, kept.order⟩, whole.trans (and_iff_right nothing)⟩

/-- A letter comes, the device acknowledges a command, the kernel prints a letter, and the shell looks
twice. -/
theorem responses_in_order_letter : ∃ final : Session,
    ([.interrupt 0x1E, .interrupt 0xFA, .print (.putChar 0x57), .popResponse, .popResponse] :
      List SessionEvent).foldlM step
      (start (KeyboardRun.start (.replicate 2043 0) (.replicate 2043 .echo) fun _ => 0).machine (fun _ => 0)
        ShellRun.idle) = some final ∧ final.passed = final.received := by
  have taken : ([.interrupt 0x1E, .interrupt 0xFA, .print (.putChar 0x57), .popResponse, .popResponse] :
      List SessionEvent).foldlM step
      (start (KeyboardRun.start (.replicate 2043 0) (.replicate 2043 .echo) fun _ => 0).machine (fun _ => 0)
        ShellRun.idle) = some _ := rfl
  exact ⟨_, taken, (responses_in_order (CircularBuffer.contents_fresh _ _) taken).2.mpr (by decide)⟩

end Session

end WalnutOs.Userspace
