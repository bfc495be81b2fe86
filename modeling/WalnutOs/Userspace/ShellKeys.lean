import WalnutOs.Userspace.Shell
import WalnutOs.Lib.Run

/-! The extended flag of the shell and its shift flags, against the codes consumed so far. -/

namespace WalnutOs.Userspace

open WalnutOs.Klib WalnutOs.Lib KeyboardResponse

/-- The codes that leave the loop before its key switch: characters and Enter. -/
def Typed (code : KeyboardResponse) : Prop := responseToChar code ≠ 0 ∨ code = enterDown

instance (code : KeyboardResponse) : Decidable (Typed code) := inferInstanceAs (Decidable (_ ∨ _))

theorem shifted_eq_zero_iff : ∀ code : KeyboardResponse,
    responseToShiftedChar code = 0 ↔ responseToChar code = 0 := by
  decide +kernel

/-- A code that the key switch has a case for is not typed. -/
theorem not_typed_of_mem : ∀ code ∈ [backspaceDown, leftShiftDown, rightShiftDown, leftShiftUp,
    rightShiftUp, nextIsExtended], ¬Typed code := by
  decide

namespace Shell

variable {shell after : Shell} {code : KeyboardResponse}

/-- What a code that is processed without the extended flag makes of a shift flag. -/
def shifted (down up code : KeyboardResponse) (pressed : Bool) : Bool :=
  if code = down then true else if code = up then false else pressed

theorem key_eq_zero_iff (shell : Shell) (code : KeyboardResponse) :
    shell.key code = 0 ↔ responseToChar code = 0 := by
  unfold key
  split
  · exact Iff.rfl
  · exact shifted_eq_zero_iff code

theorem typeKey_flags (shell : Shell) (key : Ch) : (shell.typeKey key).extended = shell.extended ∧
    (shell.typeKey key).leftShiftPressed = shell.leftShiftPressed ∧
    (shell.typeKey key).rightShiftPressed = shell.rightShiftPressed := by
  unfold typeKey
  split <;> exact ⟨rfl, rfl, rfl⟩

/-- A typed code changes none of the flags. -/
theorem consume_typed (typed : Typed code) (taken : shell.consume code = .ok after) :
    after.extended = shell.extended ∧ after.leftShiftPressed = shell.leftShiftPressed ∧
      after.rightShiftPressed = shell.rightShiftPressed := by
  unfold consume at taken
  by_cases blank : shell.key code = 0
  · have enter : code = enterDown :=
      typed.resolve_left fun character => character ((shell.key_eq_zero_iff code).mp blank)
    rw [if_neg (not_not.mpr blank), if_pos enter] at taken
    cases parsed : (shell.system.printLine []).parseInput shell.inputBuffer shell.bufPtr with
    | error fault =>
      rw [parsed] at taken
      cases taken
    | ok system =>
      rw [parsed] at taken
      cases taken
      exact ⟨rfl, rfl, rfl⟩
  · rw [if_pos blank] at taken
    cases taken
    exact shell.typeKey_flags _

/-- Any other code goes to the key switch. -/
theorem consume_untyped (untyped : ¬Typed code) : shell.consume code =
    if !shell.extended then .ok (shell.plainKey code)
    else .ok { shell with
      system.terminal := extendedKey shell.system.terminal code
      extended := false } := by
  obtain ⟨blank, other⟩ := not_or.mp untyped
  have zero := (shell.key_eq_zero_iff code).mpr (not_not.mp blank)
  rw [consume, if_neg (not_not.mpr zero), if_neg other]

theorem plainKey_flags (shell : Shell) (code : KeyboardResponse) :
    (shell.plainKey code).extended = (shell.extended || decide (code = nextIsExtended)) ∧
      (shell.plainKey code).leftShiftPressed =
        shifted leftShiftDown leftShiftUp code shell.leftShiftPressed ∧
      (shell.plainKey code).rightShiftPressed =
        shifted rightShiftDown rightShiftUp code shell.rightShiftPressed := by
  unfold plainKey shifted
  by_cases backspace : code = backspaceDown
  · subst backspace
    rw [if_pos rfl]
    split <;> simp [backspaceDown, nextIsExtended, leftShiftDown, leftShiftUp, rightShiftDown, rightShiftUp]
  rw [if_neg backspace]
  by_cases known : code ∈ [leftShiftDown, rightShiftDown, leftShiftUp, rightShiftUp, nextIsExtended]
  · simp only [List.mem_cons, List.not_mem_nil, or_false] at known
    rcases known with rfl | rfl | rfl | rfl | rfl <;>
      simp [nextIsExtended, leftShiftDown, leftShiftUp, rightShiftDown, rightShiftUp]
  · simp only [List.mem_cons, List.not_mem_nil, or_false, not_or] at known
    simp [known]

end Shell

/-- The shell with the codes that it consumed, the latest first. -/
structure ShellRun where
  shell : Shell
  consumed : List KeyboardResponse

namespace ShellRun

def start (memory : Nat → Ch) (system : System) : ShellRun := ⟨.start memory system, []⟩

def step (run : ShellRun) (code : KeyboardResponse) : Option ShellRun :=
  match run.shell.consume code with
  | .error _ => none
  | .ok shell => some ⟨shell, code :: run.consumed⟩

/-- No `NextIsExtended` follows directly on another. -/
def Admitted (run : ShellRun) (code : KeyboardResponse) : Prop :=
  ¬(code = nextIsExtended ∧ run.consumed.head? = some nextIsExtended)

/-- Whether the last Down or Up code that no `NextIsExtended` precedes was Down. -/
def lastWasDown (down up : KeyboardResponse) : List KeyboardResponse → Bool
  | [] => false
  | code :: earlier =>
    if earlier.head? = some nextIsExtended then lastWasDown down up earlier
    else Shell.shifted down up code (lastWasDown down up earlier)

/-- The shift flags are what the codes consumed say. -/
structure ShiftsRight (run : ShellRun) : Prop where
  left : run.shell.leftShiftPressed = lastWasDown leftShiftDown leftShiftUp run.consumed
  right : run.shell.rightShiftPressed = lastWasDown rightShiftDown rightShiftUp run.consumed

/-- A code is processed with the extended flag exactly if the code before it was
`NextIsExtended`, and leaves the shift flags right. -/
structure ProcessedRight (run : ShellRun) (code : KeyboardResponse) : Prop where
  flag : run.shell.extended = true ↔ run.consumed.head? = some nextIsExtended
  shifts : ∀ after, run.step code = some after → ShiftsRight after

/-- The code before was typed, and the one before that was `NextIsExtended`. -/
def TypedExtended (run : ShellRun) : Prop :=
  (∃ code ∈ run.consumed.head?, Typed code) ∧ run.consumed.tail.head? = some nextIsExtended

instance (run : ShellRun) (code : KeyboardResponse) : Decidable (run.Admitted code) :=
  inferInstanceAs (Decidable (¬(_ ∧ _)))

instance (run : ShellRun) : Decidable run.TypedExtended := inferInstanceAs (Decidable (_ ∧ _))

/-- The flags after codes of which none came after a typed one that kept the extended flag. -/
structure FlagsRight (run : ShellRun) : Prop where
  kept : TypedExtended run → run.shell.extended = true
  flag : ¬TypedExtended run → (run.shell.extended = true ↔ run.consumed.head? = some nextIsExtended)
  shifts : ShiftsRight run

variable {run after : ShellRun} {code : KeyboardResponse}

theorem FlagsRight.start (memory : Nat → Ch) (system : System) : FlagsRight (start memory system) where
  kept := by simp [TypedExtended, ShellRun.start]
  flag _ := by simp [ShellRun.start, Shell.start]
  shifts := ⟨rfl, rfl⟩

theorem step_some (taken : run.step code = some after) :
    run.shell.consume code = .ok after.shell ∧ after.consumed = code :: run.consumed := by
  unfold step at taken
  cases consumed : run.shell.consume code with
  | error fault =>
    rw [consumed] at taken
    cases taken
  | ok shell =>
    rw [consumed] at taken
    cases taken
    exact ⟨rfl, rfl⟩

theorem typedExtended_cons {shell : Shell} {consumed : List KeyboardResponse} :
    TypedExtended ⟨shell, code :: consumed⟩ ↔ Typed code ∧ consumed.head? = some nextIsExtended := by
  simp [TypedExtended]

/-- A typed code is none that changes the shift flags. -/
theorem shifted_typed (typed : Typed code) (pressed : Bool) :
    Shell.shifted leftShiftDown leftShiftUp code pressed = pressed ∧
      Shell.shifted rightShiftDown rightShiftUp code pressed = pressed := by
  have other : ∀ known ∈ [backspaceDown, leftShiftDown, rightShiftDown, leftShiftUp, rightShiftUp,
      nextIsExtended], code ≠ known := by
    rintro known member rfl
    exact not_typed_of_mem code member typed
  simp only [List.mem_cons, List.not_mem_nil, or_false, forall_eq_or_imp, forall_eq] at other
  simp [Shell.shifted, other]

/-- A code that comes after no typed one with the flag set leaves the flags right. -/
theorem FlagsRight.step (right : FlagsRight run) (fresh : ¬TypedExtended run)
    (admitted : run.Admitted code) (taken : run.step code = some after) : FlagsRight after := by
  obtain ⟨consumed, history⟩ := step_some taken
  have flag := right.flag fresh
  obtain ⟨left, rightShift⟩ := right.shifts
  obtain ⟨shell, codes⟩ := after
  simp only at consumed history
  subst history
  by_cases typed : Typed code
  · obtain ⟨same, sameLeft, sameRight⟩ := Shell.consume_typed typed consumed
    obtain ⟨noLeft, noRight⟩ := shifted_typed typed
      (lastWasDown leftShiftDown leftShiftUp run.consumed)
    have noRight' := (shifted_typed typed (lastWasDown rightShiftDown rightShiftUp run.consumed)).2
    have other : code ≠ nextIsExtended := by
      rintro rfl
      exact not_typed_of_mem nextIsExtended (by simp) typed
    refine ⟨fun still => ?_, fun cleared => ?_, ⟨?_, ?_⟩⟩
    · rw [same, flag]
      exact (typedExtended_cons.mp still).2
    · have first : run.consumed.head? ≠ some nextIsExtended := fun first =>
        cleared (typedExtended_cons.mpr ⟨typed, first⟩)
      simp [same, flag, first, other]
    · simp only [lastWasDown, sameLeft, left, noLeft, ite_self]
    · simp only [lastWasDown, sameRight, rightShift, noRight', ite_self]
  · have fresh' : ¬TypedExtended ⟨shell, code :: run.consumed⟩ := fun still =>
      typed (typedExtended_cons.mp still).1
    rw [Shell.consume_untyped typed] at consumed
    cases extended : run.shell.extended with
    | false =>
      rw [extended] at consumed
      cases consumed
      have first : run.consumed.head? ≠ some nextIsExtended := fun first => by
        rw [flag.mpr first] at extended
        cases extended
      obtain ⟨plain, plainLeft, plainRight⟩ := run.shell.plainKey_flags code
      refine ⟨fun still => absurd still fresh', fun _ => ?_, ⟨?_, ?_⟩⟩
      · simp [plain, extended]
      · simp only [lastWasDown, if_neg first, plainLeft, left]
      · simp only [lastWasDown, if_neg first, plainRight, rightShift]
    | true =>
      rw [extended] at consumed
      cases consumed
      have first := flag.mp extended
      refine ⟨fun still => absurd still fresh', fun _ => ?_, ⟨?_, ?_⟩⟩
      · have other : code ≠ nextIsExtended := fun same => admitted ⟨same, first⟩
        simp [other]
      · simp only [lastWasDown, if_pos first, left]
      · simp only [lastWasDown, if_pos first, rightShift]

/-- Along every sequence of codes the extended flag is set for exactly the codes behind
`NextIsExtended`, and the shift flags are right, if and only if no code follows on a typed
one that itself follows on `NextIsExtended`. -/
theorem keys_right_iff (memory : Nat → Ch) (system : System) (codes : List KeyboardResponse)
    (admitted : EveryTaken step Admitted (start memory system) codes) :
    EveryTaken step ProcessedRight (start memory system) codes ↔
      EveryTaken step (fun run _ => ¬TypedExtended run) (start memory system) codes := by
  refine EveryTaken.iff_of_invariant FlagsRight
    (fun run code after right admitted fresh taken => right.step fresh admitted taken) ?_
    (FlagsRight.start memory system) admitted
  intro run code right admitted
  constructor
  · rintro processed ⟨⟨before, last, typed⟩, earlier⟩
    have extended := processed.flag.mp (right.kept ⟨⟨before, last, typed⟩, earlier⟩)
    cases Option.some.inj (last.symm.trans extended)
    exact not_typed_of_mem nextIsExtended (by simp) typed
  · intro fresh
    exact ⟨right.flag fresh, fun after taken => (right.step fresh admitted taken).shifts⟩

/-- An empty screen, no open file, and a disk whose transfers are all done. -/
def idle : System :=
  ⟨.constructed (fun _ => 0) 0, none, ⟨.constructed fun _ _ => 0, ⟨fun _ _ => 0, fun _ => .done, 0⟩⟩⟩

/-- Shift is held down while the cursor goes left and a letter is typed. -/
theorem keys_right_shifted : EveryTaken step ProcessedRight (start (fun _ => 0) idle)
    [leftShiftDown, nextIsExtended, exCursorLeftDown, 0x1E, leftShiftUp] :=
  (keys_right_iff (fun _ => 0) idle _ (by decide +kernel)).mpr (by decide +kernel)

/-- Shift is pressed after the slash of the keypad, and is taken for an extended key. -/
theorem not_keys_right : ¬∀ (memory : Nat → Ch) (system : System) (codes : List KeyboardResponse),
    EveryTaken step Admitted (start memory system) codes →
      EveryTaken step ProcessedRight (start memory system) codes := by
  intro claim
  have right := claim (fun _ => 0) idle [nextIsExtended, 0x35, leftShiftDown] (by decide +kernel)
  have processed := ((right.2 _ rfl).2 _ rfl).1.flag
  have before := processed.mp (by decide +kernel)
  revert before
  decide +kernel

end ShellRun

end WalnutOs.Userspace
