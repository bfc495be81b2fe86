import WalnutOs.Lib.StackFrame

/-! The entries of the interrupt handlers, `klib/idt.asm`: what the processor pushes,
the stubs of the 64 vectors and the return by `iret`. -/

namespace WalnutOs.Klib

open WalnutOs.Lib

universe u

abbrev Dword := BitVec 32

/-- The general registers without `esp`. -/
@[ext]
structure Registers where
  eax : Dword
  ecx : Dword
  edx : Dword
  ebx : Dword
  ebp : Dword
  esi : Dword
  edi : Dword

structure Cpu where
  registers : Registers
  esp : Dword
  eip : Dword
  cs : BitVec 16
  eflags : Dword
  memory : Dword → Dword

/-- `regstate`, in the order of its fields. -/
@[ext]
structure RegState where
  regEdi : Dword
  regEsi : Dword
  regEbp : Dword
  regEsp : Dword
  regEbx : Dword
  regEdx : Dword
  regEcx : Dword
  regEax : Dword
  vectorCode : Dword
  errorCode : Dword
  regEip : Dword
  regCs : Dword
  regEflags : Dword

namespace Cpu

def push (cpu : Cpu) (word : Dword) : Cpu :=
  { cpu with esp := cpu.esp - 4, memory := Function.update cpu.memory (cpu.esp - 4) word }

def pushAll (cpu : Cpu) (words : List Dword) : Cpu := words.foldl push cpu

/-- `esp` is pushed as it was before the first push. -/
def pushad (cpu : Cpu) : Cpu :=
  cpu.pushAll [cpu.registers.eax, cpu.registers.ecx, cpu.registers.edx, cpu.registers.ebx, cpu.esp,
    cpu.registers.ebp, cpu.registers.esi, cpu.registers.edi]

/-- The saved `esp` is skipped. -/
def popad (cpu : Cpu) : Cpu :=
  { cpu with
    registers :=
      { edi := cpu.memory cpu.esp
        esi := cpu.memory (cpu.esp + 4)
        ebp := cpu.memory (cpu.esp + 8)
        ebx := cpu.memory (cpu.esp + 16)
        edx := cpu.memory (cpu.esp + 20)
        ecx := cpu.memory (cpu.esp + 24)
        eax := cpu.memory (cpu.esp + 28) }
    esp := cpu.esp + 32 }

def iret (cpu : Cpu) : Cpu :=
  { cpu with
    eip := cpu.memory cpu.esp
    cs := (cpu.memory (cpu.esp + 4)).setWidth 16
    eflags := cpu.memory (cpu.esp + 8)
    esp := cpu.esp + 12 }

/-- The structure that a pointer leads to. -/
def regstate (cpu : Cpu) (pointer : Dword) : RegState where
  regEdi := cpu.memory pointer
  regEsi := cpu.memory (pointer + 4)
  regEbp := cpu.memory (pointer + 8)
  regEsp := cpu.memory (pointer + 12)
  regEbx := cpu.memory (pointer + 16)
  regEdx := cpu.memory (pointer + 20)
  regEcx := cpu.memory (pointer + 24)
  regEax := cpu.memory (pointer + 28)
  vectorCode := cpu.memory (pointer + 32)
  errorCode := cpu.memory (pointer + 36)
  regEip := cpu.memory (pointer + 40)
  regCs := cpu.memory (pointer + 44)
  regEflags := cpu.memory (pointer + 48)

end Cpu

/-- The handlers that the stubs call. -/
inductive Handler where
  | exceptionHandler
  | timerHandler
  | keyboardHandler
  deriving DecidableEq

/-- How many words of arguments a handler takes. -/
def Handler.args : Handler → Nat
  | exceptionHandler => 1
  | timerHandler => 1
  | keyboardHandler => 0

inductive Instr where
  | push (word : Dword)
  | pushad
  | pushEsp
  | call (handler : Handler)
  | addEsp (bytes : Dword)
  | popad

/-- What the handlers do to the state of the kernel, none if they do not return, and what their
compiled code leaves of the processor's. -/
structure Handlers (Kernel : Type u) where
  exceptionHandler : RegState → Kernel → Option Kernel
  timerHandler : RegState → Kernel → Option Kernel
  keyboardHandler : Kernel → Option Kernel
  leave : Handler → Cpu → Cpu

variable {Kernel : Type u}

def Handlers.handle (handlers : Handlers Kernel) : Handler → RegState → Kernel → Option Kernel
  | .exceptionHandler => handlers.exceptionHandler
  | .timerHandler => handlers.timerHandler
  | .keyboardHandler => fun _ => handlers.keyboardHandler

/-- `back` is the address of the instruction after a call. -/
def Instr.exec (handlers : Handlers Kernel) (back : Dword) :
    Instr → Cpu × Kernel → Option (Cpu × Kernel)
  | .push word, (cpu, kernel) => some (cpu.push word, kernel)
  | .pushad, (cpu, kernel) => some (cpu.pushad, kernel)
  | .pushEsp, (cpu, kernel) => some (cpu.push cpu.esp, kernel)
  | .call handler, (cpu, kernel) =>
    let entered := cpu.push back
    (handlers.handle handler (entered.regstate (entered.memory (entered.esp + 4))) kernel).map
      fun kernel => (handlers.leave handler entered, kernel)
  | .addEsp bytes, (cpu, kernel) => some ({ cpu with esp := cpu.esp + bytes }, kernel)
  | .popad, (cpu, kernel) => some (cpu.popad, kernel)

def execAll (handlers : Handlers Kernel) (back : Dword) :
    List Instr → Cpu × Kernel → Option (Cpu × Kernel)
  | [], state => some state
  | instr :: rest, state => (instr.exec handlers back state).bind (execAll handlers back rest)

/-- The macros of the stubs; each stub ends in `iret`. -/
inductive Stub where
  | isrErrStub (vector : Nat)
  | isrNoErrStub (vector : Nat)
  | keyboardStub
  | timerStub

namespace Stub

def code : Stub → List Instr
  | isrErrStub vector =>
    [.push (BitVec.ofNat 32 vector), .pushad, .pushEsp, .call .exceptionHandler, .addEsp 4, .popad,
      .addEsp 8]
  | isrNoErrStub vector =>
    [.push 0, .push (BitVec.ofNat 32 vector), .pushad, .pushEsp, .call .exceptionHandler, .addEsp 4,
      .popad, .addEsp 8]
  | keyboardStub => [.pushad, .call .keyboardHandler, .popad]
  | timerStub =>
    [.push 0, .push 32, .pushad, .pushEsp, .call .timerHandler, .addEsp 4, .popad, .addEsp 8]

def handler : Stub → Handler
  | isrErrStub _ => .exceptionHandler
  | isrNoErrStub _ => .exceptionHandler
  | keyboardStub => .keyboardHandler
  | timerStub => .timerHandler

/-- Whether the stub relies on an error code pushed by the processor. -/
def expectsCode : Stub → Bool
  | isrErrStub _ => true
  | _ => false

/-- The vectors that the file assembles with `isr_err_stub`. -/
def errVectors : List Nat := [10, 11, 12, 13, 14, 17, 30]

/-- `isr_stub_0` to `isr_stub_63`. -/
def ofVector (vector : Fin 64) : Stub :=
  if vector.val = 32 then timerStub
  else if vector.val = 33 then keyboardStub
  else if vector.val ∈ errVectors then isrErrStub vector.val
  else isrNoErrStub vector.val

end Stub

/-- The bit of the flags that an interrupt gate clears. -/
def interruptFlag : Dword := 0x200

/-- What the processor does before the first instruction at the entry of an interrupt gate;
some vectors push an error code. -/
def Cpu.enter (cpu : Cpu) (selector : BitVec 16) (offset : Dword) (errorCode : Option Dword) : Cpu :=
  { cpu.pushAll ([cpu.eflags, cpu.cs.setWidth 32, cpu.eip] ++ errorCode.toList) with
    eip := offset
    cs := selector
    eflags := cpu.eflags &&& ~~~interruptFlag }

/-- A stub from its entry to the return by `iret`. -/
def Stub.run (handlers : Handlers Kernel) (back : Dword) (stub : Stub) (state : Cpu × Kernel) :
    Option (Cpu × Kernel) :=
  (execAll handlers back stub.code state).map fun (cpu, kernel) => (cpu.iret, kernel)

namespace Cpu

variable {cpu : Cpu} {base : Dword} {words : List Dword}

/-- The words are the stack, the last one pushed first, from `esp` up to the base. -/
structure Stacked (cpu : Cpu) (base : Dword) (words : List Dword) : Prop where
  esp : cpu.esp = base - BitVec.ofNat 32 (4 * words.length)
  lies : Stack.Lies 4 cpu.memory cpu.esp words

theorem Stacked.congr {after : Cpu} (stacked : cpu.Stacked base words) (esp : after.esp = cpu.esp)
    (memory : after.memory = cpu.memory) : after.Stacked base words where
  esp := esp.trans stacked.esp
  lies := by
    rw [esp, memory]
    exact stacked.lies

theorem Stacked.push (stacked : cpu.Stacked base words) (room : words.length < 2 ^ 29 + 32)
    (word : Dword) : (cpu.push word).Stacked base (word :: words) where
  esp := by
    rw [List.length_cons, Nat.mul_succ, Nat.add_comm, BitVec.ofNat_add, BitVec.add_comm, ← BitVec.sub_sub,
      ← stacked.esp]
    rfl
  lies := Stack.Lies.push stacked.lies (by decide) (by simp; omega) word

theorem Stacked.pushAll {pushed : List Dword} (stacked : cpu.Stacked base words)
    (room : words.length + pushed.length < 2 ^ 29 + 32) :
    (cpu.pushAll pushed).Stacked base (pushed.reverse ++ words) := by
  induction pushed generalizing cpu words with
  | nil => exact stacked
  | cons word rest ih =>
    rw [List.length_cons] at room
    have next := ih (stacked.push (by omega) word) (by rw [List.length_cons]; omega)
    rw [List.reverse_cons, List.append_assoc]
    exact next

/-- Words are taken off the stack. -/
theorem Stacked.drop {taken : List Dword} {after : Cpu} (stacked : cpu.Stacked base (taken ++ words))
    (esp : after.esp = cpu.esp + BitVec.ofNat 32 (4 * taken.length)) (memory : after.memory = cpu.memory) :
    after.Stacked base words where
  esp := by
    rw [esp, stacked.esp, List.length_append, Nat.mul_add, BitVec.ofNat_add,
      BitVec.add_comm (BitVec.ofNat 32 (4 * taken.length)), ← BitVec.sub_sub, BitVec.sub_add_cancel]
  lies := by
    have place : Stack.place 4 cpu.esp taken.length = after.esp := by
      rw [esp, Stack.place, Nat.mul_comm]
      rfl
    rw [memory, ← place]
    exact (Stack.lies_append.mp stacked.lies).2

/-- More words on the same stack: `esp` is as much lower. -/
theorem Stacked.esp_below {more : List Dword} {lower : Cpu} (stacked : cpu.Stacked base words)
    (longer : lower.Stacked base (more ++ words)) :
    lower.esp = cpu.esp - BitVec.ofNat 32 (4 * more.length) := by
  rw [longer.esp, stacked.esp, List.length_append, Nat.mul_add, BitVec.ofNat_add, BitVec.add_comm,
    ← BitVec.sub_sub]

theorem pushAll_registers (pushed : List Dword) : (cpu.pushAll pushed).registers = cpu.registers := by
  induction pushed generalizing cpu with
  | nil => rfl
  | cons word rest ih => exact ih

/-- The words of the frame that `pushad` makes, the lowest first. -/
def savedWords (cpu : Cpu) : List Dword :=
  [cpu.registers.edi, cpu.registers.esi, cpu.registers.ebp, cpu.esp, cpu.registers.ebx,
    cpu.registers.edx, cpu.registers.ecx, cpu.registers.eax]

theorem Stacked.pushad (stacked : cpu.Stacked base words) (room : words.length < 2 ^ 29 + 16) :
    cpu.pushad.Stacked base (cpu.savedWords ++ words) :=
  stacked.pushAll (by simp; omega)

/-- `popad` takes the registers from the frame that `pushad` made. -/
theorem Stacked.popad {other : Cpu} (stacked : cpu.Stacked base (other.savedWords ++ words)) :
    cpu.popad.registers = other.registers ∧ cpu.popad.Stacked base words := by
  have saved := (Stack.lies_append.mp stacked.lies).1
  simp only [savedWords, Stack.Lies, BitVec.add_assoc] at saved
  obtain ⟨edi, esi, ebp, -, ebx, edx, ecx, eax, -⟩ := saved
  exact ⟨Registers.ext eax ecx edx ebx ebp esi edi, stacked.drop rfl rfl⟩

end Cpu

/-- The calling convention: a handler returns to its caller; it may change its arguments on the stack
and nothing above them. -/
structure Cdecl (base : Dword) (leave : Handler → Cpu → Cpu) : Prop where
  returns : ∀ handler (cpu : Cpu) (back : Dword) (arguments words : List Dword),
    arguments.length = handler.args → words.length < 2 ^ 29 →
    cpu.Stacked base (back :: (arguments ++ words)) →
    ∃ spoiled : List Dword, spoiled.length = handler.args ∧
      (leave handler cpu).Stacked base (spoiled ++ words)

/-- A handler that returns and does nothing else. -/
def returnAtOnce (_ : Handler) (cpu : Cpu) : Cpu := { cpu with esp := cpu.esp + 4 }

theorem Cdecl.returnAtOnce {base : Dword} : Cdecl base returnAtOnce where
  returns _ _ back arguments words takes _ stacked := ⟨arguments, takes, by
    have all : Cpu.Stacked _ base ([back] ++ (arguments ++ words)) := stacked
    exact all.drop rfl rfl⟩

section Frames

variable {handlers : Handlers Kernel} {cpu : Cpu} {base : Dword} {words : List Dword} {handler : Handler}

/-- The processor at the first instruction of a handler that takes the pointer to the frame. -/
def Cpu.entered (cpu : Cpu) (back : Dword) : Cpu := (cpu.pushad.push cpu.pushad.esp).push back

/-- Around a call that takes the pointer to the frame the registers and the stack are kept. -/
theorem execAll_framed (back : Dword) (lawful : Cdecl base handlers.leave) (takes : handler.args = 1)
    (stacked : cpu.Stacked base words) (room : words.length < 2 ^ 28) :
    ∃ after : Cpu, after.registers = cpu.registers ∧ after.Stacked base words ∧ ∀ rest kernel,
      execAll handlers back
          (.pushad :: .pushEsp :: .call handler :: .addEsp 4 :: .popad :: rest) (cpu, kernel) =
        (handlers.handle handler ((cpu.entered back).regstate cpu.pushad.esp) kernel).bind
          fun kernel => execAll handlers back rest (after, kernel) := by
  have frame := stacked.pushad (by omega)
  have called := (frame.push (by simp [Cpu.savedWords]; omega) cpu.pushad.esp).push
    (by simp [Cpu.savedWords]; omega) back
  obtain ⟨spoiled, one, left⟩ := lawful.returns handler (cpu.entered back) back [cpu.pushad.esp]
    (cpu.savedWords ++ words) takes.symm (by simp [Cpu.savedWords]; omega) called
  rw [takes] at one
  have dropped : Cpu.Stacked { handlers.leave handler (cpu.entered back) with
      esp := (handlers.leave handler (cpu.entered back)).esp + 4 } base (cpu.savedWords ++ words) :=
    left.drop (one ▸ rfl) rfl
  obtain ⟨registers, kept⟩ := dropped.popad
  refine ⟨_, registers, kept, fun rest kernel => ?_⟩
  have pointer : (cpu.entered back).memory ((cpu.entered back).esp + 4) = cpu.pushad.esp :=
    called.lies.2.1
  rw [← pointer]
  simp only [execAll, Instr.exec, Option.bind_some, Option.bind_map, Cpu.entered]
  rfl

/-- Around the call of a handler without arguments, too. -/
theorem execAll_bare (back : Dword) (lawful : Cdecl base handlers.leave) (stacked : cpu.Stacked base words)
    (room : words.length < 2 ^ 28) :
    ∃ after : Cpu, after.registers = cpu.registers ∧ after.Stacked base words ∧ ∀ kernel,
      execAll handlers back [.pushad, .call .keyboardHandler, .popad] (cpu, kernel) =
        (handlers.keyboardHandler kernel).map fun kernel => (after, kernel) := by
  have called := (stacked.pushad (by omega)).push (by simp [Cpu.savedWords]; omega) back
  obtain ⟨spoiled, none, left⟩ := lawful.returns .keyboardHandler (cpu.pushad.push back) back []
    (cpu.savedWords ++ words) rfl (by simp [Cpu.savedWords]; omega) called
  rw [List.length_eq_zero_iff.mp none] at left
  obtain ⟨registers, kept⟩ := left.popad
  refine ⟨_, registers, kept, fun kernel => ?_⟩
  simp only [execAll, Instr.exec, Option.bind_some, Option.bind_map]
  exact Option.map_eq_bind.symm

end Frames

namespace Cpu

variable {cpu after : Cpu} {base eip cs eflags vector code pointer : Dword} {words : List Dword}

theorem Stacked.iret (stacked : cpu.Stacked base (eip :: cs :: eflags :: words)) :
    cpu.iret.eip = eip ∧ cpu.iret.cs = cs.setWidth 16 ∧ cpu.iret.eflags = eflags ∧
      cpu.iret.Stacked base words := by
  have frame := stacked.lies
  simp only [Stack.Lies, BitVec.add_assoc] at frame
  obtain ⟨first, second, third, -⟩ := frame
  have all : cpu.Stacked base ([eip, cs, eflags] ++ words) := stacked
  exact ⟨first, congrArg (BitVec.setWidth 16) second, third, all.drop rfl rfl⟩

/-- The frame of the interrupted code, as a handler gets it. -/
def interruptedState (cpu : Cpu) (vector code : Dword) : RegState where
  regEdi := cpu.registers.edi
  regEsi := cpu.registers.esi
  regEbp := cpu.registers.ebp
  regEsp := cpu.esp - 20
  regEbx := cpu.registers.ebx
  regEdx := cpu.registers.edx
  regEcx := cpu.registers.ecx
  regEax := cpu.registers.eax
  vectorCode := vector
  errorCode := code
  regEip := cpu.eip
  regCs := cpu.cs.setWidth 32
  regEflags := cpu.eflags

theorem regstate_eq {state : RegState} (frame : Stack.Lies 4 cpu.memory pointer
    (state.regEdi :: state.regEsi :: state.regEbp :: state.regEsp :: state.regEbx :: state.regEdx ::
      state.regEcx :: state.regEax :: state.vectorCode :: state.errorCode :: state.regEip :: state.regCs ::
      state.regEflags :: words)) : cpu.regstate pointer = state := by
  simp only [Stack.Lies, BitVec.add_assoc] at frame
  obtain ⟨edi, esi, ebp, esp, ebx, edx, ecx, eax, vector, code, eip, cs, eflags, -⟩ := frame
  exact RegState.ext edi esi ebp esp ebx edx ecx eax vector code eip cs eflags

theorem regstate_interrupted {stub : Cpu} {back : Dword}
    (stacked : stub.Stacked base (vector :: code :: cpu.eip :: cpu.cs.setWidth 32 :: cpu.eflags :: words))
    (room : words.length < 2 ^ 28) (registers : stub.registers = cpu.registers)
    (esp : stub.esp = cpu.esp - 20) :
    (stub.entered back).regstate stub.pushad.esp = cpu.interruptedState vector code := by
  have frame := stacked.pushad (by simp only [List.length_cons]; omega)
  rw [savedWords, registers, esp] at frame
  have called := (frame.push (by simp only [List.length_append, List.length_cons, List.length_nil]; omega)
    stub.pushad.esp).push (by simp only [List.length_append, List.length_cons, List.length_nil]; omega) back
  have top : (stub.entered back).esp + 4 + 4 = stub.pushad.esp := by
    rw [entered, push, push, BitVec.sub_add_cancel, BitVec.sub_add_cancel]
  exact regstate_eq (top ▸ called.lies.2.2)

/-- The interrupted code goes on as if nothing had been. -/
structure Resumed (after cpu : Cpu) (base : Dword) (words : List Dword) : Prop where
  registers : after.registers = cpu.registers
  esp : after.esp = cpu.esp
  eip : after.eip = cpu.eip
  cs : after.cs = cpu.cs
  eflags : after.eflags = cpu.eflags
  stacked : after.Stacked base words

theorem Stacked.enter (stacked : cpu.Stacked base words) (room : words.length < 2 ^ 28)
    (selector : BitVec 16) (offset : Dword) (errorCode : Option Dword) :
    (cpu.enter selector offset errorCode).Stacked base
      (errorCode.toList ++ cpu.eip :: cpu.cs.setWidth 32 :: cpu.eflags :: words) := by
  have pushed : (cpu.pushAll ([cpu.eflags, cpu.cs.setWidth 32, cpu.eip] ++ errorCode.toList)).Stacked base
      (([cpu.eflags, cpu.cs.setWidth 32, cpu.eip] ++ errorCode.toList).reverse ++ words) :=
    stacked.pushAll (by cases errorCode <;> simp <;> omega)
  have order : ([cpu.eflags, cpu.cs.setWidth 32, cpu.eip] ++ errorCode.toList).reverse ++ words =
      errorCode.toList ++ cpu.eip :: cpu.cs.setWidth 32 :: cpu.eflags :: words := by
    cases errorCode <;> rfl
  exact order ▸ pushed.congr rfl rfl

theorem enter_registers (selector : BitVec 16) (offset : Dword) (errorCode : Option Dword) :
    (cpu.enter selector offset errorCode).registers = cpu.registers :=
  pushAll_registers _

end Cpu

namespace Stub

variable {handlers : Handlers Kernel} {cpu after : Cpu} {base back : Dword} {words : List Dword} {stub : Stub}

/-- The words that a stub pushes before the registers. -/
def pushed : Stub → List Dword
  | isrErrStub vector => [BitVec.ofNat 32 vector]
  | isrNoErrStub vector => [0, BitVec.ofNat 32 vector]
  | keyboardStub => []
  | timerStub => [0, 32]

/-- The vector as the handler is told. -/
def vectorCode : Stub → Dword
  | isrErrStub vector => BitVec.ofNat 32 vector
  | isrNoErrStub vector => BitVec.ofNat 32 vector
  | keyboardStub => 33
  | timerStub => 32

theorem code_framed (framed : stub ≠ keyboardStub) : stub.code = stub.pushed.map .push ++
    [.pushad, .pushEsp, .call stub.handler, .addEsp 4, .popad, .addEsp 8] := by
  cases stub with
  | keyboardStub => exact absurd rfl framed
  | isrErrStub vector => rfl
  | isrNoErrStub vector => rfl
  | timerStub => rfl

theorem args_framed (framed : stub ≠ keyboardStub) : stub.handler.args = 1 := by
  cases stub with
  | keyboardStub => exact absurd rfl framed
  | isrErrStub vector => rfl
  | isrNoErrStub vector => rfl
  | timerStub => rfl

theorem execAll_pushes (pushed : List Dword) (rest : List Instr) (cpu : Cpu) (kernel : Kernel) :
    execAll handlers back (pushed.map .push ++ rest) (cpu, kernel) =
      execAll handlers back rest (cpu.pushAll pushed, kernel) := by
  induction pushed generalizing cpu with
  | nil => rfl
  | cons word more ih => exact ih (cpu.push word)

theorem pushed_length (stub : Stub) : stub.pushed.length ≤ 2 := by
  cases stub <;> simp [pushed]

/-- A stub with a frame, from the state at its entry. -/
theorem run_framed (back : Dword) (lawful : Cdecl base handlers.leave) (framed : stub ≠ keyboardStub)
    (stacked : cpu.Stacked base words) (room : words.length < 2 ^ 27) :
    ∃ after : Cpu, after.registers = cpu.registers ∧ after.Stacked base (stub.pushed.reverse ++ words) ∧
      ∀ kernel, stub.run handlers back (cpu, kernel) =
        (handlers.handle stub.handler (((cpu.pushAll stub.pushed).entered back).regstate
            (cpu.pushAll stub.pushed).pushad.esp) kernel).map
          fun kernel => (Cpu.iret { after with esp := after.esp + 8 }, kernel) := by
  have few := stub.pushed_length
  have below : (cpu.pushAll stub.pushed).Stacked base (stub.pushed.reverse ++ words) :=
    stacked.pushAll (by omega)
  obtain ⟨after, registers, kept, runs⟩ := execAll_framed back lawful (args_framed framed) below
    (by simp only [List.length_append, List.length_reverse]; omega)
  refine ⟨after, registers.trans (Cpu.pushAll_registers _), kept, fun kernel => ?_⟩
  rw [run, code_framed framed, execAll_pushes, runs, Option.map_bind]
  exact Option.map_eq_bind.symm

/-- An error code that the stub knows of makes the frame complete. -/
theorem frame_complete (framed : stub ≠ keyboardStub) {errorCode : Option Dword}
    (fits : errorCode.isSome = stub.expectsCode) :
    stub.pushed.reverse ++ errorCode.toList = [stub.vectorCode, errorCode.getD 0] := by
  cases stub with
  | keyboardStub => exact absurd rfl framed
  | isrErrStub vector =>
    obtain ⟨code, rfl⟩ := Option.isSome_iff_exists.mp fits
    rfl
  | isrNoErrStub vector =>
    cases errorCode with
    | none => rfl
    | some code => cases fits
  | timerStub =>
    cases errorCode with
    | none => rfl
    | some code => cases fits

/-- An error code that it does not know of, or the lack of one, makes the frame too long or short. -/
theorem frame_incomplete (framed : stub ≠ keyboardStub) {errorCode : Option Dword}
    (misfits : errorCode.isSome ≠ stub.expectsCode) :
    stub.pushed.length + errorCode.toList.length = 1 ∨
      stub.pushed.length + errorCode.toList.length = 3 := by
  cases stub <;> cases errorCode <;> simp_all [pushed, expectsCode]

/-- With the error code that the stub relies on, the interrupted code goes on unchanged after the
handler was called once, with its frame. -/
theorem run_resumes (back : Dword) (lawful : Cdecl base handlers.leave) (stacked : cpu.Stacked base words)
    (room : words.length < 2 ^ 26) (selector : BitVec 16) (offset : Dword) {errorCode : Option Dword}
    (fits : errorCode.isSome = stub.expectsCode) :
    ∃ after : Cpu, after.Resumed cpu base words ∧ ∀ kernel,
      stub.run handlers back (cpu.enter selector offset errorCode, kernel) =
        (handlers.handle stub.handler (cpu.interruptedState stub.vectorCode (errorCode.getD 0)) kernel).map
          fun kernel => (after, kernel) := by
  have few : errorCode.toList.length ≤ 1 := by cases errorCode <;> simp
  have entered := stacked.enter (by omega) selector offset errorCode
  by_cases framed : stub = keyboardStub
  · subst framed
    cases errorCode with
    | some code => cases fits
    | none =>
      obtain ⟨after, registers, kept, runs⟩ := execAll_bare back lawful entered
        (by simp only [List.length_append, List.length_cons]; omega)
      obtain ⟨eip, cs, eflags, left⟩ := kept.iret
      refine ⟨after.iret, ⟨registers.trans (Cpu.enter_registers ..), left.esp.trans stacked.esp.symm, eip,
        ?_, eflags, left⟩, fun kernel => ?_⟩
      · rw [cs]
        exact BitVec.setWidth_setWidth_of_le _ (by decide)
      · rw [run, code, runs, Option.map_map]
        rfl
  · obtain ⟨after, registers, kept, runs⟩ := run_framed back lawful framed entered
      (by simp only [List.length_append, List.length_cons]; omega)
    rw [← List.append_assoc, frame_complete framed fits] at kept
    have popped : Cpu.Stacked { after with esp := after.esp + 8 } base
        (cpu.eip :: cpu.cs.setWidth 32 :: cpu.eflags :: words) := kept.drop rfl rfl
    obtain ⟨eip, cs, eflags, left⟩ := popped.iret
    refine ⟨Cpu.iret { after with esp := after.esp + 8 },
      ⟨registers.trans (Cpu.enter_registers ..), left.esp.trans stacked.esp.symm, eip, ?_, eflags, left⟩,
      fun kernel => ?_⟩
    · rw [cs]
      exact BitVec.setWidth_setWidth_of_le _ (by decide)
    · have pushes := stub.pushed_length
      have below : ((cpu.enter selector offset errorCode).pushAll stub.pushed).Stacked base
          (stub.pushed.reverse ++ (errorCode.toList ++ cpu.eip :: cpu.cs.setWidth 32 :: cpu.eflags :: words)) :=
        entered.pushAll (by simp only [List.length_append, List.length_cons]; omega)
      rw [← List.append_assoc, frame_complete framed fits] at below
      have esp : ((cpu.enter selector offset errorCode).pushAll stub.pushed).esp = cpu.esp - 20 :=
        stacked.esp_below (List.append_assoc _ [cpu.eip, cpu.cs.setWidth 32, cpu.eflags] words ▸ below)
      rw [runs, Cpu.regstate_interrupted below (by omega)
        ((Cpu.pushAll_registers _).trans (Cpu.enter_registers ..)) esp]

/-- Otherwise it goes on, if at all, with another stack pointer. -/
theorem run_misses (lawful : Cdecl base handlers.leave) (stacked : cpu.Stacked base words)
    (room : words.length < 2 ^ 26) (selector : BitVec 16) (offset : Dword) {errorCode : Option Dword}
    (misfits : errorCode.isSome ≠ stub.expectsCode) {kernel final : Kernel}
    (returned : stub.run handlers back (cpu.enter selector offset errorCode, kernel) = some (after, final)) :
    after.esp ≠ cpu.esp := by
  have few : errorCode.toList.length ≤ 1 := by cases errorCode <;> simp
  have entered := stacked.enter (by omega) selector offset errorCode
  by_cases framed : stub = keyboardStub
  · subst framed
    cases errorCode with
    | none => exact absurd rfl misfits
    | some code =>
      obtain ⟨inner, -, kept, runs⟩ := execAll_bare back lawful entered
        (by simp only [List.length_append, List.length_cons]; omega)
      rw [run, Stub.code, runs, Option.map_map] at returned
      obtain ⟨_, -, same⟩ := Option.map_eq_some_iff.mp returned
      cases same
      have esp : inner.esp = cpu.esp - 16 := stacked.esp_below
        (List.append_assoc _ [cpu.eip, cpu.cs.setWidth 32, cpu.eflags] words ▸ kept)
      change inner.esp + 12 ≠ cpu.esp
      rw [esp]
      bv_omega
  · obtain ⟨inner, registers, kept, runs⟩ := run_framed back lawful framed entered
      (by simp only [List.length_append, List.length_cons]; omega)
    rw [runs] at returned
    obtain ⟨_, -, same⟩ := Option.map_eq_some_iff.mp returned
    cases same
    have esp := stacked.esp_below (List.append_assoc _ [cpu.eip, cpu.cs.setWidth 32, cpu.eflags] words ▸
      List.append_assoc .. ▸ kept)
    change inner.esp + 8 + 12 ≠ cpu.esp
    rw [esp]
    simp only [List.length_append, List.length_reverse, List.length_cons, List.length_nil]
    rcases frame_incomplete framed misfits with one | three
    · rw [one]
      bv_omega
    · rw [three]
      bv_omega

end Stub

end WalnutOs.Klib
