import WalnutOs.Klib.CircularBuffer

/-! The keyboard driver, `klib/ps2`, and its interrupt handler, against a device
that acknowledges the command bytes. -/

namespace WalnutOs.Klib

open WalnutOs.Lib

inductive KeyboardCommand where
  | setLEDs
  | echo
  | identifyKeyboard
  | typematicRate
  | enableScanning
  | disableScanning
  | setDefault
  | resendLastByte
  | resetAndSelfTest
  deriving DecidableEq

def KeyboardCommand.code : KeyboardCommand → BitVec 8
  | .setLEDs => 0xED
  | .echo => 0xEE
  | .identifyKeyboard => 0xF2
  | .typematicRate => 0xF3
  | .enableScanning => 0xF4
  | .disableScanning => 0xF5
  | .setDefault => 0xF6
  | .resendLastByte => 0xFE
  | .resetAndSelfTest => 0xFF

/-- Whatever byte the device sends is cast to a response. -/
abbrev KeyboardResponse := BitVec 8

namespace KeyboardResponse

def commandAcknowledged : KeyboardResponse := 0xFA
def ps2SelfTestPassed : KeyboardResponse := 0x55
def f1Down : KeyboardResponse := 0x3B

end KeyboardResponse

inductive PortOutput where
  | outb (port : BitVec 16) (value : BitVec 8)
  | outw (port value : BitVec 16)

/-- `status n` is what the read number `n` of the status register will give;
the outputs are in order. -/
structure Ps2Controller where
  status : Nat → BitVec 8
  reads : Nat
  outputs : List PortOutput

namespace Ps2Controller

def dataPort : BitVec 16 := 0x60

def output (controller : Ps2Controller) (written : PortOutput) : Ps2Controller :=
  { controller with outputs := controller.outputs ++ [written] }

/-- The loop of `polling_write`: whether the input buffer is found empty in this many reads. -/
def poll : Nat → Ps2Controller → Bool × Ps2Controller
  | 0, controller => (false, controller)
  | left + 1, controller =>
    let next := { controller with reads := controller.reads + 1 }
    if controller.status controller.reads &&& 0b10 = 0 then (true, next) else poll left next

/-- The first component is `false` for `Err`. -/
def pollingWrite (controller : Ps2Controller) (value : BitVec 8) : Bool × Ps2Controller :=
  match controller.poll 3 with
  | (false, polled) => (false, polled)
  | (true, polled) => (true, polled.output (.outb dataPort value))

/-- The bytes that were written to the device. -/
def sent (controller : Ps2Controller) : List (BitVec 8) :=
  controller.outputs.filterMap fun
    | .outb port value => if port = dataPort then some value else none
    | .outw _ _ => none

/-- The controller's input buffer is empty whenever it is looked at. -/
def NeverBusy (controller : Ps2Controller) : Prop := ∀ n, controller.status n &&& 0b10 = 0

end Ps2Controller

structure Ps2Keyboard where
  responseBuffer : CircularBuffer KeyboardResponse 2042
  cmdQueue : CircularBuffer KeyboardCommand 2042

/-- The driver and the controller that it writes to. -/
structure Ps2Machine where
  keyboard : Ps2Keyboard
  controller : Ps2Controller

namespace Ps2Machine

/-- A command is written at once when the queue is empty, and not put into it. -/
def enqueueCommand (machine : Ps2Machine) (cmd : KeyboardCommand) : Bool × Ps2Machine :=
  if machine.keyboard.cmdQueue.empty then
    let (written, controller) := machine.controller.pollingWrite cmd.code
    (written, { machine with controller })
  else
    let (cmdQueue, pushed) := machine.keyboard.cmdQueue.push cmd
    (pushed, { machine with keyboard.cmdQueue := cmdQueue })

/-- What `keyboard_handler` does with the byte from the device. The output for
`F1Down` shuts an emulator down and does nothing elsewhere. -/
def receive (machine : Ps2Machine) (scanCode : KeyboardResponse) : Ps2Machine :=
  if scanCode = .ps2SelfTestPassed then machine
  else if scanCode = .commandAcknowledged then
    { machine with keyboard.cmdQueue := machine.keyboard.cmdQueue.pop.1 }
  else if scanCode = .f1Down then
    { machine with controller := machine.controller.output (.outw 0x604 0x2000) }
  else { machine with keyboard.responseBuffer := (machine.keyboard.responseBuffer.push scanCode).1 }

/-- A write of the next command that fails is only reported on the screen. -/
def keyboardHandler (machine : Ps2Machine) (scanCode : KeyboardResponse) : Ps2Machine :=
  let received := machine.receive scanCode
  let controller :=
    match received.keyboard.cmdQueue.front with
    | none => received.controller
    | some next => (received.controller.pollingWrite next.code).2
  { received with controller := controller.output (.outb 0x20 0x20) }

end Ps2Machine

inductive KeyboardEvent where
  | enqueueCommand (cmd : KeyboardCommand)
  | interrupt (scanCode : KeyboardResponse)

/-- The machine, with the commands that `enqueue_command` accepted, in order, and
the number of bytes that the device has acknowledged. -/
structure KeyboardRun where
  machine : Ps2Machine
  accepted : List KeyboardCommand
  acks : Nat

namespace KeyboardRun

open KeyboardResponse

theorem queueSize_pos : 0 < 2042 := by decide

/-- A keyboard as it is constructed, before anything is written. -/
def start (responses : Vector KeyboardResponse 2043) (commands : Vector KeyboardCommand 2043)
    (status : Nat → BitVec 8) : KeyboardRun :=
  ⟨⟨⟨.fresh queueSize_pos responses, .fresh queueSize_pos commands⟩, ⟨status, 0, []⟩⟩, [], 0⟩

def sent (run : KeyboardRun) : List (BitVec 8) := run.machine.controller.sent

def step (run : KeyboardRun) : KeyboardEvent → KeyboardRun
  | .enqueueCommand cmd =>
    let (taken, machine) := run.machine.enqueueCommand cmd
    { run with machine, accepted := if taken then run.accepted ++ [cmd] else run.accepted }
  | .interrupt scanCode =>
    { run with
      machine := run.machine.keyboardHandler scanCode
      acks := if scanCode = commandAcknowledged then run.acks + 1 else run.acks }

/-- The device acknowledges bytes that it was sent. -/
def Admitted (run : KeyboardRun) : KeyboardEvent → Prop
  | .enqueueCommand _ => True
  | .interrupt scanCode => scanCode = commandAcknowledged → run.acks < run.sent.length

/-- The bytes sent are the accepted commands, in order, up to some command; they
are all of them when no byte is unacknowledged. -/
def InOrder (run : KeyboardRun) : Prop :=
  run.sent <+: run.accepted.map KeyboardCommand.code ∧
    (run.sent.length ≤ run.acks → run.sent = run.accepted.map KeyboardCommand.code)

/-- If the event writes a byte, the device has acknowledged all earlier ones. -/
def Obeys (run : KeyboardRun) (event : KeyboardEvent) : Prop :=
  ((run.step event).sent ≠ run.sent → run.sent.length ≤ (run.step event).acks) ∧
    InOrder (run.step event)

/-- A command is enqueued after all commands accepted before are acknowledged. -/
def Waits (run : KeyboardRun) : KeyboardEvent → Prop
  | .enqueueCommand _ => run.accepted.length ≤ run.acks
  | .interrupt _ => True

instance (run : KeyboardRun) (event : KeyboardEvent) : Decidable (run.Admitted event) := by
  cases event <;> unfold Admitted <;> infer_instance

instance (run : KeyboardRun) (event : KeyboardEvent) : Decidable (run.Waits event) := by
  cases event <;> unfold Waits <;> infer_instance

/-- Nothing is ever queued: what is accepted is what has been sent. -/
structure Direct (run : KeyboardRun) : Prop where
  empty : run.machine.keyboard.cmdQueue.empty = true
  sent : run.sent = run.accepted.map KeyboardCommand.code
  idle : run.machine.controller.NeverBusy

end KeyboardRun

namespace Ps2Controller

variable {controller : Ps2Controller}

@[simp] theorem sent_output_outb (port : BitVec 16) (value : BitVec 8) :
    (controller.output (.outb port value)).sent =
      controller.sent ++ if port = dataPort then [value] else [] := by
  by_cases data : port = dataPort <;> simp [sent, output, data]

@[simp] theorem sent_output_outw (port value : BitVec 16) :
    (controller.output (.outw port value)).sent = controller.sent := by
  simp [sent, output]

/-- On an input buffer that is never busy a byte is written at the first try. -/
theorem NeverBusy.pollingWrite (idle : controller.NeverBusy) (value : BitVec 8) :
    controller.pollingWrite value =
      (true, { controller with reads := controller.reads + 1 }.output (.outb dataPort value)) := by
  have free := idle controller.reads
  simp only [Ps2Controller.pollingWrite, poll, if_pos free]

end Ps2Controller

namespace KeyboardRun

variable {run : KeyboardRun}

theorem Direct.enqueueCommand (direct : Direct run) (cmd : KeyboardCommand) :
    Direct (run.step (.enqueueCommand cmd)) ∧
      (run.step (.enqueueCommand cmd)).sent = run.sent ++ [cmd.code] := by
  have idle : ∀ n, run.machine.controller.status n &&& 0b10 = 0 := direct.idle
  have written : (run.step (.enqueueCommand cmd)).sent = run.sent ++ [cmd.code] := by
    simp only [step, Ps2Machine.enqueueCommand, direct.empty, if_true, direct.idle.pollingWrite]
    exact Ps2Controller.sent_output_outb _ _
  refine ⟨⟨?_, ?_, ?_⟩, written⟩
  · simp only [step, Ps2Machine.enqueueCommand, direct.empty, if_true]
  · rw [written, direct.sent]
    simp [step, Ps2Machine.enqueueCommand, direct.empty, direct.idle.pollingWrite]
  · simp only [step, Ps2Machine.enqueueCommand, direct.empty, if_true, direct.idle.pollingWrite]
    exact idle

theorem receive_direct {machine : Ps2Machine} (empty : machine.keyboard.cmdQueue.empty = true)
    (scanCode : KeyboardResponse) :
    (machine.receive scanCode).keyboard.cmdQueue.empty = true ∧
      (machine.receive scanCode).controller.sent = machine.controller.sent ∧
      (machine.receive scanCode).controller.status = machine.controller.status := by
  unfold Ps2Machine.receive
  split
  · exact ⟨empty, rfl, rfl⟩
  · split
    · simp [CircularBuffer.pop, empty]
    · split
      · exact ⟨empty, Ps2Controller.sent_output_outw _ _, rfl⟩
      · exact ⟨empty, rfl, rfl⟩

theorem Direct.interrupt (direct : Direct run) (scanCode : KeyboardResponse) :
    Direct (run.step (.interrupt scanCode)) ∧ (run.step (.interrupt scanCode)).sent = run.sent := by
  obtain ⟨empty, sent, status⟩ := receive_direct direct.empty scanCode
  have nothing : (run.machine.receive scanCode).keyboard.cmdQueue.front = none := by
    simp [CircularBuffer.front, empty]
  have same : (run.step (.interrupt scanCode)).sent = run.sent := by
    have other : (0x20 : BitVec 16) ≠ Ps2Controller.dataPort := by decide
    simp only [KeyboardRun.sent, step, Ps2Machine.keyboardHandler, nothing,
      Ps2Controller.sent_output_outb, if_neg other, List.append_nil, sent]
  refine ⟨⟨empty, same.trans direct.sent, ?_⟩, same⟩
  intro n
  simp only [step, Ps2Machine.keyboardHandler, nothing, Ps2Controller.output, status]
  exact direct.idle n

theorem Direct.step (direct : Direct run) (event : KeyboardEvent) : Direct (run.step event) := by
  cases event with
  | enqueueCommand cmd => exact (direct.enqueueCommand cmd).1
  | interrupt scanCode => exact (direct.interrupt scanCode).1

theorem Direct.inOrder (direct : Direct run) : InOrder run :=
  ⟨direct.sent ▸ List.prefix_rfl, fun _ => direct.sent⟩

theorem Direct.obeys_iff (direct : Direct run) (event : KeyboardEvent) :
    Obeys run event ↔ Waits run event := by
  have ordered := (direct.step event).inOrder
  cases event with
  | enqueueCommand cmd =>
    have written := (direct.enqueueCommand cmd).2
    have count : run.sent.length = run.accepted.length := by simp [direct.sent]
    rw [Obeys, and_iff_left ordered, written, count]
    simp [Waits, KeyboardRun.step]
  | interrupt scanCode =>
    have same := (direct.interrupt scanCode).2
    exact iff_of_true ⟨fun changed => absurd same changed, ordered⟩ trivial

theorem Direct.start (responses : Vector KeyboardResponse 2043)
    (commands : Vector KeyboardCommand 2043) {status : Nat → BitVec 8}
    (idle : ∀ n, status n &&& 0b10 = 0) : Direct (start responses commands status) where
  empty := beq_self_eq_true _
  sent := rfl
  idle := idle

/-- Every command accepted is written once and in order, and no byte is written
while an earlier one is unacknowledged. -/
def FollowsProtocol (run : KeyboardRun) (events : List KeyboardEvent) : Prop :=
  EveryStep step Obeys run events

/-- The driver follows the protocol on exactly the runs in which each command is
enqueued after all earlier ones were acknowledged. -/
theorem followsProtocol_iff (responses : Vector KeyboardResponse 2043)
    (commands : Vector KeyboardCommand 2043) {status : Nat → BitVec 8}
    (idle : ∀ n, status n &&& 0b10 = 0) (events : List KeyboardEvent) :
    FollowsProtocol (start responses commands status) events ↔
      EveryStep step Waits (start responses commands status) events :=
  EveryStep.iff_of_invariant Direct
    (fun _ event direct _ => direct.step event)
    (fun _ event direct => direct.obeys_iff event)
    (Direct.start responses commands idle) events

theorem followsProtocol_acknowledged : FollowsProtocol
    (start (.replicate 2043 0) (.replicate 2043 .echo) fun _ => 0)
    [.enqueueCommand .resetAndSelfTest, .interrupt 0xFA, .interrupt 0x1E, .enqueueCommand .echo] :=
  (followsProtocol_iff _ _ (fun _ => rfl) _).mpr (by decide)

/-- Two commands in a row are both written at once. -/
theorem second_command_does_not_wait : ¬ ∀ responses commands status events,
    (∀ n, status n &&& 0b10 = 0) →
    EveryStep step Admitted (start responses commands status) events →
    FollowsProtocol (start responses commands status) events := by
  intro claim
  obtain ⟨-, ⟨late, -⟩, -⟩ := claim (.replicate 2043 0) (.replicate 2043 .echo) (fun _ => 0)
    [.enqueueCommand .resetAndSelfTest, .enqueueCommand .echo] (fun _ => rfl) (by decide)
  revert late
  decide

end KeyboardRun

end WalnutOs.Klib
