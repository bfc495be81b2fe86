import Mathlib
import WalnutOs.Klib.Idt
import WalnutOs.Klib.Pic
import WalnutOs.Klib.Ahci
import WalnutOs.Kernel.Timer

/-! The interrupt handlers of `kernel/idt.cc` behind the pair of interrupt controllers. -/

namespace WalnutOs.Kernel

open WalnutOs.Klib

structure SataDisk where
  irq : BitVec 32
  ahci : AHCIState

/-- What the handlers change; the writes to ports are in the keyboard's controller. -/
structure KernelState where
  timer : BitVec 32
  machine : Ps2Machine
  sataDisk0 : Option SataDisk

/-- What a handler finds in the devices. -/
structure DeviceReads where
  scanCode : KeyboardResponse
  ahci : InterruptReads

namespace KernelState

def outputs (kernel : KernelState) : List PortOutput := kernel.machine.controller.outputs

def output (kernel : KernelState) (written : PortOutput) : KernelState :=
  { kernel with machine.controller := kernel.machine.controller.output written }

/-- The difference is of unsigned numbers. -/
def endOfInterrupt (vectorCode : Dword) (kernel : KernelState) : KernelState :=
  let slaved := if 8 ≤ (vectorCode - 0x20).toNat then kernel.output (.outb 0xA0 0x20) else kernel
  slaved.output (.outb 0x20 0x20)

/-- An interrupt that is not the disk's ends in a failed assertion, which does not return. -/
def exceptionHandler (codes : IOErrorCodes) (reads : DeviceReads) (regs : RegState) (kernel : KernelState) :
    Option KernelState :=
  match kernel.sataDisk0 with
  | none => none
  | some disk =>
    if regs.vectorCode = 0x20 + disk.irq then
      some (endOfInterrupt regs.vectorCode
        { kernel with sataDisk0 := some { disk with ahci := disk.ahci.handleInterrupt codes reads.ahci } })
    else none

def timerInterrupt (regs : RegState) (kernel : KernelState) : KernelState :=
  endOfInterrupt regs.vectorCode { kernel with timer := timerHandler kernel.timer }

def keyboardInterrupt (reads : DeviceReads) (kernel : KernelState) : KernelState :=
  { kernel with machine := kernel.machine.keyboardHandler reads.scanCode }

def handlers (codes : IOErrorCodes) (reads : DeviceReads) (leave : Handler → Cpu → Cpu) :
    Handlers KernelState where
  exceptionHandler := exceptionHandler codes reads
  timerHandler regs kernel := some (timerInterrupt regs kernel)
  keyboardHandler kernel := some (keyboardInterrupt reads kernel)
  leave := leave

end KernelState

/-- What is fixed when the kernel is built, and the descriptor table that it is started with. -/
structure KernelImage where
  gdt : Gdt
  isrStubTable : Fin 64 → Dword
  leave : Handler → Cpu → Cpu
  back : Dword
  codes : IOErrorCodes

/-- The kernel and the controllers; a handler that does not return hangs them. -/
structure InterruptMachine where
  pics : PicPair
  kernel : KernelState
  hung : Bool

/-- An interrupt comes, if a line has asked, in some state of the processor. -/
inductive InterruptEvent where
  | raise (line : Fin 16)
  | interrupt (reads : DeviceReads) (cpu : Cpu)

namespace InterruptMachine

/-- Handlers run with interrupts disabled; what they write to the ports of the controllers is all
that is written there. -/
def interrupt (image : KernelImage) (reads : DeviceReads) (cpu : Cpu) (machine : InterruptMachine) :
    InterruptMachine :=
  match machine.pics.acknowledge with
  | none => machine
  | some (vector, taken) =>
    match (Idt.init image.isrStubTable).deliver image.gdt image.isrStubTable
        (KernelState.handlers image.codes reads image.leave) image.back vector none
        (cpu, machine.kernel) with
    | none => { machine with pics := taken, hung := true }
    | some (_, kernel) => { machine with
        pics := taken.outputs (kernel.outputs.drop machine.kernel.outputs.length), kernel }

def step (image : KernelImage) (machine : InterruptMachine) : InterruptEvent → InterruptMachine
  | .raise line => { machine with pics := machine.pics.raise line }
  | .interrupt reads cpu => if machine.hung then machine else machine.interrupt image reads cpu

/-- The machine when interrupts are enabled. -/
def start (pics : PicPair) (kernel : KernelState) : InterruptMachine := ⟨Pic.setUp pics, kernel, false⟩

end InterruptMachine

/-! What the interrupts are for: the lines that have asked are served by priority, each for its
device. -/

/-- The devices' side of the kernel, with no controllers in it. -/
structure Devices where
  timer : BitVec 32
  keyboard : Ps2Keyboard
  sataDisk0 : Option SataDisk

/-- What a byte from the device means for the two queues. -/
def receive (scanCode : KeyboardResponse) (keyboard : Ps2Keyboard) : Ps2Keyboard :=
  if scanCode = .commandAcknowledged then { keyboard with cmdQueue := keyboard.cmdQueue.pop.1 }
  else if scanCode = .ps2SelfTestPassed ∨ scanCode = .f1Down then keyboard
  else { keyboard with responseBuffer := (keyboard.responseBuffer.push scanCode).1 }

namespace Devices

/-- The interrupt of a line, none if no device is expected there. -/
def serve (codes : IOErrorCodes) (reads : DeviceReads) (line : Fin 16) (devices : Devices) : Option Devices :=
  if line.val = 0 then some { devices with timer := timerHandler devices.timer }
  else if line.val = 1 then some { devices with keyboard := receive reads.scanCode devices.keyboard }
  else devices.sataDisk0.bind fun disk =>
    if disk.irq = BitVec.ofNat 32 line.val then
      some { devices with
        sataDisk0 := some { disk with ahci := disk.ahci.handleInterrupt codes reads.ahci } }
    else none

end Devices

/-- The lines that have asked, and the devices as long as every interrupt could be served. -/
structure Lines where
  pending : Fin 16 → Bool
  devices : Devices
  hung : Bool

namespace Lines

def interrupt (codes : IOErrorCodes) (reads : DeviceReads) (lines : Lines) : Lines :=
  match PicPair.priority.find? lines.pending with
  | none => lines
  | some line =>
    match lines.devices.serve codes reads line with
    | none => { lines with pending := Function.update lines.pending line false, hung := true }
    | some devices => { lines with pending := Function.update lines.pending line false, devices }

def step (codes : IOErrorCodes) (lines : Lines) : InterruptEvent → Lines
  | .raise line =>
    if line = PicPair.ofMaster PicPair.cascadeLine then lines
    else { lines with pending := Function.update lines.pending line true }
  | .interrupt reads _ => if lines.hung then lines else lines.interrupt codes reads

def start (devices : Devices) : Lines := ⟨fun _ => false, devices, false⟩

end Lines

/-- The devices' side of the kernel. -/
def KernelState.devices (kernel : KernelState) : Devices :=
  ⟨kernel.timer, kernel.machine.keyboard, kernel.sataDisk0⟩

/-- Writes that the controllers do not see. -/
def Silent (written : List PortOutput) : Prop := ∀ pics : PicPair, pics.outputs written = pics

/-- The kernel after an interrupt that was served, with the writes of its end. -/
structure Served (line : Fin 16) (kernel after : KernelState) (devices : Devices) : Prop where
  devices : after.devices = devices
  outputs : ∃ written, Silent written ∧ after.outputs = kernel.outputs ++ (written ++ PicPair.ending line)

namespace KernelState

variable {kernel : KernelState} {line : Fin 16}

/-- The end of an interrupt of a line, after a change that wrote to no port. -/
theorem endOfInterrupt_served (line : Fin 16) {changed : KernelState}
    (same : changed.outputs = kernel.outputs) :
    Served line kernel (changed.endOfInterrupt (BitVec.ofNat 32 (0x20 + line.val))) changed.devices := by
  have distance : (BitVec.ofNat 32 (0x20 + line.val) - 0x20).toNat = line.val := by
    revert line
    decide
  unfold endOfInterrupt
  rw [distance]
  refine ⟨by split <;> rfl, [], fun _ => rfl, ?_⟩
  rw [← same]
  by_cases below : line.val < 8
  · rw [if_neg (Nat.not_le.mpr below), PicPair.ending, if_pos below]
    rfl
  · rw [if_pos (Nat.le_of_not_lt below), PicPair.ending, if_neg below]
    exact List.append_assoc ..

theorem receive_silent (machine : Ps2Machine) (scanCode : KeyboardResponse) :
    (machine.receive scanCode).keyboard = receive scanCode machine.keyboard ∧ ∃ written, Silent written ∧
      (machine.receive scanCode).controller.outputs = machine.controller.outputs ++ written := by
  unfold Ps2Machine.receive receive
  by_cases passed : scanCode = .ps2SelfTestPassed
  · subst passed
    exact ⟨rfl, [], fun _ => rfl, (List.append_nil _).symm⟩
  · rw [if_neg passed]
    by_cases acknowledged : scanCode = .commandAcknowledged
    · rw [if_pos acknowledged, if_pos acknowledged]
      exact ⟨rfl, [], fun _ => rfl, (List.append_nil _).symm⟩
    · rw [if_neg acknowledged, if_neg acknowledged]
      by_cases down : scanCode = .f1Down
      · rw [if_pos down, if_pos (.inr down)]
        exact ⟨rfl, [.outw 0x604 0x2000], fun _ => rfl, rfl⟩
      · rw [if_neg down, if_neg (not_or.mpr ⟨passed, down⟩)]
        exact ⟨rfl, [], fun _ => rfl, (List.append_nil _).symm⟩

theorem poll_outputs (left : Nat) (controller : Ps2Controller) :
    (controller.poll left).2.outputs = controller.outputs := by
  induction left generalizing controller with
  | zero => rfl
  | succ left ih =>
    rw [Ps2Controller.poll]
    split
    · rfl
    · exact ih _

theorem pollingWrite_silent (controller : Ps2Controller) (value : BitVec 8) : ∃ written, Silent written ∧
    (controller.pollingWrite value).2.outputs = controller.outputs ++ written := by
  have polled := poll_outputs 3 controller
  unfold Ps2Controller.pollingWrite
  split
  · rename_i busy
    rw [busy] at polled
    exact ⟨[], fun _ => rfl, polled.trans (List.append_nil _).symm⟩
  · rename_i free
    rw [free] at polled
    exact ⟨[.outb Ps2Controller.dataPort value], fun _ => rfl, congrArg (· ++ _) polled⟩

theorem keyboardInterrupt_served (reads : DeviceReads) (kernel : KernelState) :
    Served 1 kernel (kernel.keyboardInterrupt reads)
      { kernel.devices with keyboard := receive reads.scanCode kernel.machine.keyboard } := by
  obtain ⟨keyboard, first, silent, written⟩ := receive_silent kernel.machine reads.scanCode
  refine ⟨congrArg (Devices.mk kernel.timer · kernel.sataDisk0) keyboard, ?_⟩
  have ended : ∀ controller : Ps2Controller, (controller.output (.outb 0x20 0x20)).outputs =
      controller.outputs ++ PicPair.ending 1 := fun _ => rfl
  rw [outputs, keyboardInterrupt, Ps2Machine.keyboardHandler]
  simp only [ended]
  cases (kernel.machine.receive reads.scanCode).keyboard.cmdQueue.front with
  | none => exact ⟨first, silent, by rw [written, List.append_assoc]; rfl⟩
  | some next =>
    obtain ⟨second, still, more⟩ :=
      pollingWrite_silent (kernel.machine.receive reads.scanCode).controller next.code
    refine ⟨first ++ second, fun pics => ?_, ?_⟩
    · rw [PicPair.outputs, List.foldl_append]
      exact (congrArg (List.foldl PicPair.output · second) (silent pics)).trans (still pics)
    · rw [more, written, List.append_assoc, List.append_assoc, List.append_assoc]
      rfl

theorem vector_code (line : Fin 16) :
    (0x20 + BitVec.ofNat 8 line.val).setWidth 32 = BitVec.ofNat 32 (0x20 + line.val) := by
  revert line
  decide

theorem handlerOf_line (timer : line ≠ 0) (keyboard : line ≠ 1) :
    handlerOf (0x20 + BitVec.ofNat 8 line.val) = .exceptionHandler := by
  revert line
  decide

/-- The handler of a line's vector serves the line's device. -/
theorem handle_line (codes : IOErrorCodes) (reads : DeviceReads) (leave : Handler → Cpu → Cpu)
    (line : Fin 16) {regs : RegState}
    (vector : regs.vectorCode = (0x20 + BitVec.ofNat 8 line.val).setWidth 32) (kernel : KernelState) :
    match kernel.devices.serve codes reads line with
    | none =>
      (handlers codes reads leave).handle (handlerOf (0x20 + BitVec.ofNat 8 line.val)) regs kernel = none
    | some devices => ∃ after,
        (handlers codes reads leave).handle (handlerOf (0x20 + BitVec.ofNat 8 line.val)) regs kernel =
          some after ∧ Served line kernel after devices := by
  rw [vector_code] at vector
  unfold Devices.serve
  by_cases timer : line = 0
  · subst timer
    rw [if_pos (show (0 : Fin 16).val = 0 from rfl)]
    refine ⟨_, rfl, ?_⟩
    rw [timerInterrupt, vector]
    exact endOfInterrupt_served 0 rfl
  · rw [if_neg (timer ∘ Fin.val_eq_zero_iff.mp)]
    by_cases keyboard : line = 1
    · subst keyboard
      rw [if_pos (show (1 : Fin 16).val = 1 from rfl)]
      exact ⟨_, rfl, keyboardInterrupt_served reads kernel⟩
    · have other : line.val ≠ 1 := fun same => keyboard (Fin.ext same)
      rw [if_neg other, handlerOf_line timer keyboard]
      have answer : (handlers codes reads leave).handle .exceptionHandler regs kernel =
          exceptionHandler codes reads regs kernel := rfl
      rw [answer, exceptionHandler, devices]
      cases kernel.sataDisk0 with
      | none => rfl
      | some disk =>
        have asks : regs.vectorCode = 0x20 + disk.irq ↔ disk.irq = BitVec.ofNat 32 line.val := by
          have sum : BitVec.ofNat 32 (0x20 + line.val) = 0x20 + BitVec.ofNat 32 line.val :=
            BitVec.ofNat_add ..
          rw [vector, sum, BitVec.add_right_inj, eq_comm]
        simp only [Option.bind_some]
        by_cases expected : disk.irq = BitVec.ofNat 32 line.val
        · rw [if_pos expected, if_pos (asks.mpr expected)]
          refine ⟨_, rfl, ?_⟩
          rw [vector]
          exact endOfInterrupt_served line rfl
        · rw [if_neg expected, if_neg (expected ∘ asks.mp)]

end KernelState

/-- How the machine stands to the lines and the devices. -/
structure Follows (machine : InterruptMachine) (lines : Lines) : Prop where
  hung : machine.hung = lines.hung
  devices : machine.kernel.devices = lines.devices
  quiet : machine.hung = false → machine.pics.Quiet ∧ machine.pics.pending = lines.pending

/-- An interrupt comes when there is room on the stack. -/
def InterruptEvent.HasRoom (base : Dword) : InterruptEvent → Prop
  | .raise _ => True
  | .interrupt _ cpu => ∃ words, cpu.Stacked base words ∧ words.length < 2 ^ 26

section Runs

variable {image : KernelImage} {base : Dword} {machine : InterruptMachine} {lines : Lines}

theorem expected_line (line : Fin 16) : Expected (0x20 + BitVec.ofNat 8 line.val) none := by
  revert line
  decide

/-- The interrupt that the processor takes is served as that of the line with the highest priority. -/
theorem Follows.interrupt (lawful : Cdecl base image.leave) (flat : image.gdt.Flat image.isrStubTable)
    (apart : Function.Injective image.isrStubTable)
    {reads : DeviceReads} {cpu : Cpu} (room : (InterruptEvent.interrupt reads cpu).HasRoom base)
    (running : machine.hung = false) (follows : Follows machine lines) :
    Follows (machine.interrupt image reads cpu) (lines.interrupt image.codes reads) := by
  obtain ⟨quiet, pending⟩ := follows.quiet running
  obtain ⟨words, stacked, few⟩ := room
  rw [InterruptMachine.interrupt, Lines.interrupt, ← pending, ← follows.devices]
  cases first : PicPair.priority.find? machine.pics.pending with
  | none =>
    rw [quiet.acknowledge_none first]
    exact follows
  | some line =>
    obtain ⟨taken, acknowledged, ended, cleared⟩ := quiet.acknowledge_some first
    have keeps : Cdecl base (KernelState.handlers image.codes reads image.leave).leave := lawful
    obtain ⟨after, -, delivers⟩ :=
      Idt.deliver_expected image.back keeps flat apart stacked few (expected_line line)
    have frame : (cpu.interruptedState ((0x20 + BitVec.ofNat 8 line.val).setWidth 32)
        ((none : Option Dword).getD 0)).vectorCode = (0x20 + BitVec.ofNat 8 line.val).setWidth 32 := rfl
    have served := KernelState.handle_line image.codes reads image.leave line frame machine.kernel
    simp only [acknowledged, delivers]
    cases answer : machine.kernel.devices.serve image.codes reads line with
    | none =>
      rw [answer] at served
      simp only [served, Option.map_none]
      exact ⟨rfl, rfl, nofun⟩
    | some devices =>
      rw [answer] at served
      obtain ⟨kernel, handled, serves⟩ := served
      obtain ⟨written, silent, outputs⟩ := serves.outputs
      simp only [handled, Option.map_some]
      refine ⟨follows.hung, serves.devices, fun _ => ?_⟩
      have fresh : kernel.outputs.drop machine.kernel.outputs.length = written ++ PicPair.ending line := by
        rw [outputs, List.drop_left]
      have seen : taken.outputs (written ++ PicPair.ending line) = taken.outputs (PicPair.ending line) := by
        rw [PicPair.outputs, List.foldl_append]
        exact congrArg (List.foldl PicPair.output · _) (silent taken)
      rw [fresh, seen]
      exact ⟨ended, cleared⟩

theorem Follows.step (lawful : Cdecl base image.leave) (flat : image.gdt.Flat image.isrStubTable)
    (apart : Function.Injective image.isrStubTable)
    {event : InterruptEvent} (room : event.HasRoom base) (follows : Follows machine lines) :
    Follows (machine.step image event) (lines.step image.codes event) := by
  cases event with
  | raise line =>
    refine ⟨?_, ?_, fun running => ?_⟩
    · rw [Lines.step]
      split <;> exact follows.hung
    · rw [Lines.step]
      split <;> exact follows.devices
    · obtain ⟨quiet, pending⟩ := follows.quiet running
      obtain ⟨still, raised⟩ := quiet.raise line
      refine ⟨still, raised.trans ?_⟩
      rw [Lines.step, pending]
      split <;> rfl
  | interrupt reads cpu =>
    rw [InterruptMachine.step, Lines.step, ← follows.hung]
    cases running : machine.hung with
    | true => exact follows
    | false => exact follows.interrupt lawful flat apart room running

/-- Whatever state the controllers were in before `kernel_main` sets them up, and however lines ask and
interrupts come afterwards: each interrupt is that of the line with the highest priority among those
that have asked and were not served, and its device alone is served, once; no line is blocked or
forgotten. The machine hangs as soon as it serves a line of neither the timer, the keyboard nor the
disk. -/
theorem interrupts_served (lawful : Cdecl base image.leave) (flat : image.gdt.Flat image.isrStubTable)
    (apart : Function.Injective image.isrStubTable) (pics : PicPair) (kernel : KernelState)
    {events : List InterruptEvent} (room : ∀ event ∈ events, event.HasRoom base) :
    Follows (events.foldl (InterruptMachine.step image) (.start pics kernel))
      (events.foldl (Lines.step image.codes) (.start kernel.devices)) := by
  have started : Follows (.start pics kernel) (.start kernel.devices) :=
    ⟨rfl, rfl, fun _ => PicPair.setUp_quiet pics⟩
  exact List.foldl_rel started fun event inside _ _ follows =>
    follows.step lawful flat apart (room event inside)

/-- A key is pressed just before the clock ticks: the tick is served first. -/
theorem interrupts_served_tick :
    (([.raise 1, .raise 0, .interrupt ⟨0x1E, ⟨0, 0, 0, 0, 0⟩⟩ .waiting] : List InterruptEvent).foldl
      (InterruptMachine.step ⟨bootGdt, evenStubs, returnAtOnce, 0x100FF0, ⟨1, 2⟩⟩)
      (.start ⟨⟨0, 0, 0, 0, 0, .mask, false, false⟩, ⟨0, 0, 0, 0, 0, .mask, false, false⟩⟩
        ⟨6, (KeyboardRun.start (.replicate 2043 0) (.replicate 2043 .echo) fun _ => 0).machine, none⟩)).kernel.timer
      = 7 := by
  have room : ∀ event ∈ ([.raise 1, .raise 0, .interrupt ⟨0x1E, ⟨0, 0, 0, 0, 0⟩⟩ .waiting] :
      List InterruptEvent), event.HasRoom 0x9000 := by
    simp only [List.forall_mem_cons, List.not_mem_nil]
    exact ⟨trivial, trivial, ⟨[9], Cpu.waiting_stacked, by decide⟩, nofun⟩
  have follows := @interrupts_served ⟨bootGdt, evenStubs, returnAtOnce, 0x100FF0, ⟨1, 2⟩⟩ 0x9000
    Cdecl.returnAtOnce bootGdt_flat evenStubs_injective
    ⟨⟨0, 0, 0, 0, 0, .mask, false, false⟩, ⟨0, 0, 0, 0, 0, .mask, false, false⟩⟩
    ⟨6, (KeyboardRun.start (.replicate 2043 0) (.replicate 2043 .echo) fun _ => 0).machine, none⟩ _ room
  exact congrArg Devices.timer follows.devices

end Runs

end WalnutOs.Kernel
