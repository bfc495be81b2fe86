import WalnutOs.Lib.Bits
import Mathlib.Data.List.FinRange
import Mathlib.Logic.Function.Basic

/-! The command slots of the AHCI driver, `klib/ahci/ahci.cc`. What the device
puts into its registers is given with each read of them; the command tables,
which only the device reads, are in `AhciCommand`. -/

namespace WalnutOs.Klib

open WalnutOs.Lib

abbrev Slot := Fin 32

/-- The place of a status word that a slot's status pointer leads to. -/
abbrev StatusWord := Nat

inductive AhciRegister where
  | portInterruptStatus
  | driveInterruptStatus
  | commandAndStatus
  | serror
  | ncqActive
  | commandMask
  deriving DecidableEq

/-- What `handle_interrupt` reads. `restart` is the command register after the
device has stopped, if it comes to that. -/
structure InterruptReads where
  interruptStatus : BitVec 32
  tfd : BitVec 32
  ncqActive : BitVec 32
  commandAndStatus : BitVec 32
  restart : BitVec 32

/-- The numbers that the two error codes have as status words. -/
structure IOErrorCodes where
  tryAgain : BitVec 32
  deviceError : BitVec 32

/-- The slot fields of `AHCIState`, the status words, the writes to registers in
order, and for each slot the statuses with which its latest command has been
acknowledged, if there was a command. -/
structure AHCIState where
  numSlotsAvailable : BitVec 16
  slotsOutstandingMask : BitVec 16
  slotStatus : Slot → Option StatusWord
  words : StatusWord → BitVec 32
  writes : List (AhciRegister × BitVec 32)
  commands : Slot → Option (List (BitVec 32))

namespace InterruptReads

def fatalErrorMask : BitVec 32 := 0x78000000
def errorMask : BitVec 32 := 0x1

def isError (reads : InterruptReads) : Bool :=
  reads.interruptStatus &&& fatalErrorMask != 0 || reads.tfd &&& errorMask != 0

end InterruptReads

namespace AHCIState

def startMask : BitVec 32 := 0x1

def write (state : AHCIState) (register : AhciRegister) (value : BitVec 32) : AHCIState :=
  { state with writes := state.writes ++ [(register, value)] }

/-- What both kinds of commands have in common: `command_mask` wakes up the device. -/
def issue (state : AHCIState) (slot : Slot) : AHCIState :=
  { state.write .commandMask (1#32 <<< slot.val) with
    slotsOutstandingMask := state.slotsOutstandingMask ||| 1#16 <<< slot.val
    numSlotsAvailable := state.numSlotsAvailable - 1
    commands := Function.update state.commands slot (some []) }

def issueNcq (state : AHCIState) (slot : Slot) : AHCIState :=
  (state.write .ncqActive (1#32 <<< slot.val)).issue slot

def issueMeta (state : AHCIState) (slot : Slot) : AHCIState := state.issue slot

/-- A slot's status is to be stored in `word`, which has a first value. -/
def setStatus (state : AHCIState) (slot : Slot) (word : StatusWord) (value : BitVec 32) : AHCIState :=
  { state with
    words := Function.update state.words word value
    slotStatus := Function.update state.slotStatus slot (some word) }

def clearStatus (state : AHCIState) (slot : Slot) : AHCIState :=
  { state with slotStatus := Function.update state.slotStatus slot none }

/-- The bit of the slot is toggled. -/
def acknowledge (state : AHCIState) (slot : Slot) (result : BitVec 32) : AHCIState :=
  let toggled := { state with
    slotsOutstandingMask := state.slotsOutstandingMask ^^^ 1#16 <<< slot.val
    numSlotsAvailable := state.numSlotsAvailable + 1
    commands := Function.update state.commands slot ((state.commands slot).map (· ++ [result])) }
  match state.slotStatus slot with
  | none => toggled
  | some word => { toggled with
      words := Function.update state.words word result
      slotStatus := Function.update state.slotStatus slot none }

/-- The end of `await_basic`, once the device has cleared the slot's command bit. -/
def awaitBasic (state : AHCIState) (slot : Slot) : AHCIState := state.acknowledge slot 0

/-- One turn of the loop over the slots that `acks` names. -/
def ackSlot (acks : BitVec 32) (state : AHCIState) (slot : Slot) : AHCIState :=
  if acks.getLsbD slot then state.acknowledge slot 0 else state

def ackSlots (acks : BitVec 32) (slots : List Slot) (state : AHCIState) : AHCIState :=
  slots.foldl (ackSlot acks) state

/-- One turn of the loop over the slots that are still outstanding. -/
def failSlot (codes : IOErrorCodes) (state : AHCIState) (slot : Slot) : AHCIState :=
  if state.slotsOutstandingMask.getLsbD slot then state.acknowledge slot codes.deviceError else state

def failSlots (codes : IOErrorCodes) (slots : List Slot) (state : AHCIState) : AHCIState :=
  slots.foldl (failSlot codes) state

/-- The device is stopped and started again after the commands are failed. -/
def handleErrorInterrupt (codes : IOErrorCodes) (reads : InterruptReads) (state : AHCIState) :
    AHCIState :=
  (((state.failSlots codes (List.finRange 32)).write .commandAndStatus
      (reads.commandAndStatus &&& ~~~startMask)).write .serror (BitVec.allOnes 32)).write
    .commandAndStatus (reads.restart ||| startMask)

/-- The outstanding commands that the device no longer has active. -/
def acks (state : AHCIState) (reads : InterruptReads) : BitVec 32 :=
  state.slotsOutstandingMask.setWidth 32 &&& ~~~reads.ncqActive

def handleInterrupt (codes : IOErrorCodes) (reads : InterruptReads) (state : AHCIState) : AHCIState :=
  let cleared := (state.write .portInterruptStatus (BitVec.allOnes 32)).write
    .driveInterruptStatus (BitVec.allOnes 32)
  let acked := cleared.ackSlots (cleared.acks reads) (List.finRange 32)
  if reads.isError then acked.handleErrorInterrupt codes reads else acked

/-- A command is on the slot and has not been acknowledged yet. -/
def Unacknowledged (state : AHCIState) (slot : Slot) : Prop := state.commands slot = some []

instance (state : AHCIState) (slot : Slot) : Decidable (state.Unacknowledged slot) := by
  unfold Unacknowledged
  infer_instance

def outstanding (state : AHCIState) (slot : Slot) : Bool := state.slotsOutstandingMask.getLsbD slot

section Fields

variable {state : AHCIState} {slot other : Slot} {result value : BitVec 32} {register : AhciRegister}

@[simp] theorem outstanding_write :
    (state.write register value).outstanding slot = state.outstanding slot := rfl

@[simp] theorem commands_write : (state.write register value).commands = state.commands := rfl

@[simp] theorem slotStatus_write : (state.write register value).slotStatus = state.slotStatus := rfl

@[simp] theorem words_write : (state.write register value).words = state.words := rfl

theorem getLsbD_acks (reads : InterruptReads) : (state.acks reads).getLsbD slot =
    (state.outstanding slot && !reads.ncqActive.getLsbD slot) := by
  rw [acks, BitVec.getLsbD_and, BitVec.getLsbD_not, BitVec.getLsbD_setWidth, decide_eq_true slot.isLt,
    Bool.true_and, Bool.true_and, outstanding]

@[simp] theorem commands_acknowledge : (state.acknowledge slot result).commands =
    Function.update state.commands slot ((state.commands slot).map (· ++ [result])) := by
  unfold acknowledge
  split <;> rfl

/-- A bit that the mask has room for is toggled. -/
theorem outstanding_acknowledge (inside : other.val < 16) :
    (state.acknowledge slot result).outstanding other =
      (state.outstanding other ^^ decide (other = slot)) := by
  unfold acknowledge
  split <;> simp only [outstanding, Bits.getLsbD_toggle inside, Fin.ext_iff]

theorem outstanding_lt (set : state.outstanding slot = true) : slot.val < 16 := by
  by_contra outside
  rw [outstanding, BitVec.getLsbD_of_ge _ _ (Nat.le_of_not_lt outside)] at set
  cases set

theorem slotStatus_acknowledge : (state.acknowledge slot result).slotStatus =
    Function.update state.slotStatus slot none := by
  unfold acknowledge
  split
  · rename_i none
    rw [← none, Function.update_eq_self]
  · rfl

end Fields

end AHCIState

end WalnutOs.Klib
