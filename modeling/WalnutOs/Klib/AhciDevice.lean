import WalnutOs.Lib.Updates
import WalnutOs.Klib.AhciCommand
import WalnutOs.Klib.AhciErrors

/-! The driver of `klib/ahci/ahci.cc` with the controller that carries out its commands: the controller
takes a command from the tables in memory, moves the bytes, and clears its bits when it is done. -/

namespace WalnutOs.Klib

open WalnutOs.Lib

/-- The sectors of the drive, and the memory that it moves them from and to. -/
structure Medium where
  sectors : Nat → Sector
  ram : Nat → Byte

/-- A transfer of whole sectors. Byte by byte, `addresses` says where in memory they are. -/
structure TransferRequest where
  writes : Bool
  lba : Nat
  count : Nat
  addresses : List Nat
  deriving DecidableEq

/-- How a transfer ends. When it fails, the bytes read may be any, and only some of the sectors have been
written, never the last. -/
inductive TransferOutcome where
  | done
  | failed (left : Nat → Byte) (written : Nat)

namespace TransferRequest

/-- The command as the controller reads it: a Register host-to-device FIS with the slot's tag, one of the
two queued commands with the header's write flag to match, and as many buffers as the header says. -/
def decode (slot : Slot) (header : CommandHeader) (table : CommandTable) : Option TransferRequest :=
  let fis := RegisterH2D.decode table.cfis
  let writes := header.flags.getLsbD 6
  if fis.fisType = 0x27 ∧ fis.isCommand ∧ fis.lbaMode ∧ fis.tag = slot.val ∧
      fis.command = (if writes then writeFPDMAQueued else readFPDMAQueued).toNat then
    some {
      writes
      lba := fis.lba
      count := fis.count
      addresses := ((List.finRange 16).take header.numBuffers.toNat).flatMap fun entry =>
        (List.range (table.prdt entry).byteCount).map ((table.prdt entry).address.toNat + ·) }
  else none

/-- The byte of the drive that is moved as number `index`. -/
def driveByte (request : TransferRequest) (sectors : Nat → Sector) (index : Nat) : Byte :=
  sectors (request.lba + index / sectorSize) (sectorOffset index)

/-- Bytes are stored in memory one after the other. -/
def fill (request : TransferRequest) (bytes : Nat → Byte) (ram : Nat → Byte) : Nat → Byte :=
  storeAll Prod.fst (fun entry => bytes entry.2)
    (request.addresses.zipIdx.take (request.count * sectorSize)) ram

/-- The first `count` sectors of the transfer take their bytes from memory. -/
def store (request : TransferRequest) (count : Nat) (medium : Medium) : Nat → Sector := fun sector place =>
  if request.lba ≤ sector ∧ sector < request.lba + count then
    (request.addresses[(sector - request.lba) * sectorSize + place.val]?).elim (medium.sectors sector place)
      medium.ram
  else medium.sectors sector place

end TransferRequest

def Medium.perform (medium : Medium) (request : TransferRequest) : TransferOutcome → Medium
  | .done =>
    if request.writes then { medium with sectors := request.store request.count medium }
    else { medium with ram := request.fill (request.driveByte medium.sectors) medium.ram }
  | .failed left written =>
    if request.writes then { medium with sectors := request.store (min written (request.count - 1)) medium }
    else { medium with ram := request.fill left medium.ram }

/-- A call of `read` or `write` with a buffer at `data`. -/
structure DiskTransfer where
  writes : Bool
  data : BitVec 32
  size : BitVec 32
  offset : BitVec 32
  deriving DecidableEq

def DiskTransfer.command (transfer : DiskTransfer) : IdeCommand :=
  if transfer.writes then writeFPDMAQueued else readFPDMAQueued

/-- The transfer that the call asks for. -/
def DiskTransfer.request (transfer : DiskTransfer) : TransferRequest where
  writes := transfer.writes
  lba := transfer.offset.toNat / sectorSize
  count := transfer.size.toNat / sectorSize
  addresses := (List.range transfer.size.toNat).map (transfer.data.toNat + ·)

/-- What the processor asks of the drive, and what it does to the memory. -/
inductive DiskAction where
  | transfer (call : DiskTransfer)
  | store (address : Nat) (value : Byte)

/-- The controller carries out the command of a slot, or fails it. A failed command stays active. -/
inductive DeviceEvent where
  | done (slot : Slot)
  | failed (slot : Slot) (left : Nat → Byte) (written : Nat)

/-- `issued` and `active` are the controller's `command_mask` and `ncq_active`. The history is what the
processor has done, the current call included. -/
structure AhciMachine where
  call : ReadOrWrite
  dma : DmaState
  issued : BitVec 32
  active : BitVec 32
  medium : Medium
  history : List DiskAction

/-- `late` is what the controller does after the handler has read `ncq_active`. -/
inductive MachineEvent where
  | transfer (r : StatusWord) (call : DiskTransfer)
  | store (address : Nat) (value : Byte)
  | poll
  | device (event : DeviceEvent)
  | interrupt (reads : InterruptReads) (late : List DeviceEvent)

namespace AhciMachine

/-- What a write to a register does to the controller. Stopping it takes its commands away. -/
def receive (machine : AhciMachine) (write : AhciRegister × BitVec 32) : AhciMachine :=
  match write with
  | (.ncqActive, value) => { machine with active := machine.active ||| value }
  | (.commandMask, value) => { machine with issued := machine.issued ||| value }
  | (.commandAndStatus, value) =>
    if value.getLsbD 0 then machine else { machine with issued := 0, active := 0 }
  | (.portInterruptStatus, _) | (.driveInterruptStatus, _) | (.serror, _) => machine

/-- The slot's command, if the controller has it. -/
def request (machine : AhciMachine) (slot : Slot) : Option TransferRequest :=
  if machine.issued.getLsbD slot.val ∧ machine.active.getLsbD slot.val then
    TransferRequest.decode slot (machine.dma.ch slot) (machine.dma.ct slot)
  else none

/-- Without a command in the slot, nothing happens. -/
def react (machine : AhciMachine) : DeviceEvent → AhciMachine
  | .done slot =>
    match machine.request slot with
    | none => machine
    | some request => { machine with
        medium := machine.medium.perform request .done
        issued := machine.issued &&& ~~~(1#32 <<< slot.val)
        active := machine.active &&& ~~~(1#32 <<< slot.val) }
  | .failed slot left written =>
    match machine.request slot with
    | none => machine
    | some request => { machine with
        medium := machine.medium.perform request (.failed left written)
        issued := machine.issued &&& ~~~(1#32 <<< slot.val) }

/-- The driver goes on; the controller may react before it sees what the driver wrote. -/
def withCall (machine : AhciMachine) (call : ReadOrWrite) (late : List DeviceEvent) : AhciMachine :=
  (call.ahci.writes.drop machine.call.ahci.writes.length).foldl receive
    (late.foldl react { machine with call })

/-- A call of `read_or_write` up to its loop. -/
def issue (codes : IOErrorCodes) (machine : AhciMachine) (r : StatusWord) (transfer : DiskTransfer) :
    Option AhciMachine :=
  let laid := machine.dma.request ReadOrWrite.slot transfer.command transfer.data transfer.size
    (transfer.offset / DmaState.sectorSize) true 0
  laid.toOption.map fun dma =>
    ({ machine with dma, history := machine.history ++ [.transfer transfer] } : AhciMachine).withCall
      (({ machine.call with r, status := .notIssued } : ReadOrWrite).step codes .issue) []

/-- While a call polls, the processor does nothing but serve interrupts. -/
def step (codes : IOErrorCodes) (machine : AhciMachine) : MachineEvent → Option AhciMachine
  | .transfer r call => if machine.call.status = .polling then none else machine.issue codes r call
  | .store address value =>
    if machine.call.status = .polling then none
    else some { machine with
      medium := { machine.medium with ram := Function.update machine.medium.ram address value }
      history := machine.history ++ [.store address value] }
  | .poll => some { machine with call := machine.call.step codes .poll }
  | .device event => some (machine.react event)
  | .interrupt reads late =>
    some (machine.withCall
      (machine.call.step codes (.interrupt { reads with ncqActive := machine.active })) late)

end AhciMachine

end WalnutOs.Klib
