import WalnutOs.Klib.Ahci
import WalnutOs.Klib.Drive
import WalnutOs.Lib.Fields
import WalnutOs.Lib.Window

/-! The command tables of the AHCI driver, `klib/ahci/ahci.cc`: how a queued
transfer is laid out for the device, and how the device reads it. -/

namespace WalnutOs.Klib

open WalnutOs.Lib Lib.Fields

/-- The members of `pci::IDEController::Command` are numbers of 8 bits. -/
abbrev IdeCommand := BitVec 8

def readFPDMAQueued : IdeCommand := 0x60
def writeFPDMAQueued : IdeCommand := 0x61

structure Prd where
  address : BitVec 32
  dataByteCount : BitVec 32
  deriving DecidableEq

structure CommandTable where
  cfis : Fin 16 → BitVec 32
  prdt : Fin 16 → Prd

structure CommandHeader where
  flags : BitVec 16
  numBuffers : BitVec 16
  bufferBytePos : BitVec 32

/-- The parts of `dma_state` that a transfer sets. -/
structure DmaState where
  ch : Slot → CommandHeader
  ct : Slot → CommandTable

namespace DmaState

def cfisCommand : BitVec 32 := 0x8027
def sectorSize : BitVec 32 := 512
def chClear : BitVec 32 := 0x400
def chWrite : BitVec 32 := 0x40

def kernelToPhysicalAddr (kernelAddr : BitVec 32) : BitVec 32 := kernelAddr

def clearSlot (dma : DmaState) (slot : Slot) : DmaState :=
  { dma with ch := Function.update dma.ch slot { dma.ch slot with numBuffers := 0, bufferBytePos := 0 } }

/-- A table has room for 16 buffers. -/
def pushBuffer (dma : DmaState) (slot : Slot) (data size : BitVec 32) : Except Fault DmaState :=
  let header := dma.ch slot
  let table := dma.ct slot
  if inside : header.numBuffers.toNat < 16 then
    .ok {
      ch := Function.update dma.ch slot { header with
        numBuffers := header.numBuffers + 1
        bufferBytePos := header.bufferBytePos + size }
      ct := Function.update dma.ct slot { table with
        prdt := Function.update table.prdt ⟨header.numBuffers.toNat, inside⟩
          ⟨kernelToPhysicalAddr data, size - 1⟩ } }
  else .error .outOfBounds

/-- The words of the command, from the first on. -/
def ncqWords (slot : Slot) (command : IdeCommand) (nsectors sector : BitVec 32) (fua : Bool)
    (priority : BitVec 32) : List (BitVec 32) :=
  [cfisCommand ||| command.setWidth 32 <<< 16 ||| (nsectors &&& 0xFF#32) <<< 24,
    (sector &&& 0xFFFFFF#32) ||| (BitVec.ofBool fua).setWidth 32 <<< 31 ||| 0x40000000#32,
    sector >>> 24 ||| (nsectors &&& 0xFF00#32) <<< 16,
    BitVec.ofNat 32 slot.val <<< 3 ||| priority <<< 14]

def issueNcq (dma : DmaState) (slot : Slot) (command : IdeCommand) (sector : BitVec 32) (fua : Bool)
    (priority : BitVec 32) : DmaState :=
  let header := dma.ch slot
  let table := dma.ct slot
  let nsectors := header.bufferBytePos / sectorSize
  { ch := Function.update dma.ch slot { header with
      flags := (4 ||| chClear ||| if command = writeFPDMAQueued then chWrite else 0).setWidth 16
      bufferBytePos := 0 }
    ct := Function.update dma.ct slot { table with
      cfis := Window.overwrite table.cfis 0 (ncqWords slot command nsectors sector fua priority) } }

/-- The steps of `read_or_write` that lay out the command. -/
def request (dma : DmaState) (slot : Slot) (command : IdeCommand) (data size sector : BitVec 32)
    (fua : Bool) (priority : BitVec 32) : Except Fault DmaState := do
  let pushed ← (dma.clearSlot slot).pushBuffer slot data size
  return pushed.issueNcq slot command sector fua priority

end DmaState

/-- What a device reads from the words of a Register host-to-device FIS. -/
structure RegisterH2D where
  fisType : Nat
  isCommand : Bool
  command : Nat
  lba : Nat
  lbaMode : Bool
  count : Nat
  tag : Nat
  fua : Bool
  priority : Nat
  deriving DecidableEq

/-- The layout of the FIS for queued commands. The count is in the features bytes. -/
def RegisterH2D.decode (cfis : Fin 16 → BitVec 32) : RegisterH2D :=
  let word0 := cfis ⟨0, by decide⟩
  let word1 := cfis ⟨1, by decide⟩
  let word2 := cfis ⟨2, by decide⟩
  let word3 := cfis ⟨3, by decide⟩
  { fisType := field word0 0 8
    isCommand := field word0 15 1 = 1
    command := field word0 16 8
    lba := field word1 0 24 + 2 ^ 24 * field word2 0 24
    lbaMode := field word1 30 1 = 1
    count := field word0 24 8 + 2 ^ 8 * field word2 24 8
    tag := field word3 3 5
    fua := field word1 31 1 = 1
    priority := field word3 14 2 }

/-- The bytes that an entry of the table describes. -/
def Prd.byteCount (prd : Prd) : Nat := field prd.dataByteCount 0 22 + 1

namespace DmaState

variable {dma issued : DmaState} {slot : Slot} {command : IdeCommand} {data size sector nsectors : BitVec 32}
variable {fua : Bool} {priority : BitVec 32}

theorem request_eq : dma.request slot command data size sector fua priority = .ok {
    ch := Function.update dma.ch slot
      ⟨(4 ||| chClear ||| if command = writeFPDMAQueued then chWrite else 0).setWidth 16, 1, 0⟩
    ct := Function.update dma.ct slot
      ⟨Window.overwrite (dma.ct slot).cfis 0
          (ncqWords slot command (size / sectorSize) sector fua priority),
        Function.update (dma.ct slot).prdt ⟨0, by decide⟩ ⟨data, size - 1⟩⟩ } := by
  simp [request, clearSlot, pushBuffer, issueNcq, kernelToPhysicalAddr]

/-- The low byte of the number of sectors is on top of the first word. -/
theorem toNat_word0 :
    (cfisCommand ||| command.setWidth 32 <<< 16 ||| (nsectors &&& 0xFF#32) <<< 24).toNat =
      0x8027 + command.toNat * 2 ^ 16 + nsectors.toNat % 2 ^ 8 * 2 ^ 24 := by
  have code := command.isLt
  have low : (nsectors &&& 0xFF#32).toNat = nsectors.toNat % 2 ^ 8 := toNat_and_ones rfl
  have wide : (command.setWidth 32).toNat = command.toNat := by
    rw [BitVec.toNat_setWidth, Nat.mod_eq_of_lt (by omega)]
  have middle : (cfisCommand ||| command.setWidth 32 <<< 16).toNat = 0x8027 + command.toNat * 2 ^ 16 := by
    rw [toNat_or_shift (by decide) (by omega), wide]
    rfl
  rw [toNat_or_shift (by omega) (by omega), middle, low]

theorem toNat_word1 :
    ((sector &&& 0xFFFFFF#32) ||| (BitVec.ofBool fua).setWidth 32 <<< 31 ||| 0x40000000#32).toNat =
      sector.toNat % 2 ^ 24 + 2 ^ 30 + fua.toNat * 2 ^ 31 := by
  have low : (sector &&& 0xFFFFFF#32).toNat = sector.toNat % 2 ^ 24 := toNat_and_ones rfl
  have flag : ((BitVec.ofBool fua).setWidth 32).toNat = fua.toNat := by cases fua <;> rfl
  have bound := Bool.toNat_le fua
  have mode : 0x40000000#32 = 1#32 <<< 30 := rfl
  have middle : ((sector &&& 0xFFFFFF#32) ||| 1#32 <<< 30).toNat = sector.toNat % 2 ^ 24 + 2 ^ 30 := by
    rw [toNat_or_shift (by omega) (by decide), low]
    rfl
  rw [BitVec.or_assoc, BitVec.or_comm ((BitVec.ofBool fua).setWidth 32 <<< 31), ← BitVec.or_assoc, mode,
    toNat_or_shift (by omega) (by omega), middle, flag]

/-- The high byte of the number of sectors is above the high byte of the sector. -/
theorem toNat_word2 :
    (sector >>> 24 ||| (nsectors &&& 0xFF00#32) <<< 16).toNat =
      sector.toNat / 2 ^ 24 + nsectors.toNat / 2 ^ 8 % 2 ^ 8 * 2 ^ 24 := by
  have bound := sector.isLt
  have high : (sector >>> 24).toNat = sector.toNat / 2 ^ 24 := by
    rw [BitVec.toNat_ushiftRight, Nat.shiftRight_eq_div_pow]
  have byte : (nsectors &&& 0xFF00#32) <<< 16 = (nsectors >>> 8 &&& 0xFF#32) <<< 24 := by
    rw [show 0xFF00#32 = 0xFF#32 <<< 8 from rfl, and_shift_shift]
  have low : (nsectors >>> 8 &&& 0xFF#32).toNat = nsectors.toNat / 2 ^ 8 % 2 ^ 8 := by
    rw [toNat_and_ones (n := 8) rfl, BitVec.toNat_ushiftRight, Nat.shiftRight_eq_div_pow]
  rw [byte, toNat_or_shift (by omega) (by omega), high, low]

theorem toNat_word3 (high : priority < 4) :
    (BitVec.ofNat 32 slot.val <<< 3 ||| priority <<< 14).toNat =
      slot.val * 2 ^ 3 + priority.toNat * 2 ^ 14 := by
  have inside := slot.isLt
  have few : priority.toNat < 4 := high
  have tag : (BitVec.ofNat 32 slot.val <<< 3).toNat = slot.val * 2 ^ 3 := by
    rw [BitVec.toNat_shiftLeft, BitVec.toNat_ofNat, Nat.shiftLeft_eq]
    omega
  rw [toNat_or_shift (by omega) (by omega), tag]

theorem decode_ncqWords {cfis : Fin 16 → BitVec 32} (few : nsectors.toNat < 2 ^ 16) (high : priority < 4) :
    RegisterH2D.decode (Window.overwrite cfis 0 (ncqWords slot command nsectors sector fua priority)) =
      ⟨0x27, true, command.toNat, sector.toNat, true, nsectors.toNat, slot.val, fua, priority.toNat⟩ := by
  have code := command.isLt
  have bound := sector.isLt
  have tag := slot.isLt
  have urgent : priority.toNat < 4 := high
  have word (place : Fin 16) :
      Window.overwrite cfis 0 (ncqWords slot command nsectors sector fua priority) place =
        ((ncqWords slot command nsectors sector fua priority)[place.val]?).getD (cfis place) :=
    if_pos (Nat.zero_le _)
  have flag : fua.toNat = 1 ↔ fua = true := Bool.toNat_eq_one
  have binary := Bool.toNat_le fua
  simp only [RegisterH2D.decode, word]
  simp only [ncqWords, List.getElem?_cons_zero, List.getElem?_cons_succ, Option.getD_some, field,
    toNat_word0, toNat_word1, toNat_word2, toNat_word3 high, RegisterH2D.mk.injEq, decide_eq_true_eq]
  refine ⟨by omega, by omega, by omega, by omega, by omega, by omega, by omega, ?_, by omega⟩
  rw [Bool.eq_iff_iff, decide_eq_true_eq, ← flag]
  omega

/-- The words and the table of a queued command say what was requested. -/
theorem request_decodes (dma : DmaState) (slot : Slot) (command : IdeCommand)
    (data size sector : BitVec 32) (fua : Bool) (priority : BitVec 32) (high : priority < 4)
    (whole : size.toNat % 512 = 0) (some : size ≠ 0) (most : size.toNat ≤ 4 * 2 ^ 20) :
    ∃ issued, dma.request slot command data size sector fua priority = .ok issued ∧
      RegisterH2D.decode (issued.ct slot).cfis =
        ⟨0x27, true, command.toNat, sector.toNat, true, size.toNat / 512, slot.val, fua, priority.toNat⟩ ∧
      (issued.ch slot).numBuffers = 1 ∧
      ((issued.ct slot).prdt ⟨0, by decide⟩).address = data ∧
      ((issued.ct slot).prdt ⟨0, by decide⟩).byteCount = size.toNat / 512 * 512 := by
  have sectors : (size / sectorSize).toNat = size.toNat / 512 := BitVec.toNat_udiv
  have nonempty : 0 < size.toNat := Nat.pos_of_ne_zero fun none => some (BitVec.eq_of_toNat_eq none)
  refine ⟨_, request_eq, ?_, ?_, ?_, ?_⟩
  · simp only [Function.update_self]
    rw [decode_ncqWords (by omega) high, sectors]
  · simp only [Function.update_self]
  · simp only [Function.update_self]
  · simp only [Function.update_self, Prd.byteCount, field]
    rw [BitVec.toNat_sub]
    change (2 ^ 32 - 1 + size.toNat) % 2 ^ 32 / 2 ^ 0 % 2 ^ 22 + 1 = _
    omega

/-- A write of 300 sectors beyond the first 2 ^ 24. -/
theorem request_decodes_write : ∃ issued,
    DmaState.request ⟨fun _ => ⟨0, 7, 512⟩, fun _ => ⟨fun _ => 0, fun _ => ⟨0, 0⟩⟩⟩ ⟨3, by decide⟩
        writeFPDMAQueued 0x100000 (300 * 512) 0x2000005 true 1 = .ok issued ∧
      RegisterH2D.decode (issued.ct ⟨3, by decide⟩).cfis =
        ⟨0x27, true, 0x61, 0x2000005, true, 300, 3, true, 1⟩ := by
  obtain ⟨issued, requested, decoded, -⟩ :=
    request_decodes ⟨fun _ => ⟨0, 7, 512⟩, fun _ => ⟨fun _ => 0, fun _ => ⟨0, 0⟩⟩⟩ ⟨3, by decide⟩
      writeFPDMAQueued 0x100000 (300 * 512) 0x2000005 true 1 (by decide) (by decide) (by decide) (by decide)
  exact ⟨issued, requested, decoded⟩

end DmaState

end WalnutOs.Klib
