import WalnutOs.Klib.Drive

/-! The configuration space of the PCI buses, `klib/pci/pci.hh` and `klib/pci/pci.cc`. -/

namespace WalnutOs.Klib.Pci

/-- The members of `pci::Register` are offsets of 8 bits. -/
abbrev Register := BitVec 8

def cacheLineSize : Register := 0xC

def pciAddress (bus slot func : BitVec 8) (offset : Register) : BitVec 32 :=
  0x80000000#32 ||| bus.setWidth 32 <<< 16 ||| slot.setWidth 32 <<< 11 ||| func.setWidth 32 <<< 8 |||
    (offset &&& 0xFC#8).setWidth 32

/-- What is behind the two ports: the selected address, and a dword for each address. -/
structure ConfigSpace where
  configAddress : BitVec 32
  dwords : BitVec 32 → BitVec 32

namespace ConfigSpace

/-- `outl` to `CONFIG_ADDRESS`. -/
def select (space : ConfigSpace) (address : BitVec 32) : ConfigSpace :=
  { space with configAddress := address }

/-- `inl` from `CONFIG_DATA`. -/
def inl (space : ConfigSpace) : BitVec 32 := space.dwords space.configAddress

/-- `outl` to `CONFIG_DATA`. -/
def outl (space : ConfigSpace) (value : BitVec 32) : ConfigSpace :=
  { space with dwords := Function.update space.dwords space.configAddress value }

/-- `outw` to `CONFIG_DATA` acts on the low bytes of the dword. -/
def outw (space : ConfigSpace) (value : BitVec 16) : ConfigSpace :=
  space.outl (space.inl.extractLsb' 16 16 ++ value)

/-- So does `outb`. -/
def outb (space : ConfigSpace) (value : BitVec 8) : ConfigSpace :=
  space.outl (space.inl.extractLsb' 8 24 ++ value)

def configReadU32 (space : ConfigSpace) (bus slot func : BitVec 8) (offset : Register) :
    BitVec 32 × ConfigSpace :=
  let selected := space.select (pciAddress bus slot func offset)
  (selected.inl, selected)

def configReadWord (space : ConfigSpace) (bus slot func : BitVec 8) (offset : Register) :
    BitVec 16 × ConfigSpace :=
  let selected := space.select (pciAddress bus slot func offset)
  ((selected.inl >>> ((offset &&& 2).toNat * 8) &&& 0xFFFF).setWidth 16, selected)

def configReadByte (space : ConfigSpace) (bus slot func : BitVec 8) (offset : Register) :
    BitVec 8 × ConfigSpace :=
  let (word, selected) := space.configReadWord bus slot func offset
  if offset &&& 0b1 ≠ 0 then ((word >>> 8).setWidth 8, selected)
  else ((word &&& 0xFF).setWidth 8, selected)

def configWriteWord (space : ConfigSpace) (bus slot func : BitVec 8) (offset : Register)
    (data : BitVec 16) : ConfigSpace :=
  (space.select (pciAddress bus slot func offset)).outw data

def configWriteByte (space : ConfigSpace) (bus slot func : BitVec 8) (offset : Register)
    (data : BitVec 8) : ConfigSpace :=
  (space.select (pciAddress bus slot func offset)).outb data

end ConfigSpace

structure BusSlotAddr where
  bus : BitVec 8
  slot : BitVec 8
  func : BitVec 8
  deriving DecidableEq

namespace BusSlotAddr

def maxBuses : BitVec 8 := 8
def maxSlots : BitVec 8 := 32
def maxFuncs : BitVec 8 := 8

/-- The dword that tells whether there is a device, and whether it has more than one function. -/
def lthbc (space : ConfigSpace) (addr : BusSlotAddr) : BitVec 32 :=
  (space.configReadU32 addr.bus addr.slot addr.func cacheLineSize).1

/-- The two branches at the head of the loop; `lthbc` is what was read before it. -/
def advance (lthbc : BitVec 32) (addr : BusSlotAddr) : BusSlotAddr :=
  if addr.func = 0 ∧ (lthbc = BitVec.allOnes 32 ∨ lthbc &&& 0x800000 = 0) then
    let slot := addr.slot + 1
    if slot ≥ maxSlots then { addr with slot := 0, bus := addr.bus + 1 } else { addr with slot }
  else
    let func := addr.func + 1
    if func ≥ maxFuncs then { addr with func := 0, slot := addr.slot + 1 } else { addr with func }

/-- At most so many turns of the loop. The `lthbc` of each turn is its own variable. -/
def nextAddrLoop (space : ConfigSpace) (lthbc : BitVec 32) : Nat → BusSlotAddr →
    Except Fault (Option BusSlotAddr)
  | 0, _ => .error .diverges
  | turns + 1, addr =>
    let next := addr.advance lthbc
    if next.bus ≥ maxBuses then .ok none
    else if next.lthbc space ≠ 0xFF then .ok (some next)
    else nextAddrLoop space lthbc turns next

def nextAddr (turns : Nat) (space : ConfigSpace) (addr : BusSlotAddr) :
    Except Fault (Option BusSlotAddr) :=
  nextAddrLoop space (addr.lthbc space) turns addr

end BusSlotAddr

end WalnutOs.Klib.Pci
