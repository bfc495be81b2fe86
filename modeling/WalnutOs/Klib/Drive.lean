import Mathlib.Logic.Function.Basic

/-! The disk as the callers of `AHCIState::read` and `AHCIState::write` use it:
sectors of 512 bytes and a result for each transfer. -/

namespace WalnutOs.Klib

/-- What ends a call without a result: a failed assertion, an access past the
end of an array, or a loop that never ends. -/
inductive Fault where
  | assertion (message : String)
  | outOfBounds
  | diverges
  deriving DecidableEq

abbrev Byte := BitVec 8

def sectorSize : Nat := 512

abbrev Sector := Fin 512 → Byte

/-- The place of a byte of the disk in its sector. -/
def sectorOffset (position : Nat) : Fin 512 := ⟨position % sectorSize, Nat.mod_lt _ (by decide)⟩

/-- The errors that the callers name. -/
inductive IOError where
  | tryAgain
  | deviceError
  | bufferTooSmall
  | cacheFull
  deriving DecidableEq

/-- How the device completes a transfer. A failed read may leave any bytes in
the buffer; a failed write leaves the sector as it was. `read_or_write` reports
no failure, it returns `Ok` however the transfer ended. -/
inductive Transfer where
  | done
  | failed (reported : Option IOError) (left : Sector)

/-- `outcomes n` is how the transfer number `n` will complete. -/
structure Drive where
  sectors : Nat → Sector
  outcomes : Nat → Transfer
  transfers : Nat

namespace Drive

/-- The outcome of the next transfer. -/
def outcome (drive : Drive) : Transfer := drive.outcomes drive.transfers

def tick (drive : Drive) : Drive := { drive with transfers := drive.transfers + 1 }

/-- Read the sector at a byte offset. The sector returned is what the caller's
buffer holds afterwards. -/
def read (drive : Drive) (offset : Nat) : Except IOError Unit × Sector × Drive :=
  match drive.outcome with
  | .done => (.ok (), drive.sectors (offset / sectorSize), drive.tick)
  | .failed none left => (.ok (), left, drive.tick)
  | .failed (some error) left => (.error error, left, drive.tick)

def write (drive : Drive) (data : Sector) (offset : Nat) : Except IOError Unit × Drive :=
  match drive.outcome with
  | .done => (.ok (),
      { drive.tick with sectors := Function.update drive.sectors (offset / sectorSize) data })
  | .failed none _ => (.ok (), drive.tick)
  | .failed (some error) _ => (.error error, drive.tick)

/-- A disk without errors on which every byte is 0. -/
def blank : Drive := ⟨fun _ _ => 0, fun _ => .done, 0⟩

/-- No transfer, now or later, fails. -/
def Reliable (drive : Drive) : Prop := ∀ n, drive.outcomes n = .done

theorem Reliable.outcome {drive : Drive} (reliable : Reliable drive) : drive.outcome = .done :=
  reliable _

end Drive

end WalnutOs.Klib
