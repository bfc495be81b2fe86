import WalnutOs.Klib.Pci
import WalnutOs.Lib.Fields

/-! What is read from the configuration space after a word or a byte is written to it. -/

namespace WalnutOs.Klib.Pci.ConfigSpace

open Lib.Fields

/-- The words (`width` 16) or bytes (`width` 8) of a dword, the lowest first. -/
def lane (width : Nat) (dword : BitVec 32) (index : Nat) : BitVec width :=
  dword.extractLsb' (width * index) width

/-- The value is read back from where it is written to, and the others are as before. -/
structure Stored {width : Nat} (before after : ConfigSpace) (address : BitVec 32) (index : Nat)
    (data read : BitVec width) : Prop where
  readBack : read = data
  frame : ∀ other place, width * place < 32 → (other ≠ address ∨ place ≠ index) →
    lane width (after.dwords other) place = lane width (before.dwords other) place

/-- A word that is written is read back, and every other word is as before. -/
def WordAgrees (space : ConfigSpace) (bus slot func : BitVec 8) (offset : Register) (data : BitVec 16) :
    Prop :=
  let written := space.configWriteWord bus slot func offset data
  Stored space written (pciAddress bus slot func offset) (offset.toNat / 2 % 2) data
    (written.configReadWord bus slot func offset).1

def ByteAgrees (space : ConfigSpace) (bus slot func : BitVec 8) (offset : Register) (data : BitVec 8) :
    Prop :=
  let written := space.configWriteByte bus slot func offset data
  Stored space written (pciAddress bus slot func offset) (offset.toNat % 4) data
    (written.configReadByte bus slot func offset).1

variable {space : ConfigSpace} {bus slot func : BitVec 8} {offset : Register} {width index : Nat}
variable {address dword : BitVec 32}

theorem configReadWord_eq (space : ConfigSpace) (bus slot func : BitVec 8) (offset : Register) :
    (space.configReadWord bus slot func offset).1 =
    lane 16 (space.dwords (pciAddress bus slot func offset)) (offset.toNat / 2 % 2) := by
  have shift : ∀ offset : BitVec 8, (offset &&& 2).toNat * 8 = 16 * (offset.toNat / 2 % 2) := by
    decide +kernel
  change (space.dwords (pciAddress bus slot func offset) >>> ((offset &&& 2).toNat * 8) &&&
    0xFFFF#32).setWidth 16 = _
  rw [BitVec.setWidth_and, show (0xFFFF#32).setWidth 16 = BitVec.allOnes 16 from rfl, BitVec.and_allOnes,
    BitVec.setWidth_ushiftRight_eq_extractLsb, shift, lane]

theorem configReadByte_eq : (space.configReadByte bus slot func offset).1 =
    lane 8 (space.dwords (pciAddress bus slot func offset)) (offset.toNat % 4) := by
  have odd : ∀ offset : BitVec 8, offset &&& 0b1 ≠ 0 ↔ offset.toNat % 2 = 1 := by decide +kernel
  unfold configReadByte
  dsimp only
  rw [configReadWord_eq]
  split
  · rename_i set
    have place : 16 * (offset.toNat / 2 % 2) + 8 = 8 * (offset.toNat % 4) := by
      have := (odd offset).mp set
      omega
    rw [BitVec.setWidth_ushiftRight_eq_extractLsb, lane, lane, extract_extract (by decide), place]
  · rename_i clear
    have place : 16 * (offset.toNat / 2 % 2) + 0 = 8 * (offset.toNat % 4) := by
      have := mt (odd offset).mpr clear
      omega
    have low : ∀ word : BitVec 16, (word &&& 0xFF).setWidth 8 = word.extractLsb' 0 8 := fun word => by
      rw [BitVec.setWidth_and, show (0xFF : BitVec 16).setWidth 8 = BitVec.allOnes 8 from rfl,
        BitVec.and_allOnes, BitVec.setWidth_eq_extractLsb' (by decide)]
    rw [low, lane, lane, extract_extract (by decide), place]

/-- Storing into the lowest lane is right where that lane is meant, or where nothing is to change. -/
theorem stored_iff {after : ConfigSpace} {data : BitVec width} {changed : BitVec 32}
    (stores : after.dwords = Function.update space.dwords address changed)
    (inside : width * index < 32) (low : lane width changed 0 = data)
    (others : ∀ place, place ≠ 0 → lane width changed place = lane width (space.dwords address) place) :
    Stored space after address index data (lane width (after.dwords address) index) ↔
      index = 0 ∨ lane width (space.dwords address) 0 = data ∧
        lane width (space.dwords address) index = data := by
  constructor
  · rintro ⟨readBack, frame⟩
    by_cases lowest : index = 0
    · exact .inl lowest
    · have first := frame address 0 (by omega) (.inr (Ne.symm lowest))
      rw [stores, Function.update_self] at readBack first
      exact .inr ⟨first.symm.trans low, (others index lowest).symm.trans readBack⟩
  · intro fine
    constructor
    · rw [stores, Function.update_self]
      rcases fine with rfl | ⟨-, same⟩
      · exact low
      · by_cases lowest : index = 0
        · rw [lowest, low]
        · rw [others index lowest, same]
    · rintro other place - apart
      rw [stores]
      by_cases here : other = address
      · subst here
        rw [Function.update_self]
        by_cases lowest : place = 0
        · subst lowest
          rcases fine with rfl | ⟨same, -⟩
          · exact absurd rfl (apart.resolve_left fun moved => moved rfl)
          · rw [low, same]
        · exact others place lowest
      · rw [Function.update_of_ne here]

theorem lane_of_high {changed : BitVec 32}
    (same : ∀ bit, width ≤ bit → changed.getLsbD bit = dword.getLsbD bit) (place : Nat) (above : place ≠ 0) :
    lane width changed place = lane width dword place := by
  apply BitVec.eq_of_getLsbD_eq
  intro bit inside
  have far : width ≤ width * place := Nat.le_mul_of_pos_right width (Nat.pos_of_ne_zero above)
  rw [lane, lane, BitVec.getLsbD_extractLsb', BitVec.getLsbD_extractLsb', same _ (by omega)]

/-- The writes act on the lowest word or byte of the dword, whichever one the offset names. -/
theorem config_writes_agree_iff (space : ConfigSpace) (bus slot func : BitVec 8) (offset : Register) :
    (∀ data, space.WordAgrees bus slot func offset data ↔
      offset.toNat / 2 % 2 = 0 ∨
        lane 16 (space.dwords (pciAddress bus slot func offset)) 0 = data ∧
          lane 16 (space.dwords (pciAddress bus slot func offset)) (offset.toNat / 2 % 2) = data) ∧
    ∀ data, space.ByteAgrees bus slot func offset data ↔
      offset.toNat % 4 = 0 ∨
        lane 8 (space.dwords (pciAddress bus slot func offset)) 0 = data ∧
          lane 8 (space.dwords (pciAddress bus slot func offset)) (offset.toNat % 4) = data := by
  constructor
  · intro data
    rw [WordAgrees, configReadWord_eq]
    apply stored_iff rfl (by omega) BitVec.extractLsb'_append_eq_right
    exact lane_of_high fun _ => getLsbD_append_high (by decide)
  · intro data
    rw [ByteAgrees, configReadByte_eq]
    apply stored_iff rfl (by omega) BitVec.extractLsb'_append_eq_right
    exact lane_of_high fun _ => getLsbD_append_high (by decide)

/-- The word at the offset 6 is written to the offset 4. -/
theorem config_write_status_misplaced : ¬ WordAgrees ⟨0, fun _ => 0⟩ 0 0 0 0x6 0x1234 := by
  rintro ⟨readBack, -⟩
  revert readBack
  decide

end WalnutOs.Klib.Pci.ConfigSpace
