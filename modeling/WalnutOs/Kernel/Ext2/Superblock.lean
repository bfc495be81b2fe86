import WalnutOs.Klib.Drive
import WalnutOs.Lib.Window

/-! The superblock that `kernel/ext2/blocks.cc` writes on an unformatted disk. -/

namespace WalnutOs.Kernel.Ext2

open WalnutOs.Klib WalnutOs.Lib

def wnosBlockSize : BitVec 32 := 1024
def wnosBlockGroupBlocks : BitVec 32 := 1953
def wnosInodesPerBlockGroup : BitVec 32 := 16

/-- Three double words, three words and 14 reserved bytes. -/
def sizeofGroupDescriptor : BitVec 32 := 32

/-- The 32-bit fields. -/
inductive Field32 where
  | totalINodes
  | totalBlocks
  | superUserBlocks
  | totalUnallocatedBlocks
  | totalUnallocatedInodes
  | superblockNumber
  | log2BlockSizeMinus10
  | log2FragmentSizeMinus10
  | numBlockGroupBlocks
  | numBlockGroupFragments
  | numBlockGroupInodes
  | lastMountTime
  | lastWrittenTime
  | lastFsckTime
  | forcedFsckInterval
  | operatingSystemID
  | majorVersion

def Field32.offset : Field32 → Nat
  | totalINodes => 0
  | totalBlocks => 4
  | superUserBlocks => 8
  | totalUnallocatedBlocks => 12
  | totalUnallocatedInodes => 16
  | superblockNumber => 20
  | log2BlockSizeMinus10 => 24
  | log2FragmentSizeMinus10 => 28
  | numBlockGroupBlocks => 32
  | numBlockGroupFragments => 36
  | numBlockGroupInodes => 40
  | lastMountTime => 44
  | lastWrittenTime => 48
  | lastFsckTime => 64
  | forcedFsckInterval => 68
  | operatingSystemID => 72
  | majorVersion => 76

/-- The 16-bit fields. -/
inductive Field16 where
  | numMountsSinceFsck
  | numMountsAllowedUntilFsck
  | ext2Signature
  | fileSystemState
  | errorHandlingMethod
  | minorVersion
  | reservedBlocksUserID
  | reservedBlocksGroupID

def Field16.offset : Field16 → Nat
  | numMountsSinceFsck => 52
  | numMountsAllowedUntilFsck => 54
  | ext2Signature => 56
  | fileSystemState => 58
  | errorHandlingMethod => 60
  | minorVersion => 62
  | reservedBlocksUserID => 80
  | reservedBlocksGroupID => 82

inductive FileSystemState where
  | clean
  | error

def FileSystemState.toU16 : FileSystemState → BitVec 16
  | clean => 1
  | error => 2

inductive ErrorHandlingMethod where
  | resume
  | remountReadOnly
  | inducePanic

/-- `resume` is `Continue`. -/
def ErrorHandlingMethod.toU16 : ErrorHandlingMethod → BitVec 16
  | resume => 1
  | remountReadOnly => 2
  | inducePanic => 3

structure Superblock where
  cache : Fin 1024 → Byte

namespace Superblock

def byteOffset : Nat := 1024
def ext2Checksum : BitVec 16 := 0xEF53

def read32 (superblock : Superblock) (offset : Field32) : BitVec 32 :=
  BitVec.ofNat 32 (Window.getLE superblock.cache offset.offset 4)

def read16 (superblock : Superblock) (offset : Field16) : BitVec 16 :=
  BitVec.ofNat 16 (Window.getLE superblock.cache offset.offset 2)

def hasSignature (superblock : Superblock) : Bool := superblock.read16 .ext2Signature = ext2Checksum

def numBlockGroups (superblock : Superblock) : BitVec 32 :=
  superblock.read32 .totalBlocks / superblock.read32 .numBlockGroupBlocks

section Numbers

/-! What `format_superblock` computes from the number of sectors of the disk. -/

variable (numSectors : BitVec 32)

def totalNumBlocks : BitVec 32 := numSectors / 2 - 1

def entriesPerBlock : BitVec 32 := wnosBlockSize / sizeofGroupDescriptor

def maxNumBlockGroups : BitVec 32 := totalNumBlocks numSectors / wnosBlockGroupBlocks

/-- One block is reserved for the superblock. -/
def numReserved : BitVec 32 := 1

def blockGroupDtSize : BitVec 32 :=
  maxNumBlockGroups numSectors / entriesPerBlock +
    (BitVec.ofBool (maxNumBlockGroups numSectors % entriesPerBlock > 0)).setWidth 32

def realBlocks : BitVec 32 := totalNumBlocks numSectors - numReserved - blockGroupDtSize numSectors

def totalInodes : BitVec 32 := realBlocks numSectors / wnosBlockGroupBlocks * wnosInodesPerBlockGroup

/-- The unsigned subtractions of `format_superblock`. -/
def subtractions : List (BitVec 32 × BitVec 32) :=
  [(numSectors / 2, 1), (totalNumBlocks numSectors, numReserved),
    (totalNumBlocks numSectors - numReserved, blockGroupDtSize numSectors), (totalInodes numSectors, 1)]

end Numbers

/-- A store through a pointer to a field. -/
inductive FieldStore where
  | dword (field : Field32) (value : BitVec 32)
  | word (field : Field16) (value : BitVec 16)

def FieldStore.store : FieldStore → Window.Store
  | dword field value => ⟨field.offset, 4, value.toNat⟩
  | word field value => ⟨field.offset, 2, value.toNat⟩

/-- The stores of `format_superblock`, in its order. -/
def fieldStores (numSectors : BitVec 32) : List FieldStore :=
  [.dword .totalINodes (totalInodes numSectors),
    .dword .totalBlocks (realBlocks numSectors),
    .dword .superUserBlocks 0,
    .dword .totalUnallocatedBlocks (realBlocks numSectors),
    .dword .totalUnallocatedInodes (totalInodes numSectors - 1),
    .dword .superblockNumber 0,
    .dword .log2BlockSizeMinus10 0,
    .dword .log2FragmentSizeMinus10 0,
    .dword .numBlockGroupBlocks wnosBlockGroupBlocks,
    .dword .numBlockGroupFragments 1,
    .dword .numBlockGroupInodes wnosInodesPerBlockGroup,
    .dword .lastMountTime 0,
    .dword .lastWrittenTime 0,
    .word .numMountsSinceFsck 1,
    .word .numMountsAllowedUntilFsck 65535,
    .word .ext2Signature ext2Checksum,
    .word .fileSystemState FileSystemState.error.toU16,
    .word .errorHandlingMethod ErrorHandlingMethod.resume.toU16,
    .word .minorVersion 0,
    .dword .lastFsckTime 0,
    .dword .forcedFsckInterval 0xFFFFFFFF,
    .dword .operatingSystemID 0x4,
    .dword .majorVersion 0,
    .word .reservedBlocksUserID 0,
    .word .reservedBlocksGroupID 0]

/-- `write` is what the disk does with the cache at a byte offset. -/
def formatSuperblock {Result : Type} (write : (Fin 1024 → Byte) → Nat → Result) (numSectors : BitVec 32)
    (superblock : Superblock) : Result × Superblock :=
  let cache := Window.putAll superblock.cache ((fieldStores numSectors).map FieldStore.store)
  (write cache byteOffset, ⟨cache⟩)

/-- Every field is read as it was stored, whatever was in the cache. -/
def FieldStore.ReadBack (superblock : Superblock) : FieldStore → Prop
  | dword field value => superblock.read32 field = value
  | word field value => superblock.read16 field = value

theorem fieldStores_apart (numSectors : BitVec 32) :
    ((fieldStores numSectors).map FieldStore.store).Pairwise Window.Store.Apart :=
  -- offsets and widths are literals whatever the values are, so the decision computes
  of_decide_eq_true rfl

theorem fieldStores_inside (numSectors : BitVec 32) :
    ∀ store ∈ (fieldStores numSectors).map FieldStore.store, store.start + store.width ≤ 1024 := by
  simp [fieldStores, FieldStore.store, Field32.offset, Field16.offset]

variable {Result : Type} (write : (Fin 1024 → Byte) → Nat → Result) (numSectors : BitVec 32)
variable (superblock : Superblock)

theorem formatSuperblock_readBack (store : FieldStore) (member : store ∈ fieldStores numSectors) :
    store.ReadBack (formatSuperblock write numSectors superblock).2 := by
  have stored : Window.getLE (formatSuperblock write numSectors superblock).2.cache store.store.start
      store.store.width = store.store.value % 256 ^ store.store.width :=
    Window.getLE_putAll (fieldStores_apart numSectors) (fieldStores_inside numSectors)
      (List.mem_map_of_mem member)
  cases store with
  | dword field value =>
    have number : Window.getLE (formatSuperblock write numSectors superblock).2.cache field.offset 4 =
        value.toNat % 2 ^ 32 := stored
    rw [FieldStore.ReadBack, read32, number, Nat.mod_eq_of_lt value.isLt, BitVec.ofNat_toNat,
      BitVec.setWidth_eq]
  | word field value =>
    have number : Window.getLE (formatSuperblock write numSectors superblock).2.cache field.offset 2 =
        value.toNat % 2 ^ 16 := stored
    rw [FieldStore.ReadBack, read16, number, Nat.mod_eq_of_lt value.isLt, BitVec.ofNat_toNat,
      BitVec.setWidth_eq]

theorem read32_formatSuperblock (field : Field32) (value : BitVec 32)
    (member : .dword field value ∈ fieldStores numSectors) :
    (formatSuperblock write numSectors superblock).2.read32 field = value :=
  formatSuperblock_readBack write numSectors superblock _ member

/-- No field is left out. -/
theorem dword_stored (field : Field32) : ∃ value, .dword field value ∈ fieldStores numSectors := by
  cases field <;> simp [fieldStores]

theorem word_stored (field : Field16) : ∃ value, .word field value ∈ fieldStores numSectors := by
  cases field <;> simp [fieldStores]

/-- What the superblock of a disk should say. -/
structure Consistent (numSectors : BitVec 32) (superblock : Superblock) : Prop where
  noWrap : ∀ pair ∈ subtractions numSectors, pair.2 ≤ pair.1
  signature : superblock.hasSignature = true
  dwords : ∀ field, ∃ value, .dword field value ∈ fieldStores numSectors ∧ superblock.read32 field = value
  words : ∀ field, ∃ value, .word field value ∈ fieldStores numSectors ∧ superblock.read16 field = value
  blocks : (superblock.read32 .totalBlocks).toNat + 1 + (blockGroupDtSize numSectors).toNat + 1 =
    numSectors.toNat / 2
  room : superblock.numBlockGroups.toNat ≤
    (blockGroupDtSize numSectors).toNat * (wnosBlockSize / sizeofGroupDescriptor).toNat
  inodes : (superblock.read32 .totalINodes).toNat = superblock.numBlockGroups.toNat * 16
  unallocatedBlocks : superblock.read32 .totalUnallocatedBlocks ≤ superblock.read32 .totalBlocks
  unallocatedInodes : superblock.read32 .totalUnallocatedInodes ≤ superblock.read32 .totalINodes

section Numbers

theorem totalNumBlocks_toNat {numSectors : BitVec 32} (blocks : 2 ≤ numSectors.toNat) :
    (totalNumBlocks numSectors).toNat = numSectors.toNat / 2 - 1 := by
  have half : (numSectors / 2).toNat = numSectors.toNat / 2 := BitVec.toNat_udiv
  have one : (1 : BitVec 32).toNat ≤ (numSectors / 2).toNat := by
    rw [half]
    change 1 ≤ numSectors.toNat / 2
    omega
  rw [totalNumBlocks, BitVec.toNat_sub_of_le one, half]
  rfl

theorem maxNumBlockGroups_toNat :
    (maxNumBlockGroups numSectors).toNat = (totalNumBlocks numSectors).toNat / 1953 :=
  BitVec.toNat_udiv

/-- The hand-written ceiling. -/
theorem blockGroupDtSize_toNat :
    (blockGroupDtSize numSectors).toNat = ((maxNumBlockGroups numSectors).toNat + 31) / 32 := by
  have bound := (maxNumBlockGroups numSectors).isLt
  have quotient : (maxNumBlockGroups numSectors / entriesPerBlock).toNat =
      (maxNumBlockGroups numSectors).toNat / 32 := BitVec.toNat_udiv
  have remainder : (maxNumBlockGroups numSectors % entriesPerBlock).toNat =
      (maxNumBlockGroups numSectors).toNat % 32 := BitVec.toNat_umod
  rw [blockGroupDtSize, BitVec.toNat_add, quotient]
  by_cases more : maxNumBlockGroups numSectors % entriesPerBlock > 0
  · have rest : 0 < (maxNumBlockGroups numSectors).toNat % 32 := remainder ▸ BitVec.lt_def.mp more
    have one : ((BitVec.ofBool true).setWidth 32).toNat = 1 := rfl
    rw [decide_eq_true more, one]
    omega
  · have none : (maxNumBlockGroups numSectors).toNat % 32 = 0 :=
      Nat.eq_zero_of_not_pos fun rest => more (BitVec.lt_def.mpr (remainder ▸ rest))
    have zero : ((BitVec.ofBool false).setWidth 32).toNat = 0 := rfl
    rw [decide_eq_false more, zero]
    omega

theorem unreserved_toNat {numSectors : BitVec 32} (superblock : 1 ≤ (totalNumBlocks numSectors).toNat) :
    (totalNumBlocks numSectors - numReserved).toNat = (totalNumBlocks numSectors).toNat - 1 := by
  have reserved : numReserved.toNat ≤ (totalNumBlocks numSectors).toNat := superblock
  exact BitVec.toNat_sub_of_le reserved

/-- The blocks are large enough for the superblock and the descriptor table. -/
theorem realBlocks_toNat {numSectors : BitVec 32} (superblock : 1 ≤ (totalNumBlocks numSectors).toNat)
    (table : (blockGroupDtSize numSectors).toNat ≤ (totalNumBlocks numSectors).toNat - 1) :
    (realBlocks numSectors).toNat =
      (totalNumBlocks numSectors).toNat - 1 - (blockGroupDtSize numSectors).toNat := by
  have rest := unreserved_toNat superblock
  have room : (blockGroupDtSize numSectors).toNat ≤ (totalNumBlocks numSectors - numReserved).toNat := by
    rw [rest]
    exact table
  rw [realBlocks, BitVec.toNat_sub_of_le room, rest]

theorem totalInodes_toNat :
    (totalInodes numSectors).toNat = (realBlocks numSectors).toNat / 1953 * 16 := by
  have bound := (realBlocks numSectors).isLt
  have groups : (realBlocks numSectors / wnosBlockGroupBlocks).toNat =
      (realBlocks numSectors).toNat / 1953 := BitVec.toNat_udiv
  have each : wnosInodesPerBlockGroup.toNat = 16 := rfl
  rw [totalInodes, BitVec.toNat_mul, groups, each]
  omega

/-- No subtraction wraps exactly if the disk has a whole block group besides the boot
block, the superblock and one block of descriptors. -/
theorem noWrap_iff : (∀ pair ∈ subtractions numSectors, pair.2 ≤ pair.1) ↔ 3912 ≤ numSectors.toNat := by
  have half : (numSectors / 2).toNat = numSectors.toNat / 2 := BitVec.toNat_udiv
  have one : (1 : BitVec 32).toNat = 1 := rfl
  have reserved : numReserved.toNat = 1 := rfl
  have table := blockGroupDtSize_toNat numSectors
  have groups := maxNumBlockGroups_toNat numSectors
  have inodes := totalInodes_toNat numSectors
  simp only [subtractions, List.forall_mem_cons, BitVec.le_def, half, one, reserved]
  constructor
  · rintro ⟨boot, superblock, descriptors, root, -⟩
    have total := totalNumBlocks_toNat (show 2 ≤ numSectors.toNat by omega)
    have rest := unreserved_toNat superblock
    have real := realBlocks_toNat superblock (rest ▸ descriptors)
    omega
  · intro large
    have total := totalNumBlocks_toNat (show 2 ≤ numSectors.toNat by omega)
    have superblock : 1 ≤ (totalNumBlocks numSectors).toNat := by omega
    have rest := unreserved_toNat superblock
    have real := realBlocks_toNat superblock (by omega)
    refine ⟨by omega, superblock, by omega, by omega, nofun⟩

end Numbers

/-- What the fields that depend on the disk are read as. -/
theorem formatSuperblock_numbers :
    let formatted := (formatSuperblock write numSectors superblock).2
    formatted.read32 .totalINodes = totalInodes numSectors ∧
      formatted.read32 .totalBlocks = realBlocks numSectors ∧
      formatted.read32 .totalUnallocatedBlocks = realBlocks numSectors ∧
      formatted.read32 .totalUnallocatedInodes = totalInodes numSectors - 1 ∧
      formatted.numBlockGroups.toNat = (realBlocks numSectors).toNat / 1953 := by
  intro formatted
  have read := read32_formatSuperblock write numSectors superblock
  have blocks := read .totalBlocks (realBlocks numSectors) (by simp [fieldStores])
  have each := read .numBlockGroupBlocks wnosBlockGroupBlocks (by simp [fieldStores])
  refine ⟨read _ _ (by simp [fieldStores]), blocks, read _ _ (by simp [fieldStores]),
    read _ _ (by simp [fieldStores]), ?_⟩
  rw [numBlockGroups, blocks, each]
  exact BitVec.toNat_udiv

/-- The superblock of a disk is consistent exactly from the size of one block group on. -/
theorem formatSuperblock_consistent_iff :
    Consistent numSectors (formatSuperblock write numSectors superblock).2 ↔ 3912 ≤ numSectors.toNat := by
  constructor
  · exact fun consistent => (noWrap_iff numSectors).mp consistent.noWrap
  · intro large
    have noWrap := (noWrap_iff numSectors).mpr large
    obtain ⟨inodes, blocks, freeBlocks, freeInodes, groups⟩ :=
      formatSuperblock_numbers write numSectors superblock
    have table := blockGroupDtSize_toNat numSectors
    have most := maxNumBlockGroups_toNat numSectors
    have total := totalNumBlocks_toNat (show 2 ≤ numSectors.toNat by omega)
    have real : (realBlocks numSectors).toNat =
        (totalNumBlocks numSectors).toNat - 1 - (blockGroupDtSize numSectors).toNat :=
      realBlocks_toNat (by omega) (by omega)
    have count := totalInodes_toNat numSectors
    have entries : (wnosBlockSize / sizeofGroupDescriptor).toNat = 32 := rfl
    have root : (1 : BitVec 32) ≤ totalInodes numSectors :=
      noWrap (totalInodes numSectors, 1) (by simp [subtractions])
    refine ⟨noWrap, ?_, fun field => ?_, fun field => ?_, ?_, ?_, ?_, ?_, ?_⟩
    · exact decide_eq_true (formatSuperblock_readBack write numSectors superblock
        (.word .ext2Signature ext2Checksum) (by simp [fieldStores]))
    · obtain ⟨value, member⟩ := dword_stored numSectors field
      exact ⟨value, member, formatSuperblock_readBack write numSectors superblock _ member⟩
    · obtain ⟨value, member⟩ := word_stored numSectors field
      exact ⟨value, member, formatSuperblock_readBack write numSectors superblock _ member⟩
    · rw [blocks]
      omega
    · rw [groups, entries]
      omega
    · rw [inodes, groups, count]
    · rw [freeBlocks, blocks]
      exact BitVec.le_refl _
    · rw [freeInodes, inodes, BitVec.le_def, BitVec.toNat_sub_of_le root]
      exact Nat.sub_le _ _

/-- On a disk with less than one block group the inode of the root is subtracted from no inodes. -/
theorem not_formatSuperblock_consistent : ¬∀ (numSectors : BitVec 32) (superblock : Superblock),
    Consistent numSectors (formatSuperblock (fun _ _ => ()) numSectors superblock).2 := by
  intro claim
  have root : (1 : BitVec 32) ≤ totalInodes 2048 :=
    (claim 2048 ⟨fun _ => 0⟩).noWrap (totalInodes 2048, 1) (by simp [subtractions])
  revert root
  decide

end Superblock

end WalnutOs.Kernel.Ext2
