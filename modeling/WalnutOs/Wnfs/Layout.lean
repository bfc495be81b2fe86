import WalnutOs.Klib.Drive
import WalnutOs.Lib.Window

/-! Where WNFS keeps what on the disk, `wnfs.hh`, `inode.hh` and
`tag_bitmap.hh`. -/

namespace WalnutOs.Wnfs

open WalnutOs.Klib WalnutOs.Lib

def blockSize : Nat := 1024
def numINodes : Nat := 8192
def sizeofINode : Nat := 128
def sizeofTagNode : Nat := 256

def tagBitmapStart : Nat := 1024
def tagBitmapSectors : Nat := 8
def tagNodeBlockStart : Nat := 1024 + tagBitmapSectors * sectorSize
def numTagNodes : Nat := 128
def tagNodeBlockSectors : Nat := numTagNodes * sizeofTagNode / sectorSize
def blockGroupStart : Nat := tagNodeBlockStart + tagNodeBlockSectors * sectorSize
def blockGroupBitmapSectors : Nat := 8
def inodeBitmapStart : Nat := blockGroupStart + blockGroupBitmapSectors * sectorSize
def inodeBitmapStartSector : Nat := inodeBitmapStart / sectorSize
def inodeBitmapSectors : Nat := numINodes / 8 / sectorSize
def inodesStart : Nat := inodeBitmapStart + inodeBitmapSectors * sectorSize
def inodeSectors : Nat := numINodes * sizeofINode / sectorSize
def inodesPerSector : Nat := sectorSize / sizeofINode
def blocksStart : Nat := inodesStart + inodeSectors * sectorSize
def blockStartSector : Nat := blocksStart / sectorSize

def inodeSector (inodeNum : Nat) : Nat := inodeNum / inodesPerSector + inodesStart / sectorSize

def inodeSectorOffset (inodeNum : Nat) : Nat := inodeNum % inodesPerSector * sizeofINode

theorem inodeBitmapStartSector_eq : inodeBitmapStartSector = 82 := rfl

theorem blockStartSector_eq : blockStartSector = 2132 := rfl

theorem inodeSector_eq (inodeNum : Nat) : inodeSector inodeNum = inodeNum / 4 + 84 := rfl

theorem inodeSectorOffset_eq (inodeNum : Nat) : inodeSectorOffset inodeNum = inodeNum % 4 * 128 := rfl

theorem inodeBitmapStartSector_lt (inodeNum : Nat) : inodeBitmapStartSector < inodeSector inodeNum := by
  rw [inodeSector_eq, inodeBitmapStartSector_eq]
  omega

theorem inodeSector_lt {inodeNum : Nat} (valid : inodeNum < numINodes) :
    inodeSector inodeNum < blockStartSector := by
  rw [inodeSector_eq, blockStartSector_eq]
  unfold numINodes at valid
  omega

def getU32 (sector : Sector) (place : Nat) : Nat := Window.getLE sector place 4

def putU32 (place value : Nat) (sector : Sector) : Sector := Window.putLE sector place 4 value

/-! The fields of `INode`, by their offsets. -/

namespace INode

def sizeLower32 : Nat := 0
def reserved : Nat := 4
def creationTime : Nat := 8
def lastModifiedTime : Nat := 12
def directBlocks : Nat := 16
def indirectBlock : Nat := 52
def doubleIndirectBlock : Nat := 56
def tripleIndirectBlock : Nat := 60
def nameLen : Nat := 64

def numDirectBlocks : Nat := 9
def nameSize : Nat := 63

/-- `direct_blocks[idx]`. The array has no bounds check, and `indirect_block` comes after it. -/
def directBlock (idx : Nat) : Nat := directBlocks + 4 * idx

/-- `set_name` of the inode at `offset`; the name follows its length. A longer
name is an error, which the caller drops. -/
def setName (offset : Nat) (name : List Byte) (sector : Sector) : Sector :=
  if nameSize < name.length then sector
  else Window.overwrite sector (offset + nameLen) (BitVec.ofNat 8 name.length :: name)

/-- What `create_file` stores in the fields of a new inode, in its order. -/
def initialFields : List (Nat × Nat) :=
  [(creationTime, 0), (sizeLower32, 0), (lastModifiedTime, 0xDEADBEEF), (reserved, 0)] ++
    (List.range numDirectBlocks).map (fun idx => (directBlock idx, 0)) ++
    [(indirectBlock, 0), (doubleIndirectBlock, 0), (tripleIndirectBlock, 0)]

/-- The fields of a new inode that are 0 whatever was there: its size and its blocks. -/
def zeroFields : List Nat :=
  sizeLower32 :: (List.range numDirectBlocks).map directBlock ++
    [indirectBlock, doubleIndirectBlock, tripleIndirectBlock]

def initial (offset : Nat) (name : List Byte) (sector : Sector) : Sector :=
  setName offset name
    (initialFields.foldl (fun sector field => putU32 (offset + field.1) field.2 sector) sector)

end INode

/-- `TagBitmapBlock` as the first sector of the tag bitmap has it, with the magic number. -/
def tagBitmapHeader : Sector := putU32 2 0xF00DBABE (Window.overwrite (fun _ => 0) 0 [0])

end WalnutOs.Wnfs
