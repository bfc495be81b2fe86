import WalnutOs.Wnfs.Cache
import WalnutOs.Wnfs.Layout

/-! Files on WNFS, `wnfs.cc`: inodes and their blocks, through the sector cache;
the bitmap of the blocks is read and written on the disk itself. -/

namespace WalnutOs.Wnfs

open WalnutOs.Klib WalnutOs.Lib

inductive FileError where
  | diskError
  | outOfINodes
  | outOfSpace
  | fsError
  deriving DecidableEq

inductive ReadError where
  | diskError
  | badINode
  | badPosition
  | endOfFile
  deriving DecidableEq

inductive MetadataError where
  | diskError
  deriving DecidableEq

/-- Write sectors at byte offsets, up to the first error. -/
def writeAll : List (Nat × Sector) → Drive → Except IOError Unit × Drive
  | [], drive => (.ok (), drive)
  | (offset, data) :: rest, drive =>
    match drive.write data offset with
    | (.error error, drive) => (.error error, drive)
    | (.ok (), drive) => writeAll rest drive

def zeroSectors (start count : Nat) : List (Nat × Sector) :=
  (List.range count).map fun i => (start + i * sectorSize, fun _ => 0)

def formatDisk (drive : Drive) : Except IOError Unit × Drive :=
  writeAll ((tagBitmapStart, tagBitmapHeader) ::
    zeroSectors (tagBitmapStart + sectorSize) (tagBitmapSectors - 1) ++
    zeroSectors blockGroupStart blockGroupBitmapSectors ++
    zeroSectors inodeBitmapStart inodeBitmapSectors) drive

/-- A call on the cache and the disk, which may fault. -/
abbrev WnfsM := StateT World (Except Fault)

namespace WnfsM

/-- `read_buf_sector`, with the reference released when the scope of `body` ends. -/
def withBufSector {Value : Type} (sector : Nat) (failed : Value) (body : BufNum → WnfsM Value) :
    WnfsM Value := fun world =>
  match world.readBufSector sector with
  | (none, world) => .ok (failed, world)
  | (some bufNum, world) =>
    (body bufNum world).map fun (value, world) => (value, world.releaseBuffer bufNum)

/-- The bytes of a buffer, through a pointer. -/
def peek (bufNum : BufNum) : WnfsM Sector := fun world => .ok (world.cache.buffer bufNum, world)

/-- `as_ptr` marks the buffer dirty, what is stored through the pointer later does not. -/
def asPtr (bufNum : BufNum) : WnfsM Unit := fun world =>
  .ok ((), { world with cache := world.cache.markDirty bufNum })

def edit (bufNum : BufNum) (change : Sector → Sector) : WnfsM Unit := fun world =>
  .ok ((), { world with cache := world.cache.poke bufNum (change (world.cache.buffer bufNum)) })

def read (bufNum : BufNum) (idx : Nat) : WnfsM Byte := fun world =>
  (world.cache.getValConst idx bufNum).map fun byte => (byte, world)

def write (bufNum : BufNum) (idx : Nat) (data : Byte) : WnfsM Unit := fun world =>
  (world.cache.setVal idx bufNum data).map fun cache => ((), { world with cache })

def flush (bufNum : BufNum) : WnfsM (Except IOError Unit) := fun world => .ok (world.flush bufNum)

def diskRead (offset : Nat) : WnfsM (Except IOError Sector) := fun world =>
  match world.drive.read offset with
  | (.ok (), data, drive) => .ok (.ok data, { world with drive })
  | (.error error, _, drive) => .ok (.error error, { world with drive })

def diskWrite (data : Sector) (offset : Nat) : WnfsM (Except IOError Unit) := fun world =>
  .ok ((world.drive.write data offset).1, { world with drive := (world.drive.write data offset).2 })

end WnfsM

open WnfsM

/-- The first clear bit of a bitmap, as the number of its byte and its place there. -/
def firstClear (bitmap : Sector) : Option (Fin 512 × Fin 8) :=
  (List.finRange 512).findSome? fun i =>
    if bitmap i = 0xFF then none
    else ((List.finRange 8).find? fun j : Fin 8 => !(bitmap i).getLsbD j.val).map fun j => (i, j)

def createFile (name : List Byte) : WnfsM (Except FileError Nat) :=
  withBufSector inodeBitmapStartSector (.error .diskError) fun bitmap => do
    let bytes ← peek bitmap
    match firstClear bytes with
    | none => return .error .outOfINodes
    | some (i, j) =>
      let inodeNum := i.val * 8 + j.val
      withBufSector (inodeSector inodeNum) (.error .diskError) fun inodeBuf => do
        asPtr inodeBuf
        edit inodeBuf (INode.initial (inodeSectorOffset inodeNum) name)
        match ← flush inodeBuf with
        | .error _ => return .error .diskError
        | .ok () =>
          write bitmap i.val (bytes i ||| 1#8 <<< j.val)
          match ← flush bitmap with
          | .error _ => return .error .diskError
          | .ok () => return .ok inodeNum

/-- The loop that copies `count` bytes. Its 16-bit index would wrap, but an
index past the last buffer comes first. -/
def readBytes (block : BufNum) : Nat → Nat → WnfsM (List Byte)
  | _, 0 => return []
  | start, count + 1 => do
    let byte ← read block (start % 2 ^ 16)
    let rest ← readBytes block (start + 1) count
    return byte :: rest

/-- The result is what the call stores at the beginning of a buffer of `len`
bytes; the call returns how many bytes these are. -/
def readFromFile (len inodeId position : Nat) : WnfsM (Except ReadError (List Byte)) :=
  withBufSector (inodeSector inodeId) (.error .diskError) fun inodeBuf => do
    let inode ← peek inodeBuf
    let offset := inodeSectorOffset inodeId
    let size := getU32 inode (offset + INode.sizeLower32)
    if size ≤ position then return .error .endOfFile
    else if INode.numDirectBlocks < position / sectorSize then return .error .badPosition
    else
      let sector := getU32 inode (offset + INode.directBlock (position / sectorSize))
      if sector = 0 then return .error .badPosition
      else
        withBufSector ((sector + position % blockSize / sectorSize) % 2 ^ 32) (.error .diskError)
          fun block => do
            let readOffset := position % sectorSize
            let bytesLeft := (size % sectorSize + 2 ^ 32 - readOffset + 1) % 2 ^ 32
            let bytes ← readBytes block readOffset (min bytesLeft len)
            return .ok bytes

/-- Where the search for free sectors has got to. -/
structure SectorSearch where
  sectorPos : Nat
  sectorBit : Nat
  sectorCount : Nat
  deriving DecidableEq

def lzcnt16 (byte : Byte) : Nat := (byte.setWidth 16).clz.toNat

def tzcnt16 (byte : Byte) : Nat := (byte.setWidth 16).ctz.toNat

/-- One turn of the search; none is left once enough sectors are counted. -/
def searchByte (sectors : Nat) (bitmap : Sector) (search : SectorSearch) (i : Fin 512) :
    SectorSearch :=
  if sectors ≤ search.sectorCount then search
  else if bitmap i = 0xFF then { search with sectorCount := 0 }
  else if 0 < search.sectorCount then
    if tzcnt16 (bitmap i) = 0 then { search with sectorCount := 0 }
    else { search with sectorCount := search.sectorCount + tzcnt16 (bitmap i) }
  else if lzcnt16 (bitmap i) - 8 = 0 then search
  else ⟨i, 8 - (lzcnt16 (bitmap i) - 8), search.sectorCount + (lzcnt16 (bitmap i) - 8)⟩

def searchSectors (sectors : Nat) (bitmap : Sector) : SectorSearch :=
  (List.finRange 512).foldl (searchByte sectors bitmap) ⟨0, 0, 0⟩

/-- The bits are marked from the lowest bit of the byte on, wherever the free
sectors begin in it. A store past the array changes what is behind it on the
stack, which is left out, and the loop goes on. -/
def markSectors (sectors sectorPos : Nat) (bitmap : Sector) : Sector :=
  (List.range sectors).foldl (fun bitmap count =>
    if inside : sectorPos + count / 8 < 512 then
      Function.update bitmap ⟨sectorPos + count / 8, inside⟩
        (bitmap ⟨sectorPos + count / 8, inside⟩ ||| 1#8 <<< (count % 8))
    else bitmap) bitmap

def allocateSectors (sectors : Nat) : WnfsM (Option Nat) := do
  match ← diskRead blockGroupStart with
  | .error _ => return none
  | .ok bitmap =>
    let search := searchSectors sectors bitmap
    if search.sectorCount < sectors then return none
    else
      match ← diskWrite (markSectors sectors search.sectorPos bitmap) blockGroupStart with
      | .error _ => return none
      | .ok () => return some (search.sectorPos * 8 + search.sectorBit + blockStartSector)

/-- The first sector of a block, and whether it had to be allocated. -/
def blockSector (inodeBuf : BufNum) (entry : Nat) : WnfsM (Option (Nat × Bool)) := do
  let inode ← peek inodeBuf
  if getU32 inode entry ≠ 0 then return some (getU32 inode entry, false)
  else
    match ← allocateSectors (blockSize / sectorSize) with
    | none => return none
    | some sector =>
      edit inodeBuf (putU32 entry sector)
      return some (sector, true)

def writeBytes (block : BufNum) : Nat → List Byte → WnfsM Unit
  | _, [] => return ()
  | start, byte :: rest => do
    write block start byte
    writeBytes block (start + 1) rest

/-- The inode's size grows to what was written, and the inode is flushed if it changed. -/
def saveSize (inodeBuf : BufNum) (size written : Nat) (shouldFlush : Bool) :
    WnfsM (Except IOError Unit) := do
  let inode ← peek inodeBuf
  if getU32 inode size < written then
    edit inodeBuf (putU32 size written)
    flush inodeBuf
  else if shouldFlush then flush inodeBuf
  else return .ok ()

def writeToFile (buffer : List Byte) (inodeId position : Nat) : WnfsM (Except IOError Nat) :=
  withBufSector (inodeSector inodeId) (.error .deviceError) fun inodeBuf => do
    asPtr inodeBuf
    let offset := inodeSectorOffset inodeId
    if INode.numDirectBlocks < position / sectorSize then return .error .deviceError
    else
      match ← blockSector inodeBuf (offset + INode.directBlock (position / sectorSize)) with
      | none => return .error .bufferTooSmall
      | some (sector, shouldFlush) =>
        withBufSector ((sector + position % blockSize / sectorSize) % 2 ^ 32) (.error .deviceError)
          fun block => do
            let writeOffset := position % sectorSize
            let bytes := buffer.take (sectorSize - writeOffset)
            writeBytes block writeOffset bytes
            match ← flush block with
            | .error _ => return .error .deviceError
            | .ok () =>
              match ← saveSize inodeBuf (offset + INode.sizeLower32)
                  ((position + bytes.length) % 2 ^ 32) shouldFlush with
              | .error error => return .error error
              | .ok () => return .ok bytes.length

/-- The size, which is all that `file_metadata` has. -/
def vfsMetadata (fileId : Nat) : WnfsM (Except MetadataError Nat) :=
  withBufSector (inodeSector fileId) (.error .diskError) fun inodeBuf => do
    let inode ← peek inodeBuf
    return .ok (getU32 inode (inodeSectorOffset fileId + INode.sizeLower32))

end WalnutOs.Wnfs
