import WalnutOs.Wnfs.FileSystem

/-! The file handles of `kernel/vfs`, a file of WNFS with a position in it. -/

namespace WalnutOs.Vfs

open WalnutOs.Klib WalnutOs.Wnfs

inductive FileError where
  | fsError
  | bitmapFull
  deriving DecidableEq

inductive WriteError where
  | diskError
  | fsError
  | fileTooBig
  | outOfContiguousSpace
  deriving DecidableEq

inductive SeekError where
  | pastEndOfFile
  | internalError
  deriving DecidableEq

/-- The one disk is part of the world, so a handle does not name its drive. -/
structure FileHandle where
  fileId : Nat
  position : Nat
  size : Nat
  sector : Nat

namespace FileHandle

def create (name : List Byte) : WnfsM (Except FileError FileHandle) := do
  match ← createFile name with
  | .error _ => return .error .fsError
  | .ok fileId => return .ok ⟨fileId, 0, 0, inodeSector fileId⟩

/-- `FileHandle::open`. No file id is refused. -/
def openFile (fileId : Nat) : WnfsM (Except FileError FileHandle) :=
  WnfsM.withBufSector (inodeSector fileId) (.error .fsError) fun inodeBuf => do
    let inode ← WnfsM.peek inodeBuf
    let size := getU32 inode (inodeSectorOffset fileId + INode.sizeLower32)
    return .ok ⟨fileId, 0, size, inodeSector fileId⟩

def advance (handle : FileHandle) (count : Nat) : FileHandle :=
  { handle with position := (handle.position + count) % 2 ^ 32 }

def write (buffer : List Byte) (handle : FileHandle) : WnfsM (Except WriteError Nat × FileHandle) := do
  match ← writeToFile buffer handle.fileId handle.position with
  | .ok written => return (.ok written, handle.advance written)
  | .error _ => return (.error .fsError, handle)

/-- As for `readFromFile`, the result is the bytes that are stored in a buffer of `len` bytes. -/
def read (len : Nat) (handle : FileHandle) : WnfsM (Except ReadError (List Byte) × FileHandle) := do
  match ← readFromFile len handle.fileId handle.position with
  | .ok bytes => return (.ok bytes, handle.advance bytes.length)
  | .error error => return (.error error, handle)

def seek (position : Nat) (handle : FileHandle) : WnfsM (Except SeekError Unit × FileHandle) := do
  match ← vfsMetadata handle.fileId with
  | .error _ => return (.error .internalError, handle)
  | .ok size =>
    if position < size then return (.ok (), { handle with position })
    else return (.error .pastEndOfFile, { handle with position := size })

end FileHandle

end WalnutOs.Vfs
