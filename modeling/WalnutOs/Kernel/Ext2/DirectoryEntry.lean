import WalnutOs.Klib.Drive
import WalnutOs.Klib.Strings
import WalnutOs.Lib.Records

/-! The entries of a directory, `kernel/ext2/directory_entry.hh`: records with a
name at their end, chained by the size that each of them stores. -/

namespace WalnutOs.Kernel.Ext2

open WalnutOs.Klib WalnutOs.Lib

inductive TypeIndicator where
  | unknownOrCorrupt
  | regularFile
  | directory
  | characterDevice
  | blockDevice
  | fifo
  | socket
  | symbolicLink
  deriving DecidableEq

def TypeIndicator.toU8 : TypeIndicator → Byte
  | unknownOrCorrupt => 0
  | regularFile => 1
  | directory => 2
  | characterDevice => 3
  | blockDevice => 4
  | fifo => 5
  | socket => 6
  | symbolicLink => 7

/-- The size without the name, which is a flexible array. -/
def sizeofDirectoryEntry : Nat := 8

/-- What the fields of an entry hold; the name is as long as they say. -/
structure DirectoryEntry where
  inode : BitVec 32
  nameLength : Nat
  typeIndicator : Byte
  name : List Byte

namespace DirectoryEntry

variable {size : Nat}

def writeName (area : Fin size → Byte) (this : Nat) (string : Str) : Fin size → Byte :=
  (List.range string.len).foldl
    (fun area i => Window.overwrite area (this + sizeofDirectoryEntry + i) [string.string i]) area

/-- `total_size` and `name_length` are cut to 16 and 8 bits. -/
def format (area : Fin size → Byte) (this : Nat) (inodeNum : BitVec 32) (name : Str) (type : TypeIndicator) :
    Fin size → Byte :=
  let area := Window.putLE area this 4 inodeNum.toNat
  let area := Window.putLE area (this + 4) 2 (sizeofDirectoryEntry + name.len)
  let area := Window.putLE area (this + 6) 1 name.len
  let area := Window.putLE area (this + 7) 1 type.toU8.toNat
  writeName area this name

def nextEntry (area : Fin size → Byte) (this : Nat) : Nat := this + Window.getLE area (this + 4) 2

/-- The fields of the entry at a place. -/
def load (area : Fin size → Byte) (this : Nat) : DirectoryEntry where
  inode := BitVec.ofNat 32 (Window.getLE area this 4)
  nameLength := Window.getLE area (this + 6) 1
  typeIndicator := BitVec.ofNat 8 (Window.getLE area (this + 7) 1)
  name := Window.slice area (this + sizeofDirectoryEntry) (Window.getLE area (this + 6) 1)

/-- What is formatted as an entry; the length of the name fits its field. -/
structure Source where
  inodeNum : BitVec 32
  name : Str
  type : TypeIndicator
  short : name.len ≤ 255

namespace Source

/-- The entry as it should be found. -/
def entry (source : Source) : DirectoryEntry :=
  ⟨source.inodeNum, source.name.len, source.type.toU8, source.name.chars⟩

def encode (source : Source) : List Byte :=
  Window.bytesLE 4 source.inodeNum.toNat ++ Window.bytesLE 2 (sizeofDirectoryEntry + source.name.len) ++
    Window.bytesLE 1 source.name.len ++ Window.bytesLE 1 source.type.toU8.toNat ++ source.name.chars

@[simp] theorem length_encode (source : Source) :
    source.encode.length = sizeofDirectoryEntry + source.name.len := by
  simp only [encode, Str.chars, List.length_append, Window.length_bytesLE, List.length_map, List.length_range,
    sizeofDirectoryEntry]

end Source

variable {area : Fin size → Byte} {this : Nat} {source : Source}

/-- The loop over the characters lays the name over the bytes behind the fields. -/
theorem writeName_eq (area : Fin size → Byte) (this : Nat) (string : Str) :
    writeName area this string = Window.overwrite area (this + sizeofDirectoryEntry) string.chars := by
  unfold writeName Str.chars
  induction string.len with
  | zero => exact Window.overwrite_nil.symm
  | succ count ih =>
    rw [List.range_succ, List.foldl_append, ih, List.map_append, Window.overwrite_append, List.length_map,
      List.length_range]
    rfl

theorem format_eq (area : Fin size → Byte) (this : Nat) (source : Source) :
    format area this source.inodeNum source.name source.type = Window.overwrite area this source.encode := by
  rw [format, writeName_eq]
  simp only [Source.encode, Window.overwrite_append, List.length_append, Window.length_bytesLE]
  rfl

/-- The stores of the fields, before that of the name. -/
def Source.stores (this : Nat) (source : Source) : List Window.Store :=
  [⟨this, 4, source.inodeNum.toNat⟩, ⟨this + 4, 2, sizeofDirectoryEntry + source.name.len⟩,
    ⟨this + 6, 1, source.name.len⟩, ⟨this + 7, 1, source.type.toU8.toNat⟩]

theorem Source.stores_apart (this : Nat) (source : Source) :
    (source.stores this).Pairwise Window.Store.Apart := by
  simp [stores, Window.Store.Apart]

theorem Source.stores_inside (this : Nat) (source : Source) :
    ∀ store ∈ source.stores this, store.start + store.width ≤ this + sizeofDirectoryEntry := by
  simp [stores, sizeofDirectoryEntry]

/-- The name leaves the fields before it. -/
theorem getLE_format {store : Window.Store} (inside : this + sizeofDirectoryEntry ≤ size)
    (member : store ∈ source.stores this) :
    Window.getLE (format area this source.inodeNum source.name source.type) store.start store.width =
      store.value % 256 ^ store.width := by
  rw [format, writeName_eq, Window.getLE_overwrite_of_outside (.inl (source.stores_inside this store member))]
  exact Window.getLE_putAll (source.stores_apart this)
    (fun store member => Nat.le_trans (source.stores_inside this store member) inside) member

/-- An entry that is in the area leads to the place behind it and is read as it was formatted. -/
theorem format_reads (fits : this + source.encode.length ≤ size)
    (there : format area this source.inodeNum source.name source.type = area) :
    nextEntry area this = this + source.encode.length ∧ load area this = source.entry := by
  have eight : sizeofDirectoryEntry = 8 := rfl
  have short := source.short
  have bound : source.inodeNum.toNat < 256 ^ 4 := source.inodeNum.isLt
  have byte : source.type.toU8.toNat < 256 ^ 1 := source.type.toU8.isLt
  rw [Source.length_encode] at fits ⊢
  have stored {start width value : Nat} (member : ⟨start, width, value⟩ ∈ source.stores this)
      (low : value < 256 ^ width) : Window.getLE area start width = value := by
    rw [← there]
    exact (getLE_format (by omega) member).trans (Nat.mod_eq_of_lt low)
  have inode : Window.getLE area this 4 = source.inodeNum.toNat := stored (by simp [Source.stores]) bound
  have total : Window.getLE area (this + 4) 2 = sizeofDirectoryEntry + source.name.len :=
    stored (by simp [Source.stores]) (by omega)
  have length : Window.getLE area (this + 6) 1 = source.name.len :=
    stored (by simp [Source.stores]) (by omega)
  have type : Window.getLE area (this + 7) 1 = source.type.toU8.toNat :=
    stored (by simp [Source.stores]) byte
  have name : Window.slice area (this + sizeofDirectoryEntry) source.name.len = source.name.chars := by
    have chars : source.name.chars.length = source.name.len := by simp [Str.chars]
    rw [← there, format, writeName_eq, ← chars]
    exact Window.slice_overwrite (by omega)
  constructor
  · rw [nextEntry, total]
  · simp only [load, Source.entry, inode, length, type, name, BitVec.ofNat_toNat, BitVec.setWidth_eq]

/-- The entries of a directory as a format of records. -/
def records (size : Nat) : RecordFormat Byte Source DirectoryEntry size where
  encode := Source.encode
  put area this source := format area this source.inodeNum source.name source.type
  next := nextEntry
  view := load
  seen := Source.entry
  put_eq := format_eq
  reads := format_reads

/-- Entries that are formatted one behind the other in an area that is large enough are
found again in order by the walk over it, and none is changed by a later one. -/
theorem walk_formatted (area : Fin size → Byte) (start : Nat) (sources : List Source)
    (fits : start + (records size).total sources ≤ size) :
    (records size).walk ((records size).putAll area start sources) start sources.length =
        sources.map Source.entry ∧
      ∀ before after, sources = before ++ after → ∀ index : Fin size,
        index.val < start + (records size).total before →
          (records size).putAll area start sources index = (records size).putAll area start before index := by
  refine ⟨RecordFormat.walk_putAll sources fits, ?_⟩
  rintro before after rfl index earlier
  exact RecordFormat.putAll_append_of_before before after fits earlier

/-- The entries of the root directory. -/
theorem walk_formatted_root :
    let sources : List Source := [⟨2, .literal [0x2E], .directory, by decide⟩,
      ⟨2, .literal [0x2E, 0x2E], .directory, by decide⟩, ⟨11, .literal [0x61], .regularFile, by decide⟩]
    (records 64).walk ((records 64).putAll (fun _ => 0xFF) 0 sources) 0 3 = sources.map Source.entry :=
  (walk_formatted (fun _ => 0xFF) 0 _ (by decide)).1

end DirectoryEntry

end WalnutOs.Kernel.Ext2
