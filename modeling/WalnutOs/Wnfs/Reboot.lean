import WalnutOs.Wnfs.Isolation

/-! The machine is switched off and on again between calls: the cache begins anew, over the same
disk. -/

namespace WalnutOs.Wnfs

open WalnutOs.Klib WalnutOs.Lib

namespace Contents

variable {contents : Contents} {files : List Nat} {used : Bool} {id position : Nat}

/-- The files have the blocks that allocations give, and sizes that these have room for. -/
structure Placed (contents : Contents) (files : List Nat) (used : Bool) : Prop where
  bitmap : contents blockGroupSector = blockBitmap used
  valid : ∀ id ∈ files, id < numINodes
  blocks : ∀ id ∈ files, ∀ idx < INode.numDirectBlocks, contents.block id idx = 0 ∨
    ∃ used, contents.block id idx = allocation used
  sizes : ∀ id ∈ files, contents.fileSize id ≤ INode.numDirectBlocks * sectorSize

theorem Placed.direct (placed : contents.Placed files used) (member : id ∈ files)
    (inside : position < INode.numDirectBlocks * sectorSize) : contents.Direct id position where
  valid := placed.valid id member
  inside := inside
  placed := by
    have few : position / sectorSize < INode.numDirectBlocks :=
      Nat.div_lt_of_lt_mul (by simpa only [Nat.mul_comm] using inside)
    refine (placed.blocks id member _ few).imp_right fun ⟨used, block⟩ => ?_
    rw [block]
    cases used <;> exact ⟨by decide, by decide⟩

theorem Placed.created (placed : contents.Placed files used) (name : List Byte) (i : Fin 512) (j : Fin 8) :
    (Contents.created name i j contents).Placed ((i.val * 8 + j.val) :: files) used := by
  refine ⟨?_, ?_, ?_, ?_⟩
  · rw [Contents.created, Function.update_of_ne (by decide),
      Function.update_of_ne (blockGroupSector_lt _).ne]
    exact placed.bitmap
  · intro id member
    rcases List.mem_cons.mp member with rfl | old
    · unfold numINodes
      omega
    · exact placed.valid id old
  · intro id member idx few
    rcases block_created_cases few member with none | ⟨old, same⟩
    · exact .inl none
    · rw [same]
      exact placed.blocks id old idx few
  · intro id member
    by_cases new : id = i.val * 8 + j.val
    · rw [new, fileSize, field_created_new List.mem_cons_self]
      exact Nat.zero_le _
    · rw [fileSize, field_created_old new (by decide)]
      exact placed.sizes id ((List.mem_cons.mp member).resolve_left new)

theorem Placed.written (placed : contents.Placed files used) (buffer : List Byte) (member : id ∈ files)
    (inside : position < INode.numDirectBlocks * sectorSize) :
    (Contents.written buffer id position used contents).Placed files
      (used || decide (contents.block id (position / sectorSize) = 0)) := by
  have direct := placed.direct member inside
  refine ⟨written_blockGroup direct placed.bitmap, placed.valid, fun file there idx few => ?_,
    fun file there => ?_⟩
  · rw [block_written direct (placed.valid file there) few]
    split
    · exact .inr ⟨used, rfl⟩
    · exact placed.blocks file there idx few
  · have before := placed.sizes file there
    have old := placed.sizes id member
    rw [fileSize_written direct (placed.valid file there), List.length_take]
    unfold INode.numDirectBlocks sectorSize at *
    split <;> omega

end Contents

namespace Holds

open Contents

variable {contents : Contents} {used : Bool} {files : List Nat} {id position len : Nat} {world : World}

/-- When no buffer is held, the disk has all that is stored. -/
theorem onDisk (holds : Holds [] [] contents world) {sector : Nat} (small : sector < 2 ^ 23) :
    world.drive.sectors sector = contents sector := by
  by_cases cached : ∃ bufNum, world.cache.bufSectors bufNum = sector
  · obtain ⟨bufNum, rfl⟩ := cached
    have free := (holds.stores.mask bufNum).mpr fun _ none => absurd none List.not_mem_nil
    exact holds.stores.saved bufNum (ne_noSector small) (holds.stores.unheldClean bufNum free)
  · exact holds.stores.uncached sector small (not_exists.mp cached)

/-- The cache begins anew. -/
theorem reboot (holds : Holds [] [] contents world) (memory : BufNum → Sector) :
    Holds [] [] contents ⟨.constructed memory, world.drive⟩ := by
  have fresh := Stores.start memory holds.stores.working
  refine ⟨{ fresh with buffered := ?_, saved := ?_, uncached := ?_ }, fun _ none => absurd none List.not_mem_nil, ?_⟩
  · exact fun bufNum recorded => absurd rfl recorded
  · exact fun bufNum recorded => absurd rfl recorded
  · exact fun sector small _ => holds.onDisk small
  · exact fun _ => (ne_noSector (show blockGroupSector < 2 ^ 23 by decide)).symm

/-- A place of a file that was never written to has no block. -/
theorem readFromFile_missing (valid : id < numINodes) (inFile : position < contents.fileSize id)
    (few : position / sectorSize < INode.numDirectBlocks)
    (missing : contents.block id (position / sectorSize) = 0) :
    Yields (Holds [] [] contents) (Wnfs.readFromFile len id position) (.error .badPosition)
      (Holds [] [] contents) := by
  obtain ⟨small, cached⟩ := inode_cached valid
  refine withBufSector (by simp) small cached (by simp) fun inodeBuf _ => ?_
  refine (peek ⟨inodeSector id, inodeBuf⟩ (by simp)).bind ?_
  rw [fileSize, field] at inFile
  rw [block, field] at missing
  simp only [if_neg (Nat.not_le.mpr inFile), if_neg (Nat.not_lt.mpr few.le), if_pos missing]
  exact .pure

/-- What a read within a sector answers is in the contents. -/
theorem readFromFile_known (placed : contents.Placed files used) (member : id ∈ files)
    (within : position % sectorSize + len ≤ sectorSize) : ∃ answer,
    Yields (Holds [] [] contents) (Wnfs.readFromFile len id position) answer (Holds [] [] contents) := by
  have valid := placed.valid id member
  rcases Nat.lt_or_ge position (contents.fileSize id) with inFile | past
  · have direct := placed.direct member (Nat.lt_of_lt_of_le inFile (placed.sizes id member))
    by_cases missing : contents.block id (position / sectorSize) = 0
    · exact ⟨_, readFromFile_missing valid inFile direct.few missing⟩
    · exact ⟨_, readFromFile used direct inFile missing rfl
        (Nat.le_trans (Nat.add_le_add_left (Nat.min_le_right _ _) _) within)⟩
  · exact ⟨_, readFromFile_end valid past⟩

end Holds

inductive DiskCall where
  | createFile (name : List Byte)
  | writeToFile (buffer : List Byte) (id position : Nat)
  | readFromFile (len id position : Nat)
  | vfsMetadata (id : Nat)
  | reboot (memory : BufNum → Sector)

inductive DiskAnswer where
  | created (answer : Except FileError Nat)
  | wrote (answer : Except IOError Nat)
  | read (answer : Except ReadError (List Byte))
  | size (answer : Except MetadataError Nat)

/-- The world with the numbers of the files that were created and all answers, the latest first. -/
structure DiskRun where
  world : World
  created : List Nat
  answers : List DiskAnswer

namespace DiskRun

def start (memory : BufNum → Sector) (drive : Drive) : DiskRun := ⟨formatted memory drive, [], []⟩

/-- After a call that did not fault. -/
def answered {Value : Type} (run : DiskRun) (answer : Value → DiskAnswer) (created : Value → List Nat) :
    Except Fault (Value × World) → Option DiskRun
  | .ok (value, world) => some ⟨world, created value ++ run.created, answer value :: run.answers⟩
  | .error _ => none

def newFile : Except FileError Nat → List Nat
  | .ok id => [id]
  | .error _ => []

/-- Only the disk is left after a reboot. -/
def step (run : DiskRun) : DiskCall → Option DiskRun
  | .createFile name => run.answered .created newFile (createFile name run.world)
  | .writeToFile buffer id position =>
    run.answered .wrote (fun _ => []) (writeToFile buffer id position run.world)
  | .readFromFile len id position =>
    run.answered .read (fun _ => []) (readFromFile len id position run.world)
  | .vfsMetadata id => run.answered .size (fun _ => []) (vfsMetadata id run.world)
  | .reboot memory => some { run with world := ⟨.constructed memory, run.world.drive⟩ }

def isReboot : DiskCall → Bool
  | .reboot _ => true
  | .createFile _ | .writeToFile .. | .readFromFile .. | .vfsMetadata _ => false

/-- Files that were created are written to where they have direct blocks, and read within a sector. -/
def Admitted (run : DiskRun) : DiskCall → Prop
  | .createFile _ | .reboot _ => True
  | .writeToFile _ id position => id ∈ run.created ∧ position < INode.numDirectBlocks * sectorSize
  | .readFromFile len id position => id ∈ run.created ∧ position % sectorSize + len ≤ sectorSize
  | .vfsMetadata id => id ∈ run.created

instance (run : DiskRun) (call : DiskCall) : Decidable (run.Admitted call) := by
  cases call <;> unfold Admitted <;> infer_instance

/-- Two runs with the same answers and the same stored contents. -/
structure Alike (first second : DiskRun) : Prop where
  created : first.created = second.created
  answers : first.answers = second.answers
  stored : ∃ contents used, Holds [] [] contents first.world ∧ Holds [] [] contents second.world ∧
    Contents.Placed contents first.created used

variable {first second after : DiskRun} {contents later : Contents} {used : Bool} {Value : Type}
variable {value : Value} {call : DiskCall}

/-- Both runs get the answer that the contents alone decide. -/
theorem Alike.answered {operation : WnfsM Value} (answer : Value → DiskAnswer) (new : Value → List Nat)
    (created : first.created = second.created) (answers : first.answers = second.answers)
    (holds : Holds [] [] contents first.world) (holds' : Holds [] [] contents second.world)
    (known : Yields (Holds [] [] contents) operation value (Holds [] [] later))
    (placed : later.Placed (new value ++ first.created) used) : ∃ next next',
      first.answered answer new (operation first.world) = some next ∧
      second.answered answer new (operation second.world) = some next' ∧ Alike next next' := by
  obtain ⟨world, ran, ends⟩ := known first.world holds
  obtain ⟨world', ran', ends'⟩ := known second.world holds'
  refine ⟨_, _, by rw [ran, DiskRun.answered], by rw [ran', DiskRun.answered], ?_⟩
  exact ⟨congrArg (new value ++ ·) created, congrArg (answer value :: ·) answers,
    later, used, ends, ends', placed⟩

/-- Every call but a reboot gets the same answer in both. -/
theorem Alike.step (alike : Alike first second) (admitted : first.Admitted call)
    (other : isReboot call = false) : ∃ next next', first.step call = some next ∧
      second.step call = some next' ∧ Alike next next' := by
  obtain ⟨created, answers, contents, used, holds, holds', placed⟩ := alike
  cases call with
  | createFile name =>
    cases clear : firstClear (contents inodeBitmapStartSector) with
    | none =>
      exact Alike.answered .created newFile created answers holds holds' (Holds.createFile_full name clear)
        placed
    | some place =>
      exact Alike.answered .created newFile created answers holds holds' (Holds.createFile name clear)
        (placed.created name place.1 place.2)
  | writeToFile buffer id position =>
    obtain ⟨member, inside⟩ := admitted
    exact Alike.answered .wrote _ created answers holds holds'
      (Holds.writeToFile buffer (placed.direct member inside) placed.bitmap)
      (placed.written buffer member inside)
  | readFromFile len id position =>
    obtain ⟨member, within⟩ := admitted
    obtain ⟨answer, known⟩ := Holds.readFromFile_known placed member within
    exact Alike.answered .read _ created answers holds holds' known placed
  | vfsMetadata id =>
    exact Alike.answered .size _ created answers holds holds'
      (Holds.vfsMetadata contents (placed.valid id admitted)) placed
  | reboot memory => cases other

/-- A reboot of one of them makes no difference. -/
theorem Alike.reboot (alike : Alike first second) (memory : BufNum → Sector) :
    Alike { first with world := ⟨.constructed memory, first.world.drive⟩ } second := by
  obtain ⟨created, answers, contents, used, holds, holds', placed⟩ := alike
  exact ⟨created, answers, contents, used, holds.reboot memory, holds', placed⟩

theorem Alike.run (alike : Alike first second) {calls : List DiskCall}
    (admitted : EveryTaken DiskRun.step Admitted first calls) : ∃ final final',
      calls.foldlM DiskRun.step first = some final ∧
      (calls.filter fun call => !isReboot call).foldlM DiskRun.step second = some final' ∧
      Alike final final' := by
  induction calls generalizing first second with
  | nil => exact ⟨first, second, rfl, rfl, alike⟩
  | cons call rest ih =>
    obtain ⟨now, later⟩ := admitted
    cases reboots : isReboot call with
    | true =>
      cases call with
      | reboot memory =>
        obtain ⟨final, final', ran, ran', ends⟩ := ih (alike.reboot memory) (later _ rfl)
        exact ⟨final, final', ran, ran', ends⟩
      | createFile | writeToFile | readFromFile | vfsMetadata => cases reboots
    | false =>
      obtain ⟨next, next', taken, taken', alike'⟩ := alike.step now reboots
      obtain ⟨final, final', ran, ran', ends⟩ := ih alike' (later next taken)
      refine ⟨final, final', ?_, ?_, ends⟩
      · rw [List.foldlM_cons, taken]
        exact ran
      · rw [List.filter_cons, reboots, Bool.not_false, if_pos rfl, List.foldlM_cons, taken']
        exact ran'

/-- On a formatted disk without errors, no call faults, and switching the machine off and on between
the calls is not noticed: files are created, written, measured and read with the answers that they have
when it stays on. -/
theorem reboots_unnoticed (memory : BufNum → Sector) {drive : Drive} (working : drive.Reliable)
    {calls : List DiskCall} (admitted : EveryTaken step Admitted (start memory drive) calls) :
    ∃ answers, (calls.foldlM step (start memory drive)).map DiskRun.answers = some answers ∧
      ((calls.filter fun call => !isReboot call).foldlM step (start memory drive)).map DiskRun.answers =
        some answers := by
  have holds := Holds.formatted memory working
  have placed : Contents.Placed (formatDisk drive).2.sectors [] false :=
    ⟨(formatDisk_bitmaps working).2.1, nofun, nofun, nofun⟩
  have alike : Alike (start memory drive) (start memory drive) :=
    ⟨rfl, rfl, _, _, holds, holds, placed⟩
  obtain ⟨final, final', ran, ran', ends⟩ := alike.run admitted
  exact ⟨final.answers, by rw [ran]; rfl, by rw [ran', ends.answers]; rfl⟩

/-- A byte is written, and read after the machine was off. -/
theorem reboots_unnoticed_byte : ∃ answers,
    (([.createFile [], .writeToFile [7] 0 0, .reboot fun _ _ => 1, .readFromFile 1 0 0] : List DiskCall).foldlM
        step (start (fun _ _ => 0) .blank)).map DiskRun.answers = some answers ∧
      (([.createFile [], .writeToFile [7] 0 0, .readFromFile 1 0 0] : List DiskCall).foldlM
        step (start (fun _ _ => 0) .blank)).map DiskRun.answers = some answers := by
  have admitted : EveryTaken step Admitted (start (fun _ _ => 0) .blank)
      [.createFile [], .writeToFile [7] 0 0, .reboot fun _ _ => 1, .readFromFile 1 0 0] := by
    decide +kernel
  exact reboots_unnoticed (fun _ _ => 0) (fun _ => rfl) admitted

end DiskRun

end WalnutOs.Wnfs
