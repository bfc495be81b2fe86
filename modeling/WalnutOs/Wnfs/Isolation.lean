import WalnutOs.Wnfs.INodes

/-! Files do not disturb each other as long as no two of them are given the same
sectors. -/

namespace WalnutOs.Wnfs

open WalnutOs.Klib WalnutOs.Lib

namespace Contents

variable {contents : Contents} {files : List Nat} {used : Bool} {id other position read : Nat}

/-- The byte at a position of a file, where its blocks are there. -/
def byteAt (contents : Contents) (id position : Nat) : Option Byte :=
  if contents.block id (position / sectorSize) = 0 then none
  else some (contents (sectorAt (contents.block id (position / sectorSize)) position)
    (sectorOffset position))

/-- A file has the same size and the same bytes. -/
def SameFile (before after : Contents) (id : Nat) : Prop :=
  after.fileSize id = before.fileSize id ∧
    ∀ position < INode.numDirectBlocks * sectorSize, after.byteAt id position = before.byteAt id position

/-- Only the first allocation on the disk gives a block of its own; all later
ones give one and the same block, in which a sector can still be free. -/
structure Separate (contents : Contents) (files : List Nat) (used : Bool) : Prop where
  bitmap : contents blockGroupSector = blockBitmap used
  valid : ∀ id ∈ files, id < numINodes
  blocks : ∀ id ∈ files, ∀ idx < INode.numDirectBlocks, contents.block id idx = 0 ∨
    used = true ∧ (contents.block id idx = allocation false ∨ contents.block id idx = allocation true)
  first : ∀ id ∈ files, ∀ other ∈ files, ∀ idx < INode.numDirectBlocks, ∀ read < INode.numDirectBlocks,
    contents.block id idx = allocation false → contents.block other read = allocation false → id = other
  later : ∀ id ∈ files, ∀ other ∈ files, ∀ idx < INode.numDirectBlocks, ∀ read < INode.numDirectBlocks,
    contents.block id idx = allocation true → contents.block other read = allocation true →
      idx % 2 = read % 2 → id = other

/-- A write that needs a block is the first to, or none of the other files has a
block of a later allocation at an index of the same parity. -/
def Unshared (contents : Contents) (files : List Nat) (id position : Nat) : Prop :=
  contents.block id (position / sectorSize) = 0 →
    contents blockGroupSector 0 = 0 ∨
      ∀ other ∈ files, other ≠ id → ∀ read < INode.numDirectBlocks,
        read % 2 = position / sectorSize % 2 → contents.block other read ≠ blockStartSector + 2

instance : Decidable (contents.Unshared files id position) := by
  unfold Unshared
  infer_instance

theorem allocation_false : allocation false = 2132 := rfl

theorem allocation_true : allocation true = 2134 := rfl

section Created

variable {name : List Byte} {i : Fin 512} {j : Fin 8}

/-- A new file comes without blocks. -/
theorem block_created_cases {idx : Nat} (few : idx < INode.numDirectBlocks)
    (member : id ∈ (i.val * 8 + j.val) :: files) :
    (created name i j contents).block id idx = 0 ∨
      id ∈ files ∧ (created name i j contents).block id idx = contents.block id idx := by
  rw [block_created few]
  rcases List.mem_cons.mp member with rfl | old
  · simp
  · split
    · exact .inl rfl
    · exact .inr ⟨old, rfl⟩

/-- A new file shares no block. -/
theorem Separate.created (separate : contents.Separate files used) :
    (created name i j contents).Separate ((i.val * 8 + j.val) :: files) used := by
  have some_old : ∀ id ∈ (i.val * 8 + j.val) :: files, ∀ idx < INode.numDirectBlocks, ∀ used,
      (Contents.created name i j contents).block id idx = allocation used →
        id ∈ files ∧ contents.block id idx = allocation used := by
    intro id member idx few used there
    rcases block_created_cases few member with none | ⟨old, same⟩
    · exact absurd (there.symm.trans none) (allocation_ne_zero used)
    · exact ⟨old, same ▸ there⟩
  refine ⟨?_, ?_, ?_, ?_, ?_⟩
  · rw [Contents.created, Function.update_of_ne (by decide),
      Function.update_of_ne (blockGroupSector_lt _).ne]
    exact separate.bitmap
  · intro id member
    rcases List.mem_cons.mp member with rfl | old
    · unfold numINodes
      omega
    · exact separate.valid id old
  · intro id member idx few
    rcases block_created_cases few member with none | ⟨old, same⟩
    · exact .inl none
    · rw [same]
      exact separate.blocks id old idx few
  · intro id member other member' idx few read few' there there'
    obtain ⟨old, before⟩ := some_old id member idx few _ there
    obtain ⟨old', before'⟩ := some_old other member' read few' _ there'
    exact separate.first id old other old' idx few read few' before before'
  · intro id member other member' idx few read few' there there' parity
    obtain ⟨old, before⟩ := some_old id member idx few _ there
    obtain ⟨old', before'⟩ := some_old other member' read few' _ there'
    exact separate.later id old other old' idx few read few' before before' parity

end Created

section Written

variable {buffer : List Byte}

theorem Separate.direct (separate : contents.Separate files used) (member : id ∈ files)
    (inside : position < INode.numDirectBlocks * sectorSize) : contents.Direct id position where
  valid := separate.valid id member
  inside := inside
  placed := by
    have few : position / sectorSize < INode.numDirectBlocks :=
      Nat.div_lt_of_lt_mul (by simpa only [Nat.mul_comm] using inside)
    rcases separate.blocks id member _ few with none | ⟨-, first | later⟩
    · exact .inl none
    · rw [first]
      exact .inr ⟨by decide, by decide⟩
    · rw [later]
      exact .inr ⟨by decide, by decide⟩

/-- With nothing allocated no file has a block. -/
theorem Separate.block_of_unused (separate : contents.Separate files false) (member : id ∈ files)
    {idx : Nat} (few : idx < INode.numDirectBlocks) : contents.block id idx = 0 :=
  (separate.blocks id member idx few).resolve_right fun ⟨used, _⟩ => Bool.false_ne_true used

theorem Unshared.later (unshared : contents.Unshared files id position)
    (bitmap : contents blockGroupSector = blockBitmap true)
    (missing : contents.block id (position / sectorSize) = 0) (member : other ∈ files)
    (few : read < INode.numDirectBlocks) (parity : read % 2 = position / sectorSize % 2)
    (there : contents.block other read = allocation true) : other = id := by
  by_contra different
  rcases unshared missing with empty | none
  · rw [bitmap] at empty
    cases empty
  · exact none other member different read few parity there

/-- An allocated block is none that another file has at an index of that parity. -/
theorem Separate.written (buffer : List Byte) (separate : contents.Separate files used) (member : id ∈ files)
    (inside : position < INode.numDirectBlocks * sectorSize)
    (unshared : contents.Unshared files id position) :
    (written buffer id position used contents).Separate files
      (used || decide (contents.block id (position / sectorSize) = 0)) := by
  have direct := separate.direct member inside
  have change : ∀ file ∈ files, ∀ idx < INode.numDirectBlocks,
      (Contents.written buffer id position used contents).block file idx = contents.block file idx ∨
      (file = id ∧ idx = position / sectorSize ∧ contents.block id (position / sectorSize) = 0) ∧
        (Contents.written buffer id position used contents).block file idx = allocation used := by
    intro file there idx few
    rw [block_written direct (separate.valid file there) few]
    split
    · rename_i new
      exact .inr ⟨new, rfl⟩
    · exact .inl rfl
  refine ⟨written_blockGroup direct separate.bitmap, separate.valid, ?_, ?_, ?_⟩
  · intro file there idx few
    rcases change file there idx few with old | ⟨⟨-, -, missing⟩, new⟩
    · rw [old]
      refine (separate.blocks file there idx few).imp_right fun ⟨used, block⟩ => ⟨?_, block⟩
      rw [used, Bool.true_or]
    · rw [new, decide_eq_true missing, Bool.or_true]
      refine .inr ⟨rfl, ?_⟩
      cases used
      · exact .inl rfl
      · exact .inr rfl
  · intro file there file' there' idx few idx' few' block block'
    rcases change file there idx few with old | ⟨⟨rfl, -, missing⟩, new⟩ <;>
      rcases change file' there' idx' few' with old' | ⟨⟨rfl, -, missing'⟩, new'⟩
    · exact separate.first file there file' there' idx few idx' few' (old ▸ block) (old' ▸ block')
    · cases used with
      | false => cases (separate.block_of_unused there few).symm.trans (old ▸ block)
      | true => cases new'.symm.trans block'
    · cases used with
      | false => cases (separate.block_of_unused there' few').symm.trans (old' ▸ block')
      | true => cases new.symm.trans block
    · rfl
  · intro file there file' there' idx few idx' few' block block' parity
    rcases change file there idx few with old | ⟨⟨rfl, rfl, missing⟩, new⟩ <;>
      rcases change file' there' idx' few' with old' | ⟨⟨rfl, rfl, missing'⟩, new'⟩
    · exact separate.later file there file' there' idx few idx' few' (old ▸ block) (old' ▸ block') parity
    · cases used with
      | false => cases new'.symm.trans block'
      | true => exact unshared.later separate.bitmap missing' there few parity (old ▸ block)
    · cases used with
      | false => cases new.symm.trans block
      | true => exact (unshared.later separate.bitmap missing there' few' parity.symm (old' ▸ block')).symm
    · rfl

/-- Files that are separate have no sector in common. -/
theorem Separate.sectorAt_ne (read position : Nat) (separate : contents.Separate files used)
    (member : id ∈ files)
    (there : other ∈ files) (different : other ≠ id) {idx : Nat} (few : idx < INode.numDirectBlocks)
    (few' : read / sectorSize < INode.numDirectBlocks) (here : position / sectorSize = idx)
    (block : contents.block id idx ≠ 0) (block' : contents.block other (read / sectorSize) ≠ 0) :
    sectorAt (contents.block other (read / sectorSize)) read ≠
      sectorAt (contents.block id idx) position := by
  intro same
  have blocks := (separate.blocks id member idx few).resolve_left block
  have blocks' := (separate.blocks other there _ few').resolve_left block'
  have first := separate.first other there id member _ few' idx few
  have later := separate.later other there id member _ few' idx few
  subst here
  rw [allocation_false, allocation_true] at *
  unfold sectorAt blockSize sectorSize at *
  rcases blocks.2 with low | high <;> rcases blocks'.2 with low' | high'
  · exact different (first low' low)
  · omega
  · omega
  · exact different (later high' high (by omega))

/-- A write to one file leaves the others as they are. -/
theorem Separate.sameFile (buffer : List Byte) (separate : contents.Separate files used) (member : id ∈ files)
    (inside : position < INode.numDirectBlocks * sectorSize)
    (unshared : contents.Unshared files id position) (there : other ∈ files) (different : other ≠ id) :
    SameFile contents (Contents.written buffer id position used contents) other := by
  have direct := separate.direct member inside
  have after := separate.written buffer member inside unshared
  have valid := separate.valid other there
  refine ⟨by rw [fileSize_written direct valid, if_neg different], fun read within => ?_⟩
  have few : read / sectorSize < INode.numDirectBlocks :=
    (separate.direct there within).few
  have kept : (Contents.written buffer id position used contents).block other (read / sectorSize) =
      contents.block other (read / sectorSize) := by
    rw [block_written direct valid few, if_neg fun all => different all.1]
  rw [byteAt, byteAt, kept]
  split
  · rfl
  · rename_i block
    have data : blockStartSector ≤ sectorAt (contents.block other (read / sectorSize)) read :=
      Nat.le_add_right_of_le (((separate.direct there within).placed.resolve_left block).1)
    have own : (Contents.written buffer id position used contents).block id (position / sectorSize) =
        if contents.block id (position / sectorSize) = 0 then allocation used
        else contents.block id (position / sectorSize) := by
      rw [block_written direct direct.valid direct.few]
      simp
    have elsewhere := after.sectorAt_ne read position member there different
      direct.few few rfl (by
        rw [own]
        split
        · exact allocation_ne_zero used
        · assumption) (by rwa [kept])
    rw [kept, own, ← direct.target_eq] at elsewhere
    rw [written_data direct data, if_neg elsewhere]

end Written

section Congruence

variable {first second : Contents} (same : ∀ sector < 2 ^ 23, first sector = second sector)

include same

theorem field_congr (place : Nat) (valid : id < numINodes) :
    first.field id place = second.field id place := by
  rw [field, field, same _ (Holds.inode_cached valid).1]

theorem byteAt_congr (direct : second.Direct id position) :
    first.byteAt id position = second.byteAt id position := by
  have block : first.block id (position / sectorSize) = second.block id (position / sectorSize) :=
    field_congr same _ direct.valid
  rw [byteAt, byteAt, block]
  split
  · rfl
  · rename_i there
    have placed := direct.placed.resolve_left there
    rw [same]
    unfold sectorAt blockSize sectorSize at *
    omega

theorem Unshared.congr (valid : ∀ id ∈ files, id < numINodes) (member : id ∈ files)
    (unshared : first.Unshared files id position) : second.Unshared files id position := by
  intro missing
  have small : blockGroupSector < 2 ^ 23 := by decide
  have block := field_congr same (INode.directBlock (position / sectorSize)) (valid id member)
  rcases unshared (block.trans missing) with empty | none
  · exact .inl (by rw [← same _ small, empty])
  · refine .inr fun other there different read few parity => ?_
    have block' := field_congr same (INode.directBlock read) (valid other there)
    exact fun shared => none other there different read few parity (block'.trans shared)

end Congruence

end Contents

inductive FileCall where
  | createFile (name : List Byte)
  | writeToFile (buffer : List Byte) (id position : Nat)

/-- The world with the numbers of the files that were created, the latest first. -/
structure FilesRun where
  world : World
  created : List Nat

namespace FilesRun

def start (memory : BufNum → Sector) (drive : Drive) : FilesRun := ⟨formatted memory drive, []⟩

def step (run : FilesRun) : FileCall → Option FilesRun
  | .createFile name =>
    match createFile name run.world with
    | .ok (.ok id, world) => some ⟨world, id :: run.created⟩
    | .ok (.error _, world) => some { run with world }
    | .error _ => none
  | .writeToFile buffer id position =>
    match writeToFile buffer id position run.world with
    | .ok (_, world) => some { run with world }
    | .error _ => none

/-- Names fit into an inode, and files that were created are written to where
they have direct blocks. -/
def Admitted (run : FilesRun) : FileCall → Prop
  | .createFile name => name.length ≤ INode.nameSize
  | .writeToFile _ id position => id ∈ run.created ∧ position < INode.numDirectBlocks * sectorSize

instance (run : FilesRun) (call : FileCall) : Decidable (run.Admitted call) := by
  cases call <;> unfold Admitted <;> infer_instance

/-- An admitted call that, if it is a write, takes no block in which another file
has the sector. -/
def Guarded (run : FilesRun) (call : FileCall) : Prop :=
  run.Admitted call ∧
    match call with
    | .createFile _ => True
    | .writeToFile _ id position => Contents.Unshared run.world.stored run.created id position

instance (run : FilesRun) (call : FileCall) : Decidable (run.Guarded call) := by
  cases call <;> unfold Guarded <;> infer_instance

def Isolated (run : FilesRun) : Prop :=
  ∃ contents used, Holds [] [] contents run.world ∧ Contents.Separate contents run.created used

theorem Isolated.start (memory : BufNum → Sector) {drive : Drive} (working : drive.Reliable) :
    Isolated (start memory drive) := by
  refine ⟨_, false, Holds.formatted memory working, (formatDisk_bitmaps working).2.1, ?_, ?_, ?_, ?_⟩
  all_goals simp [FilesRun.start]

theorem step_createFile {run : FilesRun} {name : List Byte} {id : Nat} {world : World}
    (ran : createFile name run.world = .ok (.ok id, world)) :
    run.step (.createFile name) = some ⟨world, id :: run.created⟩ := by
  rw [step, ran]

theorem step_createFile_refused {run : FilesRun} {name : List Byte} {error : FileError} {world : World}
    (ran : createFile name run.world = .ok (.error error, world)) :
    run.step (.createFile name) = some { run with world } := by
  rw [step, ran]

/-- A file is created with a number of its own, or not at all. -/
theorem Isolated.createFile {run after : FilesRun} {name : List Byte} (isolated : Isolated run)
    (taken : run.step (.createFile name) = some after) : Isolated after := by
  obtain ⟨contents, used, holds, separate⟩ := isolated
  cases clear : firstClear (contents inodeBitmapStartSector) with
  | none =>
    obtain ⟨world, ran, holds'⟩ := Holds.createFile_full name clear run.world holds
    rw [step_createFile_refused ran] at taken
    cases taken
    exact ⟨contents, used, holds', separate⟩
  | some place =>
    obtain ⟨world, ran, holds'⟩ := Holds.createFile name clear run.world holds
    rw [step_createFile ran] at taken
    cases taken
    exact ⟨_, used, holds', separate.created⟩

/-- A write always returns, and it keeps the files apart and the other files as they are. -/
theorem Isolated.writeToFile {run : FilesRun} {buffer : List Byte} {id position : Nat}
    (isolated : Isolated run) (guarded : run.Guarded (.writeToFile buffer id position)) :
    ∃ after, run.step (.writeToFile buffer id position) = some after ∧ Isolated after ∧
      ∀ other ∈ run.created, other ≠ id →
        Contents.SameFile run.world.stored after.world.stored other := by
  obtain ⟨contents, used, holds, separate⟩ := isolated
  obtain ⟨⟨member, inside⟩, unshared⟩ := guarded
  have seen := holds.stores.stored_eq
  have unshared := unshared.congr seen separate.valid member
  have direct := separate.direct member inside
  obtain ⟨world, ran, holds'⟩ :=
    Holds.writeToFile buffer direct separate.bitmap run.world holds
  have seen' := holds'.stores.stored_eq
  have separate' := separate.written buffer member inside unshared
  refine ⟨⟨world, run.created⟩, by rw [step, ran], ⟨_, _, holds', separate'⟩, ?_⟩
  intro other there different
  obtain ⟨size, bytes⟩ := separate.sameFile buffer member inside unshared there different
  have valid := separate.valid other there
  refine ⟨?_, fun read within => ?_⟩
  · exact (Contents.field_congr seen' _ valid).trans
      (size.trans (Contents.field_congr seen _ valid).symm)
  · rw [Contents.byteAt_congr seen' (separate'.direct there within), bytes read within,
      Contents.byteAt_congr seen (separate.direct there within)]

theorem Isolated.of_reach {memory : BufNum → Sector} {drive : Drive} {run : FilesRun}
    (working : drive.Reliable) (reached : Reach step Guarded (FilesRun.start memory drive) run) :
    Isolated run := by
  refine reached.invariant (.start memory working) fun state call after isolated guarded taken => ?_
  cases call with
  | createFile name => exact isolated.createFile taken
  | writeToFile buffer id position =>
    obtain ⟨after', taken', isolated', -⟩ := isolated.writeToFile guarded
    cases taken.symm.trans taken'
    exact isolated'

/-- Along every run in which no block is shared, a write to one file leaves the
size and the bytes of all others as they are. -/
theorem write_isolated {memory : BufNum → Sector} {drive : Drive} {run : FilesRun}
    {buffer : List Byte} {id position : Nat} (working : drive.Reliable)
    (reached : Reach step Guarded (start memory drive) run)
    (guarded : run.Guarded (.writeToFile buffer id position)) :
    ∃ after, run.step (.writeToFile buffer id position) = some after ∧
      ∀ other ∈ run.created, other ≠ id →
        Contents.SameFile run.world.stored after.world.stored other := by
  obtain ⟨after, taken, -, others⟩ := (Isolated.of_reach working reached).writeToFile guarded
  exact ⟨after, taken, others⟩

/-- Two files are written to; the second is given the block of all later allocations. -/
theorem write_isolated_two : ∃ run after, follow step Guarded (start (fun _ _ => 0) .blank)
      [.createFile [], .createFile [], .writeToFile [1] 0 0] = some run ∧
    run.step (.writeToFile [2] 1 0) = some after ∧
      ∀ other ∈ run.created, other ≠ 1 →
        Contents.SameFile run.world.stored after.world.stored other := by
  have done : (follow step Guarded (start (fun _ _ => 0) .blank) [.createFile [], .createFile [],
      .writeToFile [1] 0 0]).any (fun run => run.Guarded (.writeToFile [2] 1 0)) = true := by
    decide +kernel
  obtain ⟨run, taken, guarded⟩ := (Option.any_eq_true _ _).mp done
  obtain ⟨after, wrote, others⟩ :=
    write_isolated (fun _ => rfl) (.of_follow .start taken) (of_decide_eq_true guarded)
  exact ⟨run, after, taken, wrote, others⟩

/-- The third file is given the block of the second. -/
theorem third_file_overwrites : ¬ ∀ memory drive run, drive.Reliable →
    Reach step Admitted (start memory drive) run → ∀ buffer id position after,
      run.Admitted (.writeToFile buffer id position) →
      run.step (.writeToFile buffer id position) = some after →
      ∀ other ∈ run.created, other ≠ id →
        Contents.SameFile run.world.stored after.world.stored other := by
  intro claim
  have clash : (follow step Admitted (start (fun _ _ => 0) .blank) [.createFile [], .createFile [],
      .createFile [], .writeToFile [1] 0 0, .writeToFile [2] 1 0]).any (fun run =>
        (run.step (.writeToFile [3] 2 0)).any fun after =>
          run.Admitted (.writeToFile [3] 2 0) ∧ 1 ∈ run.created ∧
            Contents.byteAt after.world.stored 1 0 ≠ Contents.byteAt run.world.stored 1 0) = true := by
    decide +kernel
  obtain ⟨run, taken, clash⟩ := (Option.any_eq_true _ _).mp clash
  obtain ⟨after, wrote, clash⟩ := (Option.any_eq_true _ _).mp clash
  obtain ⟨admitted, member, changed⟩ := of_decide_eq_true clash
  exact changed ((claim _ _ run (fun _ => rfl) (.of_follow .start taken) _ _ _ after admitted wrote 1
    member (by decide)).2 0 (by decide))

end FilesRun

end WalnutOs.Wnfs
