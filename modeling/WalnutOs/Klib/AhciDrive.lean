import WalnutOs.Klib.AhciTransfers

/-! The controller under its driver is the drive that the callers of `AHCIState::read` and
`AHCIState::write` use, when they move one sector at a time. -/

namespace WalnutOs.Klib

open WalnutOs.Lib

def DiskTransfer.OneSector (call : DiskTransfer) : Prop := call.size = 512

def MachineEvent.OneSector : MachineEvent → Prop
  | .transfer _ call => call.OneSector
  | .store _ _ | .poll | .device _ | .interrupt _ _ => True

/-- What an event asks for. -/
def MachineEvent.actions : MachineEvent → List DiskAction
  | .transfer _ call => [.transfer call]
  | .store address value => [.store address value]
  | .poll | .device _ | .interrupt _ _ => []

/-- The controller fails a command, or it reports an error. -/
def DeviceEvent.Fails : DeviceEvent → Prop
  | .done _ => False
  | .failed _ _ _ => True

def MachineEvent.Faulty : MachineEvent → Prop
  | .device event => event.Fails
  | .interrupt reads late => reads.isError = true ∨ ∃ event ∈ late, event.Fails
  | .transfer _ _ | .store _ _ | .poll => False

/-- The memory with a sector in it. -/
def placeSector (ram : Nat → Byte) (data : Nat) (sector : Sector) : Nat → Byte := fun address =>
  if data ≤ address ∧ address < data + sectorSize then sector (sectorOffset (address - data)) else ram address

/-- An action on the drive and the memory of the callers. -/
def DiskAction.onDrive : Drive × (Nat → Byte) → DiskAction → Drive × (Nat → Byte)
  | (drive, ram), .transfer call =>
    if call.writes then
      ((drive.write (fun place => ram (call.data.toNat + place.val)) call.offset.toNat).2, ram)
    else
      match drive.read call.offset.toNat with
      | (_, sector, drive) => (drive, placeSector ram call.data.toNat sector)
  | (drive, ram), .store address value => (drive, Function.update ram address value)

/-- `read_or_write` reports no failure. -/
def TransferOutcome.onDrive : TransferOutcome → Transfer
  | .done => .done
  | .failed left _ => .failed none fun place => left place.val

section OneSector

variable {call : DiskTransfer} {drive : Drive} {outcome : TransferOutcome}

theorem DiskTransfer.OneSector.size (one : call.OneSector) : call.size.toNat = sectorSize :=
  congrArg BitVec.toNat one

theorem DiskTransfer.OneSector.admitted (one : call.OneSector) : call.Admitted := by
  rw [DiskTransfer.Admitted, one.size, show call.size = 512 from one]
  decide

theorem DiskTransfer.OneSector.count (one : call.OneSector) : call.request.count = 1 :=
  (congrArg (· / sectorSize) one.size).trans (by decide)

theorem DiskTransfer.OneSector.addresses (one : call.OneSector) :
    call.request.addresses = (List.range sectorSize).map (call.data.toNat + ·) :=
  congrArg (fun size => (List.range size).map (call.data.toNat + ·)) one.size

theorem val_sectorOffset {index : Nat} (inside : index < sectorSize) : (sectorOffset index).val = index :=
  Nat.mod_eq_of_lt inside

theorem driveByte_first (call : DiskTransfer) (sectors : Nat → Sector) (place : Fin 512) :
    call.request.driveByte sectors place.val = sectors (call.offset.toNat / sectorSize) place := by
  have inside : place.val < sectorSize := place.isLt
  rw [TransferRequest.driveByte, Nat.div_eq_of_lt inside, Nat.add_zero, Fin.ext (val_sectorOffset inside)]
  rfl

theorem fill_oneSector (one : call.OneSector) (bytes : Nat → Byte) (ram : Nat → Byte) :
    call.request.fill bytes ram = placeSector ram call.data.toNat fun place => bytes place.val := by
  have whole : (call.request.addresses.zipIdx).take (1 * sectorSize) = call.request.addresses.zipIdx := by
    rw [List.take_of_length_le]
    rw [List.length_zipIdx, one.addresses, List.length_map, List.length_range, Nat.one_mul]
  funext address
  rw [TransferRequest.fill, one.count, whole, storeAll_apply fun address => bytes (address - call.data.toNat),
    List.zipIdx_map_fst, one.addresses, placeSector]
  · have inside : address ∈ (List.range sectorSize).map (call.data.toNat + ·) ↔
        call.data.toNat ≤ address ∧ address < call.data.toNat + sectorSize := by
      rw [List.mem_map]
      constructor
      · rintro ⟨index, member, rfl⟩
        exact ⟨Nat.le_add_right .., Nat.add_lt_add_left (List.mem_range.mp member) _⟩
      · rintro ⟨low, high⟩
        exact ⟨address - call.data.toNat, List.mem_range.mpr (by omega), Nat.add_sub_cancel' low⟩
    by_cases here : call.data.toNat ≤ address ∧ address < call.data.toNat + sectorSize
    · rw [if_pos (inside.mpr here), if_pos here, val_sectorOffset (by omega)]
    · rw [if_neg fun member => here (inside.mp member), if_neg here]
  · intro entry member
    obtain ⟨short, there⟩ := List.mem_zipIdx' member
    simp only [one.addresses] at there
    rw [there]
    simp

theorem store_oneSector (one : call.OneSector) (medium : Medium) : call.request.store 1 medium =
    Function.update medium.sectors (call.offset.toNat / sectorSize)
      fun place => medium.ram (call.data.toNat + place.val) := by
  have first : call.request.lba = call.offset.toNat / sectorSize := rfl
  funext sector place
  rw [TransferRequest.store, Function.update_apply, first]
  by_cases here : sector = call.offset.toNat / sectorSize
  · rw [if_pos here, if_pos ⟨Nat.le_of_eq here.symm, Nat.lt_succ_of_le (Nat.le_of_eq here)⟩, here, Nat.sub_self,
      Nat.zero_mul, Nat.zero_add, one.addresses, List.getElem?_map, List.getElem?_range (show place.val < sectorSize from place.isLt)]
    rfl
  · rw [if_neg here, if_neg fun both => here (Nat.le_antisymm (Nat.le_of_lt_succ both.2) both.1)]

theorem store_nothing (medium : Medium) : call.request.store 0 medium = medium.sectors := by
  funext sector place
  rw [TransferRequest.store, Nat.add_zero, if_neg fun both => absurd both.2 (Nat.not_lt_of_le both.1)]

/-- A transfer of one sector is a transfer of the drive, with the same end. -/
theorem perform_oneSector (one : call.OneSector) (medium : Medium) (stored : drive.sectors = medium.sectors)
    (ends : drive.outcome = outcome.onDrive) :
    ∃ after, DiskAction.onDrive (drive, medium.ram) (.transfer call) =
        (after, (medium.perform call.request outcome).ram) ∧
      after.sectors = (medium.perform call.request outcome).sectors ∧
      after.outcomes = drive.outcomes ∧ after.transfers = drive.transfers + 1 := by
  have direction : call.request.writes = call.writes := rfl
  rw [DiskAction.onDrive]
  cases outcome with
  | done =>
    rw [Medium.perform, direction]
    cases call.writes with
    | true =>
      simp only [if_true, Drive.write, ends, TransferOutcome.onDrive]
      refine ⟨_, rfl, ?_, rfl, rfl⟩
      rw [one.count, store_oneSector one, stored]
    | false =>
      simp only [Bool.false_eq_true, if_false, Drive.read, ends, TransferOutcome.onDrive]
      refine ⟨_, congrArg _ ?_, stored, rfl, rfl⟩
      rw [fill_oneSector one, stored]
      exact congrArg (placeSector _ _) (funext fun place => (driveByte_first call medium.sectors place).symm)
  | failed left written =>
    rw [Medium.perform, direction]
    cases call.writes with
    | true =>
      simp only [if_true, Drive.write, ends, TransferOutcome.onDrive]
      refine ⟨_, rfl, ?_, rfl, rfl⟩
      rw [one.count, Nat.sub_self, Nat.min_zero, store_nothing]
      exact stored
    | false =>
      simp only [Bool.false_eq_true, if_false, Drive.read, ends, TransferOutcome.onDrive]
      refine ⟨_, congrArg _ ?_, stored, rfl, rfl⟩
      rw [fill_oneSector one]

end OneSector

namespace Performed

def OneSector : Performed → Prop
  | .transfer call _ => call.OneSector
  | .store _ _ => True

def outcome? : Performed → Option TransferOutcome
  | .transfer _ outcome => some outcome
  | .store _ _ => none

/-- What was done is what the drive does when its transfers end in the same way. -/
theorem onDrive {performed : List Performed} (sectors : ∀ entry ∈ performed, entry.OneSector) (drive : Drive)
    (ram : Nat → Byte) (ends : ∀ number outcome, (performed.filterMap outcome?)[number]? = some outcome →
      drive.outcomes (drive.transfers + number) = outcome.onDrive) :
    ((performed.map action).foldl DiskAction.onDrive (drive, ram)).1.sectors =
        (performed.foldl Medium.apply ⟨drive.sectors, ram⟩).sectors ∧
      ((performed.map action).foldl DiskAction.onDrive (drive, ram)).2 =
        (performed.foldl Medium.apply ⟨drive.sectors, ram⟩).ram := by
  induction performed generalizing drive ram with
  | nil => exact ⟨rfl, rfl⟩
  | cons entry rest ih =>
    rw [List.forall_mem_cons] at sectors
    rw [List.map_cons, List.foldl_cons, List.foldl_cons]
    cases entry with
    | store address value => exact ih sectors.2 drive _ ends
    | transfer call outcome =>
      obtain ⟨after, moved, held, same, next⟩ := perform_oneSector sectors.1 ⟨drive.sectors, ram⟩
        rfl (ends 0 outcome rfl)
      have later : ∀ number outcome, (rest.filterMap outcome?)[number]? = some outcome →
          after.outcomes (after.transfers + number) = outcome.onDrive := by
        intro number outcome there
        rw [same, next, Nat.add_right_comm]
        exact ends (number + 1) outcome there
      rw [action, moved]
      have whole := ih sectors.2 after (Medium.perform ⟨drive.sectors, ram⟩ call.request outcome).ram later
      rw [held] at whole
      exact whole

end Performed

/-- The drive and the memory after some actions, if transfers end as `outcomes` has it. -/
def Medium.driven (medium : Medium) (outcomes : Nat → Transfer) (actions : List DiskAction) : Medium :=
  match actions.foldl DiskAction.onDrive (⟨medium.sectors, outcomes, 0⟩, medium.ram) with
  | (drive, ram) => ⟨drive.sectors, ram⟩

/-- The outcomes are those of what was done, in order. -/
theorem Recorded.driven {faulty : Prop} {start medium : Medium} {history : List DiskAction}
    (recorded : Recorded faulty start medium history)
    (one : ∀ call, DiskAction.transfer call ∈ history → call.OneSector) :
    ∃ outcomes : Nat → Transfer,
      (∀ number, outcomes number = .done ∨ (∃ left, outcomes number = .failed none left) ∧ faulty) ∧
      medium = start.driven outcomes history := by
  obtain ⟨performed, right, rfl, reached⟩ := recorded
  refine ⟨fun number => (performed.filterMap Performed.outcome?)[number]?.elim .done TransferOutcome.onDrive,
    fun number => ?_, ?_⟩
  · dsimp only
    cases there : (performed.filterMap Performed.outcome?)[number]? with
    | none => exact .inl rfl
    | some outcome =>
      obtain ⟨entry, member, same⟩ := List.mem_filterMap.mp (List.mem_of_getElem? there)
      cases outcome with
      | done => exact .inl rfl
      | failed left written =>
        refine .inr ⟨⟨_, rfl⟩, ?_⟩
        cases entry with
        | store address value => cases same
        | transfer call outcome =>
          cases Option.some.inj same
          exact right _ member
  · have sectors : ∀ entry ∈ performed, entry.OneSector := by
      intro entry member
      cases entry with
      | store address value => trivial
      | transfer call outcome => exact one call (List.mem_map.mpr ⟨_, member, rfl⟩)
    obtain ⟨held, stored⟩ := Performed.onDrive sectors ⟨start.sectors,
      fun number => (performed.filterMap Performed.outcome?)[number]?.elim .done TransferOutcome.onDrive, 0⟩
      start.ram fun number outcome there => by simp only [Nat.zero_add, there, Option.elim_some]
    rw [← reached, Medium.driven]
    exact congr (congrArg Medium.mk held.symm) stored.symm

namespace AhciMachine

variable {codes : IOErrorCodes} {faulty : Prop} {start : Medium} {machine final after : AhciMachine}
variable {events : List MachineEvent}

/-- No call has been made yet. -/
structure Idle (machine : AhciMachine) : Prop where
  status : machine.call.status ≠ .polling
  free : ∀ slot, machine.call.ahci.slotStatus slot = none
  issued : machine.issued = 0
  active : machine.active = 0
  history : machine.history = []

theorem Idle.serves (idle : Idle machine) (codes : IOErrorCodes) (faulty : Prop) :
    Serves codes faulty machine.medium machine :=
  .idle idle.status idle.free ⟨idle.issued, idle.active, [], nofun, idle.history.symm, rfl⟩

theorem Serves.run (serves : Serves codes faulty start machine) (success : codes.tryAgain ≠ 0)
    (failure : codes.tryAgain ≠ codes.deviceError) (fair : ∀ event ∈ events, Fair faulty event)
    (taken : events.foldlM (AhciMachine.step codes) machine = some final) : Serves codes faulty start final := by
  induction events generalizing machine with
  | nil => exact Option.some.inj taken ▸ serves
  | cons event rest ih =>
    rw [List.forall_mem_cons] at fair
    rw [List.foldlM_cons] at taken
    obtain ⟨next, first, later⟩ := Option.bind_eq_some_iff.mp taken
    exact ih (serves.step fair.1 success failure first) fair.2 later

theorem history_react (machine : AhciMachine) (event : DeviceEvent) :
    (machine.react event).history = machine.history := by
  cases event <;> unfold react <;> dsimp only <;> split <;> rfl

theorem history_reacts (machine : AhciMachine) (late : List DeviceEvent) :
    (late.foldl react machine).history = machine.history := by
  induction late generalizing machine with
  | nil => rfl
  | cons event rest ih => exact (ih _).trans (machine.history_react event)

/-- The history is what the events ask for. -/
theorem history_step {event : MachineEvent} (taken : machine.step codes event = some after) :
    after.history = machine.history ++ event.actions := by
  cases event with
  | poll => exact Option.some.inj taken ▸ (List.append_nil _).symm
  | device event => exact Option.some.inj taken ▸ (machine.history_react event).trans (List.append_nil _).symm
  | interrupt reads late =>
    rw [step_interrupt] at taken
    cases Option.some.inj taken
    have same := history_reacts { machine with
      call := machine.call.step codes (.interrupt { reads with ncqActive := machine.active }) } late
    refine Eq.trans ?_ (same.trans (List.append_nil _).symm)
    dsimp only
    split <;> rfl
  | store address value =>
    rw [step] at taken
    split at taken
    · cases taken
    · exact Option.some.inj taken ▸ rfl
  | transfer r call =>
    rw [step] at taken
    split at taken
    · cases taken
    · obtain ⟨dma, requested, rfl⟩ := issue_eq taken
      rfl

theorem history_run (taken : events.foldlM (step codes) machine = some final) :
    final.history = machine.history ++ events.flatMap MachineEvent.actions := by
  induction events generalizing machine with
  | nil => exact Option.some.inj taken ▸ (List.append_nil _).symm
  | cons event rest ih =>
    rw [List.foldlM_cons] at taken
    obtain ⟨next, first, later⟩ := Option.bind_eq_some_iff.mp taken
    rw [ih later, history_step first, List.append_assoc, List.flatMap_cons]

/-- Once the controller is through with a command, an interrupt acknowledges it. -/
theorem Serves.acknowledged (serves : Serves codes faulty start machine) (success : codes.tryAgain ≠ 0)
    (polls : machine.call.status = .polling) (clear : machine.active = 0) (reads : InterruptReads) :
    ∃ status, status ≠ codes.tryAgain ∧ AHCIState.Finished machine.call.r status
      (machine.call.ahci.handleInterrupt codes { reads with ncqActive := machine.active }) := by
  cases serves with
  | idle status free rests => exact absurd polls status
  | answered status known polls finished sole rests => exact ⟨status, known, finished.handleInterrupt codes _⟩
  | pending waiting sole progress =>
    exact ⟨0, success.symm, waiting.pending.completes codes ((congrArg (·.getLsbD 0) clear).trans (by decide))⟩

theorem Serves.active_done (serves : Serves codes faulty start machine) (sound : ¬faulty) :
    (machine.react (.done 0)).active = 0 := by
  cases serves with
  | idle status free rests => exact (congrArg active (react_of_unissued rests.issued _)).trans rests.active
  | answered status known polls finished sole rests =>
    exact (congrArg active (react_of_unissued rests.issued _)).trans rests.active
  | pending waiting sole progress =>
    cases progress with
    | through issued active recorded =>
      rw [react_of_unissued issued]
      exact active.resolve_right fun fault => sound fault.2
    | waits call before issued active decoded history recorded =>
      have first : machine.request 0 = some call.request := by
        rw [request, issued, active, if_pos (by decide), decoded]
      rw [react, first]
      exact (congrArg (· &&& _) active).trans (by decide)

theorem call_interrupted {reads : InterruptReads} {late : List DeviceEvent}
    (taken : machine.step codes (.interrupt reads late) = some after) :
    after.call = machine.call.step codes (.interrupt { reads with ncqActive := machine.active }) := by
  rw [step_interrupt] at taken
  cases Option.some.inj taken
  exact (call_stop _ _).trans (call_reacts _ late)

/-- Without faults, a call returns once the controller is through with its command and has interrupted. -/
theorem Serves.returns (serves : Serves codes faulty start machine) (sound : ¬faulty)
    (success : codes.tryAgain ≠ 0) (polls : machine.call.status = .polling) (reads : InterruptReads) :
    ∃ after, [.device (.done 0), .interrupt reads [], .poll].foldlM (AhciMachine.step codes) machine = some after ∧
      after.call.status = .returned (.ok ()) := by
  have through := serves.device (show FairDevice faulty (.done 0) from trivial)
  have same := machine.call_react (.done 0)
  obtain ⟨status, known, finished⟩ := through.acknowledged success (same.symm ▸ polls) (serves.active_done sound) reads
  obtain ⟨next, taken⟩ : ∃ next, (machine.react (.done 0)).step codes (.interrupt reads []) = some next :=
    ⟨_, step_interrupt ..⟩
  have handled := call_interrupted taken
  refine ⟨{ next with call := next.call.step codes .poll }, ?_, ?_⟩
  · have first : machine.step codes (.device (.done 0)) = some (machine.react (.done 0)) := rfl
    simp only [List.foldlM_cons, List.foldlM_nil, first, taken, Option.bind_eq_bind, Option.bind_some]
    rfl
  · have waits : next.call.status = .polling := (congrArg ReadOrWrite.status handled).trans (same.symm ▸ polls)
    have word : next.call.ahci.words next.call.r = status := handled ▸ finished.word
    simp only [ReadOrWrite.step, waits, word, if_neg known]

/-- Where there are faults. -/
theorem fair_of_oneSector {event : MachineEvent} (member : event ∈ events) (one : event.OneSector) :
    Fair (∃ event ∈ events, event.Faulty) event := by
  cases event with
  | transfer r call => exact DiskTransfer.OneSector.admitted one
  | store address value => trivial
  | poll => trivial
  | device event =>
    cases event with
    | done slot => trivial
    | failed slot left written => exact ⟨_, member, trivial⟩
  | interrupt reads late =>
    refine ⟨fun error => ⟨_, member, .inl error⟩, fun event inside => ?_⟩
    cases event with
    | done slot => trivial
    | failed slot left written => exact ⟨_, member, .inr ⟨_, inside, trivial⟩⟩

theorem oneSector_actions (one : ∀ event ∈ events, event.OneSector) (call : DiskTransfer)
    (member : DiskAction.transfer call ∈ events.flatMap MachineEvent.actions) : call.OneSector := by
  obtain ⟨event, inside, asked⟩ := List.mem_flatMap.mp member
  cases event with
  | transfer r other =>
    cases List.mem_singleton.mp asked
    exact one _ inside
  | store address value => cases List.mem_singleton.mp asked
  | poll => cases asked
  | device event => cases asked
  | interrupt reads late => cases asked

/-- Whatever the order in which the controller completes, fails and interrupts and the driver polls, the
drive and the memory are as the callers' drive leaves them, a call that still polls being done or not. A
transfer fails only if there is a fault, and without one a call returns after its command's interrupt. -/
theorem drive_refined (success : codes.tryAgain ≠ 0) (failure : codes.tryAgain ≠ codes.deviceError)
    (idle : Idle machine) (one : ∀ event ∈ events, event.OneSector)
    (taken : events.foldlM (step codes) machine = some final) :
    (∃ outcomes : Nat → Transfer, ∃ carried : List DiskAction,
      (∀ number, outcomes number = .done ∨
        (∃ left, outcomes number = .failed none left) ∧ ∃ event ∈ events, event.Faulty) ∧
      (carried = events.flatMap MachineEvent.actions ∨
        final.call.status = .polling ∧ carried = (events.flatMap MachineEvent.actions).dropLast) ∧
      final.medium = machine.medium.driven outcomes carried) ∧
    ((¬∃ event ∈ events, event.Faulty) → final.call.status = .polling → ∀ reads,
      ∃ after, [.device (.done 0), .interrupt reads [], .poll].foldlM (step codes) final = some after ∧
        after.call.status = .returned (.ok ())) := by
  have history : final.history = events.flatMap MachineEvent.actions := by
    rw [history_run taken, idle.history, List.nil_append]
  have calls := oneSector_actions one
  have serves := (idle.serves codes (∃ event ∈ events, event.Faulty)).run success failure
    (fun event member => fair_of_oneSector member (one event member)) taken
  refine ⟨?_, fun sound polls reads => serves.returns sound success polls reads⟩
  have whole (recorded : Recorded (∃ event ∈ events, event.Faulty) machine.medium final.medium final.history) :
      ∃ outcomes : Nat → Transfer, ∃ carried : List DiskAction,
        (∀ number, outcomes number = .done ∨
          (∃ left, outcomes number = .failed none left) ∧ ∃ event ∈ events, event.Faulty) ∧
        (carried = events.flatMap MachineEvent.actions ∨
          final.call.status = .polling ∧ carried = (events.flatMap MachineEvent.actions).dropLast) ∧
        final.medium = machine.medium.driven outcomes carried := by
    rw [history] at recorded
    obtain ⟨outcomes, ends, driven⟩ := recorded.driven calls
    exact ⟨outcomes, _, ends, .inl rfl, driven⟩
  cases serves with
  | idle status free rests => exact whole rests.recorded
  | answered status known polls finished sole rests => exact whole rests.recorded
  | pending waiting sole progress =>
    cases progress with
    | through issued active recorded => exact whole recorded
    | waits call before issued active decoded asked recorded =>
      have earlier : before = (events.flatMap MachineEvent.actions).dropLast := by
        rw [← history, asked, List.dropLast_concat]
      obtain ⟨outcomes, ends, driven⟩ := recorded.driven fun call member =>
        calls call (List.dropLast_subset _ (earlier ▸ member))
      exact ⟨outcomes, before, ends, .inr ⟨waiting.status, earlier⟩, driven⟩

/-- A controller without commands, over zeroed tables. -/
def unused : AhciMachine :=
  ⟨.first, ⟨fun _ => ⟨0, 0, 0⟩, fun _ => ⟨fun _ => 0, fun _ => ⟨0, 0⟩⟩⟩, 0, 0, ⟨fun _ _ => 0, fun _ => 0⟩, []⟩

/-- A byte is written to the sixth sector; the call polls before the controller is through. -/
theorem drive_refined_write : ∃ final : AhciMachine,
    [.store 0x1000 7, .transfer 3 ⟨true, 0x1000, 512, 2560⟩, .poll, .device (.done 0),
      .interrupt ⟨8, 0, 0, 0, 0⟩ [], .poll].foldlM (step ⟨1, 2⟩) unused = some final ∧
      final.medium.sectors 5 0 = 7 := by
  have returned : ([.store 0x1000 7, .transfer 3 ⟨true, 0x1000, 512, 2560⟩, .poll, .device (.done 0),
      .interrupt ⟨8, 0, 0, 0, 0⟩ [], .poll].foldlM (step ⟨1, 2⟩) unused).map (·.call.status) =
        some (.returned (.ok ())) := by decide +kernel
  obtain ⟨final, taken, status⟩ := Option.map_eq_some_iff.mp returned
  have idle : Idle unused := ⟨nofun, fun _ => rfl, rfl, rfl, rfl⟩
  obtain ⟨⟨outcomes, carried, ends, which, driven⟩, -⟩ := drive_refined (by decide) (by decide) idle
    (by simp [MachineEvent.OneSector, DiskTransfer.OneSector]) taken
  have done : outcomes 0 = .done := (ends 0).resolve_right fun fault => by
    simp [MachineEvent.Faulty, DeviceEvent.Fails, InterruptReads.isError, InterruptReads.fatalErrorMask,
      InterruptReads.errorMask] at fault
  rcases which with rfl | ⟨polls, -⟩
  · refine ⟨final, taken, ?_⟩
    rw [driven]
    simp [Medium.driven, MachineEvent.actions, DiskAction.onDrive, Drive.write, Drive.outcome, done, sectorSize]
  · rw [status] at polls
    cases polls

end AhciMachine

end WalnutOs.Klib
