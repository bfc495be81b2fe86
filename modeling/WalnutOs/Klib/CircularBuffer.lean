import WalnutOs.Lib.Run
import WalnutOs.Lib.Fifo

/-! The circular buffer of the keyboard driver, `klib/circular_buffer.hh`. The
indices are 16-bit in the source; they stay below `S`, which is itself one, so
no sum below wraps. -/

namespace WalnutOs.Klib

open WalnutOs.Lib

universe u
variable {T : Type u} {S : Nat}

/-- The array has one slot more than the capacity; both indices are reduced
modulo `S` and so never select that slot. -/
structure CircularBuffer (T : Type u) (S : Nat) where
  buffer : Vector T (S + 1)
  readEnd : Nat
  writeEnd : Nat
  read_lt : readEnd < S
  write_lt : writeEnd < S

namespace CircularBuffer

/-- A buffer as its default constructor leaves it, over uninitialised memory. -/
def fresh (positive : 0 < S) (memory : Vector T (S + 1)) : CircularBuffer T S :=
  ⟨memory, 0, 0, positive, positive⟩

def empty (cb : CircularBuffer T S) : Bool := cb.readEnd == cb.writeEnd

def full (cb : CircularBuffer T S) : Bool := cb.readEnd == cb.writeEnd + 1

def len (cb : CircularBuffer T S) : Nat :=
  if cb.readEnd ≤ cb.writeEnd then cb.writeEnd - cb.readEnd
  else cb.writeEnd + (S - cb.readEnd)

def pushUnchecked (cb : CircularBuffer T S) (element : T) : CircularBuffer T S where
  buffer := cb.buffer.set cb.writeEnd element (Nat.lt_succ_of_lt cb.write_lt)
  readEnd := cb.readEnd
  writeEnd := (cb.writeEnd + 1) % S
  read_lt := cb.read_lt
  write_lt := Nat.mod_lt _ (Nat.zero_lt_of_lt cb.read_lt)

def popUnchecked (cb : CircularBuffer T S) : CircularBuffer T S × T :=
  ({ cb with
      readEnd := (cb.readEnd + 1) % S
      read_lt := Nat.mod_lt _ (Nat.zero_lt_of_lt cb.read_lt) },
    cb.buffer.get ⟨cb.readEnd, Nat.lt_succ_of_lt cb.read_lt⟩)

/-- The second component is `false` for `Err`. -/
def push (cb : CircularBuffer T S) (element : T) : CircularBuffer T S × Bool :=
  if cb.full then (cb, false) else (cb.pushUnchecked element, true)

def pop (cb : CircularBuffer T S) : CircularBuffer T S × Option T :=
  if cb.empty then (cb, none) else (cb.popUnchecked.1, some cb.popUnchecked.2)

def front (cb : CircularBuffer T S) : Option T :=
  if cb.empty then none else some (cb.buffer.get ⟨cb.readEnd, Nat.lt_succ_of_lt cb.read_lt⟩)

/-- One call on a buffer. -/
inductive Call (T : Type u) where
  | push (element : T)
  | pop

/-- A buffer next to the queue that it is meant to be. -/
abbrev Paired (T : Type u) (S : Nat) := CircularBuffer T S × List T

def pairedStep (paired : Paired T S) : Call T → Paired T S
  | .push element => ((paired.1.push element).1, (Fifo.offer S element paired.2).1)
  | .pop => ((paired.1.pop).1, (Fifo.take paired.2).1)

/-- The call answers as the queue does, and `len` is afterwards the queue's length. -/
def Conforms (paired : Paired T S) (call : Call T) : Prop :=
  (match call with
    | .push element => (paired.1.push element).2 = (Fifo.offer S element paired.2).2
    | .pop => (paired.1.pop).2 = (Fifo.take paired.2).2) ∧
  (pairedStep paired call).1.len = (pairedStep paired call).2.length

/-- A push has room when fewer than `S - 1` elements are stored. -/
def HasRoom (paired : Paired T S) : Call T → Prop
  | .push _ => paired.2.length + 1 < S
  | .pop => True

instance (paired : Paired T S) : (call : Call T) → Decidable (HasRoom paired call)
  | .push _ => inferInstanceAs (Decidable (paired.2.length + 1 < S))
  | .pop => .isTrue trivial

/-- The elements of the queue stand in order from the read index on, and the
write index follows the last of them modulo `S`. -/
structure Stores (paired : Paired T S) : Prop where
  short : paired.2.length < S
  write : paired.1.writeEnd = (paired.1.readEnd + paired.2.length) % S
  slots : ∀ offset, (stored : offset < paired.2.length) →
    paired.1.buffer[(paired.1.readEnd + offset) % S]? = some paired.2[offset]

private theorem wrap {index : Nat} (below : index < 2 * S) :
    index % S = if index < S then index else index - S := by
  split
  · exact Nat.mod_eq_of_lt ‹_›
  · rw [Nat.mod_eq_sub_mod (by omega), Nat.mod_eq_of_lt (by omega)]

theorem Stores.fresh (positive : 0 < S) (memory : Vector T (S + 1)) :
    Stores (CircularBuffer.fresh positive memory, []) where
  short := positive
  write := by simp [CircularBuffer.fresh]
  slots := by simp

theorem Stores.len_eq {paired : Paired T S} (stores : Stores paired) :
    paired.1.len = paired.2.length := by
  have short := stores.short
  have write := stores.write
  have read := paired.1.read_lt
  rw [wrap (by omega)] at write
  unfold len
  split at write <;> split <;> omega

theorem Stores.empty_iff {paired : Paired T S} (stores : Stores paired) :
    paired.1.empty = true ↔ paired.2 = [] := by
  have short := stores.short
  have write := stores.write
  have read := paired.1.read_lt
  rw [wrap (by omega)] at write
  rw [← List.length_eq_zero_iff]
  simp only [empty, beq_iff_eq]
  split at write <;> omega

theorem Stores.not_full {paired : Paired T S} (stores : Stores paired)
    (room : paired.2.length + 1 < S) : paired.1.full = false := by
  have write := stores.write
  have read := paired.1.read_lt
  rw [wrap (by omega)] at write
  simp only [full, beq_eq_false_iff_ne]
  split at write <;> omega

theorem Stores.pushUnchecked {paired : Paired T S} (stores : Stores paired)
    (room : paired.2.length + 1 < S) (element : T) :
    Stores (paired.1.pushUnchecked element, paired.2 ++ [element]) where
  short := by simpa using room
  write := by
    simp only [CircularBuffer.pushUnchecked, stores.write, List.length_append, List.length_singleton,
      Nat.mod_add_mod, Nat.add_assoc]
  slots := by
    intro offset stored
    have read := paired.1.read_lt
    have write := stores.write
    simp only [List.length_append, List.length_singleton] at stored
    simp only [CircularBuffer.pushUnchecked, Vector.getElem?_set]
    rcases Nat.lt_or_eq_of_le (Nat.le_of_lt_succ stored) with earlier | last
    · have apart : paired.1.writeEnd ≠ (paired.1.readEnd + offset) % S := by
        rw [write, wrap (by omega), wrap (by omega)]
        split <;> split <;> omega
      simp only [if_neg apart, List.getElem_append_left earlier]
      exact stores.slots offset earlier
    · have inside := paired.1.write_lt
      simp [last, ← write]

theorem Stores.popUnchecked {paired : Paired T S} (stores : Stores paired)
    {element : T} {rest : List T} (queue : paired.2 = element :: rest) :
    Stores (paired.1.popUnchecked.1, rest) ∧ paired.1.popUnchecked.2 = element := by
  have short := stores.short
  rw [queue, List.length_cons] at short
  have read := paired.1.read_lt
  refine ⟨⟨Nat.lt_of_succ_lt short, ?_, ?_⟩, ?_⟩
  · simp only [CircularBuffer.popUnchecked, stores.write, queue, List.length_cons, Nat.mod_add_mod]
    congr 1
    omega
  · intro offset stored
    have slot := stores.slots (offset + 1) (by simp [queue]; omega)
    simp only [CircularBuffer.popUnchecked, Nat.mod_add_mod]
    rw [Nat.add_assoc, Nat.add_comm 1 offset, slot]
    simp [queue]
  · have slot := stores.slots 0 (by simp [queue])
    have inside := Nat.lt_succ_of_lt read
    have front : paired.1.popUnchecked.2 = paired.1.buffer[paired.1.readEnd] := rfl
    simpa [front, queue, Nat.mod_eq_of_lt read, inside] using slot

/-- One call that has room keeps the representation. -/
theorem Stores.step {paired : Paired T S} (stores : Stores paired) {call : Call T}
    (room : HasRoom paired call) : Stores (pairedStep paired call) := by
  cases call with
  | push element =>
    have accepted := Fifo.offer_room (Nat.lt_of_succ_lt room) element
    simp only [pairedStep, push, stores.not_full room, accepted]
    exact stores.pushUnchecked room element
  | pop =>
    cases queue : paired.2 with
    | nil =>
      have none := stores.empty_iff.mpr queue
      obtain ⟨cb, stored⟩ := paired
      subst queue
      simpa [pairedStep, pop, none, Fifo.take] using stores
    | cons element rest =>
      have some : paired.1.empty = false := by
        rw [Bool.eq_false_iff, Ne, stores.empty_iff, queue]
        exact List.cons_ne_nil _ _
      simp only [pairedStep, pop, some, queue, Fifo.take, List.tail_cons]
      exact (stores.popUnchecked queue).1

/-- A push onto `S - 1` elements is either refused, since the read index is one
ahead, or makes the two indices meet, which reads as an empty buffer. -/
theorem Stores.conforms_iff {paired : Paired T S} (stores : Stores paired) (call : Call T) :
    Conforms paired call ↔ HasRoom paired call := by
  cases call with
  | push element =>
    have short := stores.short
    constructor
    · rintro ⟨answer, length⟩
      show paired.2.length + 1 < S
      by_contra crowded
      have write := stores.write
      have read := paired.1.read_lt
      have accepted := Fifo.offer_room short element
      simp only [accepted] at answer
      simp only [pairedStep, accepted, List.length_append, List.length_singleton] at length
      have passed : paired.1.full = false := by
        cases full : paired.1.full with
        | true => simp [push, full] at answer
        | false => rfl
      have apart : paired.1.readEnd ≠ paired.1.writeEnd + 1 := by
        simpa [full] using passed
      rw [wrap (by omega)] at write
      have last : paired.1.readEnd = 0 ∧ paired.1.writeEnd + 1 = S := by
        split at write <;> omega
      simp only [push, passed, Bool.false_eq_true, ↓reduceIte, len, CircularBuffer.pushUnchecked,
        last.1, last.2, Nat.mod_self, Nat.le_refl, Nat.sub_self] at length
      omega
    · intro room
      have accepted := Fifo.offer_room short element
      refine ⟨?_, (stores.step room).len_eq⟩
      simp [push, stores.not_full room, accepted]
  | pop =>
    refine ⟨fun _ => trivial, fun room => ⟨?_, (stores.step room).len_eq⟩⟩
    cases queue : paired.2 with
    | nil => simp [pop, stores.empty_iff.mpr queue, Fifo.take]
    | cons element rest =>
      have some : paired.1.empty = false := by
        rw [Bool.eq_false_iff, Ne, stores.empty_iff, queue]
        exact List.cons_ne_nil _ _
      simp [pop, some, Fifo.take, (stores.popUnchecked queue).2]

/-- Every call of the sequence, from a fresh buffer on, answers as the bounded
queue of capacity `S` does. -/
def IsFifo (positive : 0 < S) (memory : Vector T (S + 1)) (calls : List (Call T)) : Prop :=
  (fresh positive memory).len = 0 ∧
    EveryStep pairedStep Conforms (fresh positive memory, []) calls

/-- The buffer is a queue of capacity `S` on exactly the sequences that never
push onto `S - 1` stored elements. -/
theorem isFifo_iff (positive : 0 < S) (memory : Vector T (S + 1)) (calls : List (Call T)) :
    IsFifo positive memory calls ↔
      EveryStep pairedStep HasRoom (fresh positive memory, []) calls := by
  have runs := EveryStep.iff_of_invariant Stores
    (fun _ _ stores room => Stores.step stores room)
    (fun _ call stores => Stores.conforms_iff stores call)
    (Stores.fresh positive memory) calls
  exact ⟨fun fifo => runs.mp fifo.2, fun room => ⟨by simp [len, fresh], runs.mpr room⟩⟩

theorem isFifo_three : IsFifo (T := Nat) (S := 3) (by decide) #v[0, 0, 0, 0]
    [.push 1, .push 2, .pop, .push 3, .pop, .pop] :=
  (isFifo_iff (by decide) _ _).mpr (by decide)

/-- Two pushes fill a buffer of capacity two, and it then reports no element. -/
theorem not_isFifo_two : ¬ IsFifo (T := Nat) (S := 2) (by decide) #v[0, 0, 0] [.push 1, .push 2] := by
  rintro ⟨-, -, ⟨-, length⟩, -⟩
  revert length
  decide

end CircularBuffer

end WalnutOs.Klib
