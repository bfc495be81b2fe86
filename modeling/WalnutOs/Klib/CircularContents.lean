import WalnutOs.Klib.CircularBuffer

/-! The elements of a circular buffer, and what each call makes of them, a push that finds no room
included. -/

namespace WalnutOs.Klib.CircularBuffer

universe u
variable {T : Type u} {S : Nat}

theorem slot_lt (cb : CircularBuffer T S) (offset : Nat) : (cb.readEnd + offset) % S < S + 1 :=
  Nat.lt_succ_of_lt (Nat.mod_lt _ (Nat.zero_lt_of_lt cb.read_lt))

/-- The elements in the order in which they would be popped. -/
def contents (cb : CircularBuffer T S) : List T :=
  (List.range cb.len).map fun offset => cb.buffer.get ⟨(cb.readEnd + offset) % S, cb.slot_lt offset⟩

theorem length_contents (cb : CircularBuffer T S) : cb.contents.length = cb.len := by
  rw [contents, List.length_map, List.length_range]

theorem len_lt (cb : CircularBuffer T S) : cb.len < S := by
  have read := cb.read_lt
  have write := cb.write_lt
  unfold len
  split <;> omega

theorem stores_contents (cb : CircularBuffer T S) : Stores (cb, cb.contents) where
  short := by
    rw [length_contents]
    exact cb.len_lt
  write := by
    have read := cb.read_lt
    have write := cb.write_lt
    rw [length_contents]
    dsimp only
    unfold len
    split
    · rw [Nat.add_sub_cancel' ‹_›, Nat.mod_eq_of_lt write]
    · have sum : cb.readEnd + (cb.writeEnd + (S - cb.readEnd)) = cb.writeEnd + S := by omega
      rw [sum, Nat.add_mod_right, Nat.mod_eq_of_lt write]
  slots offset stored := by
    have inside := cb.slot_lt offset
    simp only [contents, List.getElem_map, List.getElem_range]
    rw [Vector.getElem?_eq_getElem inside]
    rfl

theorem Stores.contents_eq {cb : CircularBuffer T S} {queue : List T} (stores : Stores (cb, queue)) :
    cb.contents = queue := by
  apply List.ext_getElem
  · rw [length_contents]
    exact stores.len_eq
  · intro offset _ stored
    have slot := stores.slots offset stored
    have inside := cb.slot_lt offset
    rw [Vector.getElem?_eq_getElem inside, Option.some.injEq] at slot
    simp only [contents, List.getElem_map, List.getElem_range]
    exact slot

theorem contents_fresh (positive : 0 < S) (memory : Vector T (S + 1)) :
    (fresh positive memory).contents = [] :=
  (Stores.fresh positive memory).contents_eq

theorem pop_eq (cb : CircularBuffer T S) :
    cb.pop.1.contents = cb.contents.tail ∧ cb.pop.2 = cb.contents.head? := by
  have stores := cb.stores_contents
  cases queue : cb.contents with
  | nil =>
    have nothing := stores.empty_iff.mpr queue
    rw [pop, if_pos nothing]
    exact ⟨queue, rfl⟩
  | cons element rest =>
    obtain ⟨popped, answer⟩ := stores.popUnchecked queue
    have something : ¬cb.empty = true := fun nothing =>
      List.cons_ne_nil element rest (queue.symm.trans (stores.empty_iff.mp nothing))
    rw [pop, if_neg something]
    exact ⟨popped.contents_eq, congrArg some answer⟩

theorem contents_push_room {cb : CircularBuffer T S} (room : cb.contents.length + 1 < S) (element : T) :
    (cb.push element).1.contents = cb.contents ++ [element] := by
  have stores := cb.stores_contents
  rw [push, stores.not_full room]
  exact (stores.pushUnchecked room element).contents_eq

/-- Where the write index stands when `S - 1` elements are stored. -/
theorem crowded_write {cb : CircularBuffer T S} (crowded : ¬cb.contents.length + 1 < S) :
    if cb.readEnd = 0 then cb.writeEnd + 1 = S else cb.readEnd = cb.writeEnd + 1 := by
  have stores := cb.stores_contents
  have short := stores.short
  have write := stores.write
  have read := cb.read_lt
  dsimp only at short write
  split
  · rename_i first
    rw [first, Nat.zero_add, Nat.mod_eq_of_lt short] at write
    omega
  · rw [Nat.mod_eq_sub_mod (by omega), Nat.mod_eq_of_lt (by omega)] at write
    omega

/-- A push onto `S - 1` elements is refused, unless the oldest of them is in the first slot: then all
of them are lost, and the new one as well. -/
theorem contents_push_crowded {cb : CircularBuffer T S} (crowded : ¬cb.contents.length + 1 < S)
    (element : T) : (cb.push element).1.contents = if cb.readEnd = 0 then [] else cb.contents := by
  have place := crowded_write crowded
  split at place
  · rename_i first
    have passed : cb.full = false := by
      rw [full, beq_eq_false_iff_ne]
      omega
    have met : (cb.push element).1.len = 0 := by
      rw [push, passed]
      simp only [Bool.false_eq_true, if_false, len, pushUnchecked, first, place, Nat.mod_self,
        Nat.le_refl, if_true, Nat.sub_self]
    rw [if_pos first, ← List.length_eq_zero_iff, length_contents, met]
  · rename_i later
    have refused : cb.full = true := beq_iff_eq.mpr place
    rw [if_neg later, push, if_pos refused]

/-- Whether there is room or not, no element is made up, doubled or overtaken. -/
theorem contents_push_sublist (cb : CircularBuffer T S) (element : T) :
    (cb.push element).1.contents.Sublist (cb.contents ++ [element]) := by
  by_cases room : cb.contents.length + 1 < S
  · rw [contents_push_room room]
  · rw [contents_push_crowded room]
    split
    · exact List.nil_sublist _
    · exact List.sublist_append_left _ _

/-- Nothing is lost exactly if there is room. -/
theorem length_contents_push_iff (cb : CircularBuffer T S) (element : T) :
    (cb.push element).1.contents.length = cb.contents.length + 1 ↔ cb.contents.length + 1 < S := by
  constructor
  · intro kept
    by_contra crowded
    rw [contents_push_crowded crowded] at kept
    split at kept
    · cases kept
    · omega
  · intro room
    rw [contents_push_room room, List.length_append, List.length_singleton]

end WalnutOs.Klib.CircularBuffer
