import WalnutOs.Lib.Chain
import WalnutOs.Lib.Run

/-! The intrusive list, `klib/intrusive_list.hh`. Elements are known by their
addresses, and the links are members of the elements. -/

namespace WalnutOs.Klib

open WalnutOs.Lib

universe u
variable {T : Type u}

/-- `list_links`. -/
structure ListLinks (T : Type u) where
  next : Option T
  prev : Option T

/-- A list with the links of all elements there are, on the list or not. -/
structure IntrusiveList (T : Type u) where
  head : Option T
  tail : Option T
  links : T → ListLinks T

namespace IntrusiveList

/-- An initially empty list, over elements with any links. -/
def constructed (links : T → ListLinks T) : IntrusiveList T := ⟨none, none, links⟩

def next (list : IntrusiveList T) (element : T) : Option T := (list.links element).next

def prev (list : IntrusiveList T) (element : T) : Option T := (list.links element).prev

section Operations

variable [DecidableEq T]

/-- The old head's `prev` stays as it is. -/
def pushFront (list : IntrusiveList T) (element : T) : IntrusiveList T where
  head := some element
  tail := if list.tail.isNone then some element else list.tail
  links := Function.update list.links element ⟨list.head, none⟩

/-- The old tail's `next` stays as it is. -/
def pushBack (list : IntrusiveList T) (element : T) : IntrusiveList T where
  head := if list.head.isNone then some element else list.head
  tail := some element
  links := Function.update list.links element ⟨none, list.tail⟩

/-- `tail == old_head` compares the addresses of the two elements. -/
def popFront (list : IntrusiveList T) : IntrusiveList T × Option T :=
  match list.head with
  | none => (list, none)
  | some oldHead =>
    (⟨list.next oldHead, if list.tail = some oldHead then none else list.tail, list.links⟩,
      some oldHead)

def popBack (list : IntrusiveList T) : IntrusiveList T × Option T :=
  match list.tail with
  | none => (list, none)
  | some oldTail =>
    (⟨if list.head = some oldTail then none else list.head, list.prev oldTail, list.links⟩,
      some oldTail)

end Operations

/-- One call on a list. -/
inductive Call (T : Type u) where
  | pushFront (element : T)
  | pushBack (element : T)
  | popFront
  | popBack

/-- A list next to the deque that it is meant to be, the front first. -/
abbrev Paired (T : Type u) := IntrusiveList T × List T

/-- Walking `next` from the head and `prev` from the tail visits the elements of
the deque in the two opposite orders. -/
def Linked (paired : Paired T) : Prop :=
  Lib.IsChain paired.1.next paired.1.head paired.2 ∧
    Lib.IsChain paired.1.prev paired.1.tail paired.2.reverse

/-- An element is pushed only while it is not on the list. -/
def Admitted (paired : Paired T) : Call T → Prop
  | .pushFront element | .pushBack element => element ∉ paired.2
  | .popFront | .popBack => True

/-- A push is onto an empty list. -/
def OntoEmpty (paired : Paired T) : Call T → Prop
  | .pushFront _ | .pushBack _ => paired.2 = []
  | .popFront | .popBack => True

/-- The list conforms and has at most one element. -/
structure Single (paired : Paired T) : Prop where
  linked : Linked paired
  short : paired.2.length ≤ 1

theorem Single.constructed (links : T → ListLinks T) : Single (constructed links, []) where
  linked := ⟨rfl, rfl⟩
  short := Nat.zero_le _

theorem Single.cases {paired : Paired T} (single : Single paired) :
    paired.2 = [] ∧ paired.1.head = none ∧ paired.1.tail = none ∨
      ∃ element, paired.2 = [element] ∧ paired.1.head = some element ∧
        paired.1.tail = some element ∧ paired.1.next element = none ∧
        paired.1.prev element = none := by
  obtain ⟨⟨forward, backward⟩, short⟩ := single
  rcases deque : paired.2 with _ | ⟨element, _ | ⟨other, rest⟩⟩
  · rw [deque] at forward backward
    exact .inl ⟨rfl, forward, backward⟩
  · rw [deque] at forward backward
    exact .inr ⟨element, rfl, forward.1, backward.1, forward.2, backward.2⟩
  · simp [deque] at short

variable [DecidableEq T]

instance (paired : Paired T) (call : Call T) : Decidable (Admitted paired call) := by
  cases call <;> unfold Admitted <;> infer_instance

instance (paired : Paired T) (call : Call T) : Decidable (OntoEmpty paired call) := by
  cases call <;> unfold OntoEmpty <;> infer_instance

def pairedStep (paired : Paired T) : Call T → Paired T
  | .pushFront element => (paired.1.pushFront element, element :: paired.2)
  | .pushBack element => (paired.1.pushBack element, paired.2 ++ [element])
  | .popFront => (paired.1.popFront.1, paired.2.tail)
  | .popBack => (paired.1.popBack.1, paired.2.dropLast)

/-- A pop answers as the deque does, and the links are afterwards those of the deque. -/
def Conforms (paired : Paired T) (call : Call T) : Prop :=
  (match call with
    | .pushFront _ | .pushBack _ => True
    | .popFront => paired.1.popFront.2 = paired.2.head?
    | .popBack => paired.1.popBack.2 = paired.2.getLast?) ∧
  Linked (pairedStep paired call)

section Steps

variable {paired : Paired T}

/-- Onto a list with an element, a push leaves the old head without a `prev`. -/
theorem Single.pushFront_iff (single : Single paired) (element : T) :
    Linked (pairedStep paired (.pushFront element)) ↔ paired.2 = [] := by
  rcases single.cases with ⟨deque, head, tail⟩ | ⟨old, deque, head, tail, -, alone⟩
  · simp [Linked, pairedStep, deque, pushFront, head, tail, Lib.IsChain, next, prev]
  · refine iff_of_false ?_ (by simp [deque])
    rintro ⟨forward, backward⟩
    have stale : (paired.1.pushFront element).prev old = none := by
      by_cases same : old = element
      · simp [pushFront, prev, same]
      · simpa [pushFront, prev, same] using alone
    simp [pairedStep, deque, Lib.IsChain, stale] at backward

theorem Single.pushBack_iff (single : Single paired) (element : T) :
    Linked (pairedStep paired (.pushBack element)) ↔ paired.2 = [] := by
  rcases single.cases with ⟨deque, head, tail⟩ | ⟨old, deque, head, tail, alone, -⟩
  · simp [Linked, pairedStep, deque, pushBack, head, tail, Lib.IsChain, next, prev]
  · refine iff_of_false ?_ (by simp [deque])
    rintro ⟨forward, backward⟩
    have stale : (paired.1.pushBack element).next old = none := by
      by_cases same : old = element
      · simp [pushBack, next, same]
      · simpa [pushBack, next, same] using alone
    simp [pairedStep, deque, Lib.IsChain, stale] at forward

theorem Single.popFront (single : Single paired) :
    Conforms paired .popFront ∧ (pairedStep paired .popFront).2 = [] := by
  rcases single.cases with ⟨deque, head, tail⟩ | ⟨old, deque, head, tail, alone, -⟩
  · simp [Conforms, Linked, pairedStep, deque, IntrusiveList.popFront, head, tail, Lib.IsChain]
  · simp [Conforms, Linked, pairedStep, deque, IntrusiveList.popFront, head, tail, alone, Lib.IsChain]

theorem Single.popBack (single : Single paired) :
    Conforms paired .popBack ∧ (pairedStep paired .popBack).2 = [] := by
  rcases single.cases with ⟨deque, head, tail⟩ | ⟨old, deque, head, tail, -, alone⟩
  · simp [Conforms, Linked, pairedStep, deque, IntrusiveList.popBack, head, tail, Lib.IsChain]
  · simp [Conforms, Linked, pairedStep, deque, IntrusiveList.popBack, head, tail, alone, Lib.IsChain]

theorem Single.conforms_iff (single : Single paired) (call : Call T) :
    Conforms paired call ↔ OntoEmpty paired call := by
  cases call with
  | pushFront element =>
    rw [Conforms, OntoEmpty, single.pushFront_iff element, true_and]
  | pushBack element =>
    rw [Conforms, OntoEmpty, single.pushBack_iff element, true_and]
  | popFront => exact iff_of_true single.popFront.1 trivial
  | popBack => exact iff_of_true single.popBack.1 trivial

theorem Single.step (single : Single paired) {call : Call T} (empty : OntoEmpty paired call) :
    Single (pairedStep paired call) where
  linked := ((single.conforms_iff call).mpr empty).2
  short := by
    cases call with
    | pushFront element =>
      have deque : paired.2 = [] := empty
      simp [pairedStep, deque]
    | pushBack element =>
      have deque : paired.2 = [] := empty
      simp [pairedStep, deque]
    | popFront => simp [single.popFront.2]
    | popBack => simp [single.popBack.2]

end Steps

/-- Every call of the sequence, from an empty list on, is answered as the deque
answers it and leaves the links of the deque. -/
def IsDeque (links : T → ListLinks T) (calls : List (Call T)) : Prop :=
  EveryStep pairedStep Conforms (constructed links, []) calls

/-- The list is a deque on exactly the sequences that never push onto a list
which is not empty. -/
theorem isDeque_iff (links : T → ListLinks T) (calls : List (Call T)) :
    IsDeque links calls ↔ EveryStep pairedStep OntoEmpty (constructed links, []) calls :=
  EveryStep.iff_of_invariant Single
    (fun _ _ single empty => single.step empty)
    (fun _ call single => single.conforms_iff call)
    (.constructed links) calls

/-- The second of two elements pushed at the back is never reached from the front. -/
theorem second_pop_is_none : ¬ ∀ (links : Nat → ListLinks Nat) (calls : List (Call Nat)),
    EveryStep pairedStep Admitted (constructed links, []) calls → IsDeque links calls := by
  intro claim
  obtain ⟨-, -, -, ⟨answer, -⟩, -⟩ := claim (fun _ => ⟨none, none⟩)
    [.pushBack 1, .pushBack 2, .popFront, .popFront] (by decide)
  revert answer
  decide

end IntrusiveList

end WalnutOs.Klib
