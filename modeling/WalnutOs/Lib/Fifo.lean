import Mathlib.Data.List.Basic

/-! The bounded first-in first-out queue, as a list with its front first. -/

namespace WalnutOs.Lib.Fifo

universe u
variable {T : Type u}

/-- Offer an element; a queue that holds `capacity` elements refuses it. -/
def offer (capacity : Nat) (element : T) (queue : List T) : List T × Bool :=
  if queue.length = capacity then (queue, false) else (queue ++ [element], true)

/-- Take the oldest element, if there is one. -/
def take (queue : List T) : List T × Option T :=
  (queue.tail, queue.head?)

theorem offer_room {capacity : Nat} {queue : List T} (room : queue.length < capacity)
    (element : T) : offer capacity element queue = (queue ++ [element], true) := by
  simp [offer, Nat.ne_of_lt room]

end WalnutOs.Lib.Fifo
