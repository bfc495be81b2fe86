import WalnutOs.Lib.Window

/-! Records of different lengths that are laid one after the other in an array,
each at the place that the record before it leads to. -/

namespace WalnutOs.Lib

universe u v w

/-- How records are put into an array and read from it again: what a record that is
there leads to, and what it is seen as. -/
structure RecordFormat (Cell : Type u) (Record : Type v) (View : Type w) (size : Nat) where
  encode : Record → List Cell
  put : (Fin size → Cell) → Nat → Record → Fin size → Cell
  next : (Fin size → Cell) → Nat → Nat
  view : (Fin size → Cell) → Nat → View
  seen : Record → View
  put_eq : ∀ area place record, put area place record = Window.overwrite area place (encode record)
  reads : ∀ {area place record}, place + (encode record).length ≤ size → put area place record = area →
    next area place = place + (encode record).length ∧ view area place = seen record

namespace RecordFormat

variable {Cell : Type u} {Record : Type v} {View : Type w} {size : Nat}
variable (format : RecordFormat Cell Record View size)

def putAll (area : Fin size → Cell) (place : Nat) : List Record → Fin size → Cell
  | [] => area
  | record :: rest =>
    let area := format.put area place record
    putAll area (format.next area place) rest

/-- What is seen at a place and the places that it leads to. -/
def walk (area : Fin size → Cell) (place : Nat) : Nat → List View
  | 0 => []
  | count + 1 => format.view area place :: walk area (format.next area place) count

def total : List Record → Nat
  | [] => 0
  | record :: rest => (format.encode record).length + total rest

variable {format}
variable {area : Fin size → Cell} {place : Nat} {record : Record} {records : List Record} {index : Fin size}

@[simp] theorem total_cons :
    format.total (record :: records) = (format.encode record).length + format.total records := rfl

@[simp] theorem total_append (before after : List Record) :
    format.total (before ++ after) = format.total before + format.total after := by
  induction before with
  | nil => rw [List.nil_append, total, Nat.zero_add]
  | cons record rest ih => rw [List.cons_append, total_cons, total_cons, ih, Nat.add_assoc]

/-- A record is in every array that has its cells. -/
theorem put_eq_self {other : Fin size → Cell}
    (same : ∀ index : Fin size, place ≤ index.val → index.val < place + (format.encode record).length →
      other index = format.put area place record index) : format.put other place record = other := by
  funext index
  by_cases outside : index.val < place ∨ place + (format.encode record).length ≤ index.val
  · rw [format.put_eq, Window.overwrite_of_outside outside]
  · obtain ⟨first, last⟩ := not_or.mp outside
    have offset : index.val = place + (index.val - place) := by omega
    have inside : index.val - place < (format.encode record).length := by omega
    rw [same index (Nat.le_of_not_lt first) (Nat.lt_of_not_le last), format.put_eq, format.put_eq,
      Window.overwrite_of_inside _ offset inside, Window.overwrite_of_inside _ offset inside]

theorem putAll_cons (fits : place + (format.encode record).length ≤ size) :
    format.putAll area place (record :: records) =
      format.putAll (format.put area place record) (place + (format.encode record).length) records := by
  have there : format.put (format.put area place record) place record = format.put area place record :=
    put_eq_self fun _ _ _ => rfl
  rw [putAll, (format.reads fits there).1]

/-- Only the cells of the records are changed. -/
theorem putAll_of_outside (fits : place + format.total records ≤ size)
    (outside : index.val < place ∨ place + format.total records ≤ index.val) :
    format.putAll area place records index = area index := by
  induction records generalizing area place with
  | nil => rfl
  | cons record rest ih =>
    rw [total_cons] at fits outside
    rw [putAll_cons (by omega), ih (by omega) (by omega), format.put_eq,
      Window.overwrite_of_outside (by omega)]

theorem putAll_append (before after : List Record) (fits : place + format.total before ≤ size) :
    format.putAll area place (before ++ after) =
      format.putAll (format.putAll area place before) (place + format.total before) after := by
  induction before generalizing area place with
  | nil => rfl
  | cons record rest ih =>
    rw [total_cons] at fits ⊢
    rw [List.cons_append, putAll_cons (by omega), putAll_cons (by omega), ih (by omega), Nat.add_assoc]

/-- Later records leave the cells of the earlier ones. -/
theorem putAll_append_of_before (before after : List Record)
    (fits : place + format.total (before ++ after) ≤ size)
    (earlier : index.val < place + format.total before) :
    format.putAll area place (before ++ after) index = format.putAll area place before index := by
  rw [total_append] at fits
  rw [putAll_append before after (by omega), putAll_of_outside (by omega) (.inl earlier)]

/-- The walk sees the records that were put, in order. -/
theorem walk_putAll (records : List Record) (fits : place + format.total records ≤ size) :
    format.walk (format.putAll area place records) place records.length = records.map format.seen := by
  induction records generalizing area place with
  | nil => rfl
  | cons record rest ih =>
    rw [total_cons] at fits
    rw [putAll_cons (by omega)]
    have there : format.put (format.putAll (format.put area place record)
        (place + (format.encode record).length) rest) place record =
        format.putAll (format.put area place record) (place + (format.encode record).length) rest :=
      put_eq_self fun index _ before => putAll_of_outside (by omega) (.inl before)
    obtain ⟨next, seen⟩ := format.reads (by omega) there
    rw [List.length_cons, walk, next, seen, List.map_cons, ih (by omega)]

end RecordFormat

end WalnutOs.Lib
