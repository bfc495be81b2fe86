import Mathlib.Data.List.Basic
import Mathlib.Logic.Function.Basic
import Mathlib.Tactic.Common

/-! Linked lists threaded through records by a `next` field, and by a `prev`
field in the other direction. -/

namespace WalnutOs.Lib

universe u v
variable {Node : Type u} {next next' prev prev' : Node → Option Node}
variable {head before : Option Node} {nodes others : List Node} {node other : Node}

/-- Following `next` from `head` visits exactly these nodes and ends. -/
def IsChain (next : Node → Option Node) : Option Node → List Node → Prop
  | head, [] => head = none
  | head, node :: rest => head = some node ∧ IsChain next (next node) rest

/-- Each node's `prev` is the node before it, and the first one's is `before`. -/
def IsBacked (prev : Node → Option Node) : Option Node → List Node → Prop
  | _, [] => True
  | before, node :: rest => prev node = before ∧ IsBacked prev (some node) rest

/-- The nodes met in at most this many steps along `next`. -/
def walk (next : Node → Option Node) : Nat → Option Node → List Node
  | 0, _ => []
  | _ + 1, none => []
  | steps + 1, some node => node :: walk next steps (next node)

theorem IsChain.walk_eq (chain : IsChain next head nodes) {steps : Nat}
    (enough : nodes.length ≤ steps) : walk next steps head = nodes := by
  induction nodes generalizing head steps with
  | nil =>
    cases chain
    cases steps <;> rfl
  | cons first rest ih =>
    obtain ⟨rfl, later⟩ := chain
    obtain ⟨steps, rfl⟩ := Nat.exists_eq_add_of_le' (Nat.le_trans (Nat.succ_pos _) enough)
    rw [walk, ih later (Nat.le_of_succ_le_succ enough)]

theorem IsChain.frame (chain : IsChain next head nodes)
    (same : ∀ node ∈ nodes, next' node = next node) : IsChain next' head nodes := by
  induction nodes generalizing head with
  | nil => exact chain
  | cons first rest ih =>
    refine ⟨chain.1, ?_⟩
    rw [same first List.mem_cons_self]
    exact ih chain.2 fun node member => same node (List.mem_cons_of_mem _ member)

theorem IsBacked.frame (backed : IsBacked prev before nodes)
    (same : ∀ node ∈ nodes, prev' node = prev node) : IsBacked prev' before nodes := by
  induction nodes generalizing before with
  | nil => trivial
  | cons first rest ih =>
    refine ⟨(same first List.mem_cons_self).trans backed.1, ?_⟩
    exact ih backed.2 fun node member => same node (List.mem_cons_of_mem _ member)

/-- The head determines the nodes. -/
theorem IsChain.unique (chain : IsChain next head nodes) (again : IsChain next head others) :
    nodes = others := by
  induction nodes generalizing head others with
  | nil =>
    cases others with
    | nil => rfl
    | cons other rest =>
      have none := chain.symm.trans again.1
      cases none
  | cons first rest ih =>
    cases others with
    | nil =>
      have none := again.symm.trans chain.1
      cases none
    | cons other rest' =>
      cases Option.some.inj (chain.1.symm.trans again.1)
      rw [ih chain.2 again.2]

theorem IsChain.nil_iff (chain : IsChain next head nodes) : nodes = [] ↔ head = none := by
  cases nodes with
  | nil => exact iff_of_true rfl chain
  | cons first rest => simp [chain.1]

theorem IsChain.of_some (chain : IsChain next (some node) nodes) :
    ∃ rest, nodes = node :: rest ∧ IsChain next (next node) rest := by
  cases nodes with
  | nil => cases chain
  | cons first rest =>
    cases chain.1
    exact ⟨rest, rfl, chain.2⟩

/-- What follows a node is a chain from its `next`. -/
theorem IsChain.after {first rest : List Node}
    (chain : IsChain next head (first ++ node :: rest)) : IsChain next (next node) rest := by
  induction first generalizing head with
  | nil => exact chain.2
  | cons _ _ ih => exact ih chain.2

theorem IsChain.next_mem (chain : IsChain next head nodes) (member : node ∈ nodes)
    (link : next node = some other) : other ∈ nodes := by
  obtain ⟨first, rest, rfl⟩ := List.append_of_mem member
  have after := chain.after
  rw [link] at after
  obtain ⟨_, rfl, -⟩ := after.of_some
  simp

/-- A chain that ends visits no node twice. -/
theorem IsChain.nodup (chain : IsChain next head nodes) : nodes.Nodup := by
  induction nodes generalizing head with
  | nil => exact .nil
  | cons first rest ih =>
    refine List.nodup_cons.mpr ⟨fun member => ?_, ih chain.2⟩
    obtain ⟨earlier, later, rfl⟩ := List.append_of_mem member
    have lengths := congrArg List.length (chain.2.unique chain.2.after)
    simp at lengths
    omega

/-- A node is put in front of one of several lists. -/
theorem mem_update_cons {Index : Type v} [DecidableEq Index] {lists : Index → List Node}
    {place index : Index} : other ∈ Function.update lists place (node :: lists place) index ↔
      (index = place ∧ other = node) ∨ other ∈ lists index := by
  by_cases here : index = place
  · subst here
    simp
  · simp [here]

/-- The node behind a link has the link's owner as its `prev`. -/
theorem IsBacked.behind {first rest : List Node}
    (backed : IsBacked prev before (first ++ other :: node :: rest)) : prev node = some other := by
  induction first generalizing before with
  | nil => exact backed.2.1
  | cons _ _ ih => exact ih backed.2

theorem IsBacked.first_or_linked (backed : IsBacked prev before nodes)
    (chain : IsChain next head nodes) (member : node ∈ nodes) :
    (prev node = before ∧ head = some node) ∨
      ∃ other ∈ nodes, prev node = some other ∧ next other = some node := by
  induction nodes generalizing before head with
  | nil => cases member
  | cons first rest ih =>
    rcases List.mem_cons.mp member with rfl | later
    · exact .inl ⟨backed.1, chain.1⟩
    · rcases ih backed.2 chain.2 later with ⟨link, there⟩ | ⟨other, inside, link⟩
      · exact .inr ⟨first, List.mem_cons_self, link, there⟩
      · exact .inr ⟨other, List.mem_cons_of_mem _ inside, link⟩

/-- Both directions of the links agree on a chain whose first `prev` is empty. -/
theorem IsBacked.prev_eq_iff (backed : IsBacked prev none nodes) (chain : IsChain next head nodes)
    (member : node ∈ nodes) :
    prev node = some other ↔ other ∈ nodes ∧ next other = some node := by
  constructor
  · intro link
    rcases backed.first_or_linked chain member with ⟨first, -⟩ | ⟨earlier, inside, back, forth⟩
    · rw [first] at link
      cases link
    · cases Option.some.inj (back.symm.trans link)
      exact ⟨inside, forth⟩
  · rintro ⟨inside, forth⟩
    obtain ⟨first, rest, rfl⟩ := List.append_of_mem inside
    have after := chain.after
    rw [forth] at after
    obtain ⟨_, rfl, -⟩ := after.of_some
    exact backed.behind

variable [DecidableEq Node]

/-- Unlinking a node: whoever points to it points to its successor instead. -/
theorem IsChain.unlink (chain : IsChain next head nodes)
    (relinked : ∀ other ∈ nodes, next' other = if next other = some node then next node else next other) :
    IsChain next' (if head = some node then next node else head) (nodes.erase node) := by
  induction nodes generalizing head with
  | nil =>
    cases chain
    simp [IsChain]
  | cons first rest ih =>
    obtain ⟨rfl, tail⟩ := chain
    have later := ih tail fun other member => relinked other (List.mem_cons_of_mem _ member)
    by_cases same : first = node
    · subst same
      have absent : first ∉ rest :=
        (List.nodup_cons.mp (IsChain.nodup (show IsChain next (some first) (first :: rest) from
          ⟨rfl, tail⟩))).1
      have unpointed : next first ≠ some first := by
        intro loop
        rw [loop] at tail
        obtain ⟨_, rfl, -⟩ := tail.of_some
        exact absent List.mem_cons_self
      rw [if_neg unpointed, List.erase_of_not_mem absent] at later
      simpa using later
    · have apart : ¬ (first == node) = true := by simpa using same
      rw [if_neg (by simpa using same), List.erase_cons_tail apart]
      rw [← relinked first List.mem_cons_self] at later
      exact ⟨rfl, later⟩

/-- Taking out a node without a successor leaves the `prev` fields right. -/
theorem IsBacked.erase (backed : IsBacked prev before nodes) (chain : IsChain next head nodes)
    (last : next node = none) : IsBacked prev before (nodes.erase node) := by
  induction nodes generalizing head before with
  | nil => trivial
  | cons first rest ih =>
    by_cases same : first = node
    · subst same
      obtain ⟨-, tail⟩ := chain
      rw [last] at tail
      rw [tail.nil_iff.mpr rfl]
      simp [IsBacked]
    · rw [List.erase_cons_tail (by simpa using same)]
      exact ⟨backed.1, ih backed.2 chain.2⟩

end WalnutOs.Lib
