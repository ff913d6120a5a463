import Catena.Tree.Node

/-!
# Nodes and what is inside them

A predicate on nodes holds of some code if it holds of every node of it, at any depth (`Node.AllIn`).
Numbering keeps what does not depend on numbers (`Node.allIn_numberAll`) and does not change the
imports of some code (`Node.filterMap_import?_numberAll`).
-/

namespace Catena

/-! ## All nodes of some code -/

section All

variable {ι : Type}

/-- The name that a node binds or uses. -/
def Node.name? : Node ι → Option String
  | binding _ name _ => some name
  | identifier _ _ name => some name
  | _ => none

mutual

/-- `P` holds of a node and of every node inside it. -/
def Node.All (P : Node ι → Prop) : Node ι → Prop
  | .sequence m block body => P (.sequence m block body) ∧ Node.AllIn P body
  | .definition m signature body => P (.definition m signature body) ∧ Node.AllIn P body
  | .program m info nodes => P (.program m info nodes) ∧ Node.AllIn P nodes
  | node => P node

/-- `P` holds of every node of some code, at any depth. -/
def Node.AllIn (P : Node ι → Prop) : List (Node ι) → Prop
  | [] => True
  | node :: rest => node.All P ∧ Node.AllIn P rest

end

theorem Node.All.self {P : Node ι → Prop} {node : Node ι} (h : node.All P) : P node := by
  cases node with
  | sequence | definition | program => exact h.1
  | _ => exact h

theorem Node.AllIn.of_mem {P : Node ι → Prop} {code : List (Node ι)} (h : Node.AllIn P code)
    {n : Node ι} (hn : n ∈ code) : n.All P := by
  induction code with
  | nil => cases hn
  | cons first rest ih =>
    rcases List.mem_cons.1 hn with rfl | hn
    · exact h.1
    · exact ih h.2 hn

mutual

theorem Node.all_of_forall {P : Node ι → Prop} (h : ∀ n, P n) : (n : Node ι) → n.All P
  | .sequence _ _ body => ⟨h _, Node.allIn_of_forall h body⟩
  | .definition _ _ body => ⟨h _, Node.allIn_of_forall h body⟩
  | .program _ _ nodes => ⟨h _, Node.allIn_of_forall h nodes⟩
  | .literal _ _ | .arithmetic _ _ | .comparison _ _ | .condition _ _ | .identifier _ _ _
  | .importing _ _ | .binding _ _ _ | .array _ _ => h _

/-- What holds of every node there is holds of those of any code. -/
theorem Node.allIn_of_forall {P : Node ι → Prop} (h : ∀ n, P n) :
    (code : List (Node ι)) → Node.AllIn P code
  | [] => trivial
  | n :: rest => ⟨Node.all_of_forall h n, Node.allIn_of_forall h rest⟩

end

mutual

theorem Node.All.mono {P Q : Node ι → Prop} (h : ∀ n, P n → Q n) :
    {n : Node ι} → n.All P → n.All Q
  | .sequence _ _ _, hn => ⟨h _ hn.1, Node.AllIn.mono h hn.2⟩
  | .definition _ _ _, hn => ⟨h _ hn.1, Node.AllIn.mono h hn.2⟩
  | .program _ _ _, hn => ⟨h _ hn.1, Node.AllIn.mono h hn.2⟩
  | .literal _ _, hn | .arithmetic _ _, hn | .comparison _ _, hn | .condition _ _, hn
  | .identifier _ _ _, hn | .importing _ _, hn | .binding _ _ _, hn | .array _ _, hn => h _ hn

theorem Node.AllIn.mono {P Q : Node ι → Prop} (h : ∀ n, P n → Q n) :
    {code : List (Node ι)} → Node.AllIn P code → Node.AllIn Q code
  | [], _ => trivial
  | _ :: _, hcode => ⟨hcode.1.mono h, hcode.2.mono h⟩

end

mutual

theorem Node.All.and {P Q : Node ι → Prop} :
    {n : Node ι} → n.All P → n.All Q → n.All fun n => P n ∧ Q n
  | .sequence _ _ _, h, k => ⟨⟨h.1, k.1⟩, Node.AllIn.and h.2 k.2⟩
  | .definition _ _ _, h, k => ⟨⟨h.1, k.1⟩, Node.AllIn.and h.2 k.2⟩
  | .program _ _ _, h, k => ⟨⟨h.1, k.1⟩, Node.AllIn.and h.2 k.2⟩
  | .literal _ _, h, k | .arithmetic _ _, h, k | .comparison _ _, h, k | .condition _ _, h, k
  | .identifier _ _ _, h, k | .importing _ _, h, k | .binding _ _ _, h, k | .array _ _, h, k =>
    ⟨h, k⟩

theorem Node.AllIn.and {P Q : Node ι → Prop} :
    {code : List (Node ι)} → Node.AllIn P code → Node.AllIn Q code →
      Node.AllIn (fun n => P n ∧ Q n) code
  | [], _, _ => trivial
  | _ :: _, h, k => ⟨h.1.and k.1, h.2.and k.2⟩

end

end All

/-! ## Numbering -/

section Numbering

variable {P : Node Unit → Prop} {Q : Node NodeId → Prop}

mutual

theorem Node.all_number (hPQ : ∀ (node : Node Unit) (n : NodeId), P node → Q (node.number n).1)
    (n : NodeId) (node : Node Unit) (h : node.All P) : (node.number n).1.All Q := by
  cases node with
  | sequence m block body =>
    have hnode := hPQ _ n h.1
    simp only [Node.number] at hnode ⊢
    exact ⟨hnode, Node.allIn_numberAll hPQ n body h.2⟩
  | definition m signature body =>
    have hnode := hPQ _ n h.1
    simp only [Node.number] at hnode ⊢
    exact ⟨hnode, Node.allIn_numberAll hPQ n body h.2⟩
  | program m info nodes =>
    have hnode := hPQ _ n h.1
    simp only [Node.number] at hnode ⊢
    exact ⟨hnode, Node.allIn_numberAll hPQ n nodes h.2⟩
  | literal m value | arithmetic m op | comparison m op | condition m form
  | identifier m qualifier name | importing m request | binding m name isPublic | array m items =>
    have hnode := hPQ _ n h
    simp only [Node.number] at hnode ⊢
    exact hnode

/-- What holds of every node still holds after numbering. -/
theorem Node.allIn_numberAll
    (hPQ : ∀ (node : Node Unit) (n : NodeId), P node → Q (node.number n).1) (n : NodeId)
    (nodes : List (Node Unit)) (h : Node.AllIn P nodes) :
    Node.AllIn Q (Node.numberAll n nodes).1 := by
  cases nodes with
  | nil => simp only [Node.numberAll]; exact trivial
  | cons node rest =>
    simp only [Node.numberAll]
    exact ⟨Node.all_number hPQ n node h.1, Node.allIn_numberAll hPQ _ rest h.2⟩

end

end Numbering

/-! ## Imports -/

theorem Node.import?_eq_some_iff {ι : Type} {node : Node ι} {request : Import} :
    node.import? = some request ↔ ∃ m, node = .importing m request := by
  cases node <;> simp [Node.import?]

theorem Node.import?_number (n : NodeId) (node : Node Unit) :
    (node.number n).1.import? = node.import? := by
  cases node <;> simp only [Node.number] <;> rfl

theorem Node.filterMap_import?_numberAll (n : NodeId) (nodes : List (Node Unit)) :
    (Node.numberAll n nodes).1.filterMap Node.import? = nodes.filterMap Node.import? := by
  induction nodes generalizing n with
  | nil => simp only [Node.numberAll, List.filterMap_nil]
  | cons node rest ih =>
    simp only [Node.numberAll, List.filterMap_cons, Node.import?_number, ih]

end Catena
