import Catena.Proofs.Tree.Reading
import Catena.Scope

/-!
# What passes the check of scopes

The nodes of a program are numbered before its scopes are checked. Which numbers they get depends on
what was linked before, but not whether the program is refused: errors come from the shape of the
tree alone (`Scope.failed_number`).

A program that passes has its imports first, and none after them or inside functions and sequences
(`Scope.importsFirst_of_not_failed`).
-/

namespace Catena

/-- A node that neither is an import nor puts a module in. -/
def Node.Plain : Node NodeId → Prop
  | .importing _ _ => False
  | .program _ _ _ => False
  | _ => True

namespace Scope

/-! ## Errors -/

/-- Two resolvers that are in the same function and have found the same errors. -/
def Resolver.Agrees (r r' : Resolver) : Prop :=
  r.function = r'.function ∧ r.errors = r'.errors

theorem Resolver.Agrees.bind {r r' : Resolver} (h : r.Agrees r') (m m' : Mark NodeId)
    (name : String) : (r.bind m name).Agrees (r'.bind m' name) := by
  obtain ⟨hfunction, herrors⟩ := h
  unfold Resolver.bind
  rw [← hfunction]
  split
  · exact ⟨rfl, herrors⟩
  · exact ⟨hfunction, herrors⟩

theorem Resolver.Agrees.use {r r' : Resolver} (h : r.Agrees r') (m m' : Mark NodeId)
    (name : String) : (r.use m name).Agrees (r'.use m' name) := by
  unfold Resolver.use
  split <;> split <;> exact h

theorem Resolver.Agrees.enter {r r' : Resolver} (h : r.Agrees r') (n n' : NodeId) (m : Mark Unit)
    (signature : Signature) :
    (r.enter (m.number n) signature).Agrees (r'.enter (m.number n') signature) := by
  obtain ⟨hfunction, herrors⟩ := h
  refine ⟨rfl, ?_⟩
  unfold Resolver.enter
  rw [hfunction, herrors]
  rfl

mutual

theorem visit_number (node : Node Unit) (n n' : NodeId) {r r' : Resolver} (h : r.Agrees r') :
    (visit r (node.number n).1).Agrees (visit r' (node.number n').1) := by
  cases node with
  | sequence m block body =>
    simp only [Node.number, visit]
    exact visitAll_number body n n' h
  | definition m signature body =>
    simp only [Node.number, visit]
    exact ⟨rfl, (visitAll_number body n n' (h.enter _ _ m signature)).2⟩
  | identifier m qualifier name =>
    simp only [Node.number]
    cases qualifier with
    | none => simp only [visit]; exact h.use _ _ name
    | some token => simp only [visit]; exact h
  | binding m name isPublic =>
    simp only [Node.number, visit]
    exact h.bind _ _ name
  | literal m value => simp only [Node.number, visit]; exact h
  | arithmetic m op => simp only [Node.number, visit]; exact h
  | comparison m op => simp only [Node.number, visit]; exact h
  | condition m form => simp only [Node.number, visit]; exact h
  | importing m request => simp only [Node.number, visit]; exact h
  | array m items => simp only [Node.number, visit]; exact h
  | program m info nodes => simp only [Node.number, visit]; exact h

theorem visitAll_number (nodes : List (Node Unit)) (n n' : NodeId) {r r' : Resolver}
    (h : r.Agrees r') :
    (visitAll r (Node.numberAll n nodes).1).Agrees (visitAll r' (Node.numberAll n' nodes).1) := by
  cases nodes with
  | nil => simp only [Node.numberAll, visitAll]; exact h
  | cons node rest =>
    simp only [Node.numberAll, visitAll]
    exact visitAll_number rest _ _ (visit_number node n n' h)

end

mutual

theorem lateImports_number (node : Node Unit) (n n' : NodeId) (allowed : Bool) :
    lateImports allowed (node.number n).1 = lateImports allowed (node.number n').1 := by
  cases node with
  | sequence m block body =>
    simp only [Node.number, lateImports]
    rw [lateImportsAll_number body n n' false]
  | definition m signature body =>
    simp only [Node.number, lateImports]
    rw [lateImportsAll_number body n n' false]
  | importing m request => simp only [Node.number, lateImports, Mark.number]
  | literal m value => simp only [Node.number, lateImports]
  | arithmetic m op => simp only [Node.number, lateImports]
  | comparison m op => simp only [Node.number, lateImports]
  | condition m form => simp only [Node.number, lateImports]
  | identifier m qualifier name => simp only [Node.number, lateImports]
  | binding m name isPublic => simp only [Node.number, lateImports]
  | array m items => simp only [Node.number, lateImports]
  | program m info nodes => simp only [Node.number, lateImports]

theorem lateImportsAll_number (nodes : List (Node Unit)) (n n' : NodeId) (allowed : Bool) :
    lateImportsAll allowed (Node.numberAll n nodes).1 =
      lateImportsAll allowed (Node.numberAll n' nodes).1 := by
  cases nodes with
  | nil => simp only [Node.numberAll, lateImportsAll]
  | cons node rest =>
    simp only [Node.numberAll, lateImportsAll]
    rw [lateImports_number node n n' allowed,
      lateImportsAll_number rest (node.number n).2 (node.number n').2]

end

/-- **What a program is refused for does not depend on its numbers.** -/
theorem errors_number (p : Program Unit) (n n' : NodeId) :
    (analyse (p.number n).1).errors = (analyse (p.number n').1).errors := by
  have visited := (visitAll_number p.nodes n n' (r := {}) ⟨rfl, rfl⟩).2
  unfold analyse Program.number
  dsimp only
  rw [visited, lateImportsAll_number p.nodes n n' true]

/-- **Whether a program is refused does not depend on its numbers.** -/
theorem failed_number (p : Program Unit) (n n' : NodeId) :
    (analyse (p.number n).1).failed = (analyse (p.number n').1).failed := by
  unfold Analysis.failed
  rw [errors_number p n n']

/-! ## Where imports stand -/

/-- Once imports may not follow, they never may again. -/
theorem lateImports_false (n : Node NodeId) : (lateImports false n).1 = false := by
  cases n <;> simp [lateImports]

theorem lateImports_importing_ne_nil (m : Mark NodeId) (request : Import) :
    (lateImports false (.importing m request)).2 ≠ [] := by
  simp [lateImports]

theorem lateImportsAll_cons_eq_nil {allowed : Bool} {n : Node NodeId} {rest : Code}
    (h : (lateImportsAll allowed (n :: rest)).2 = []) :
    (lateImports allowed n).2 = [] ∧ (lateImportsAll (lateImports allowed n).1 rest).2 = [] := by
  rw [lateImportsAll] at h
  exact List.append_eq_nil_iff.1 h

mutual

theorem plain_of_lateImports : {allowed : Bool} → (n : Node NodeId) → n.All Node.Read →
    n.import? = none → (lateImports allowed n).2 = [] → n.All Node.Plain
  | _, .sequence _ _ body, hread, _, h => ⟨trivial, plain_of_lateImportsAll body hread.2 h⟩
  | _, .definition _ _ body, hread, _, h => ⟨trivial, plain_of_lateImportsAll body hread.2 h⟩
  | _, .importing _ _, _, hnone, _ => nomatch hnone
  | _, .program _ _ _, hread, _, _ => hread.1.elim
  | _, .literal _ _, _, _, _ | _, .arithmetic _ _, _, _, _ | _, .comparison _ _, _, _, _
  | _, .condition _ _, _, _, _ | _, .identifier _ _ _, _, _, _ | _, .binding _ _ _, _, _, _
  | _, .array _ _, _, _, _ => trivial

/-- Code inside a function or a sequence has no imports at all. -/
theorem plain_of_lateImportsAll : (nodes : Code) → Node.AllIn Node.Read nodes →
    (lateImportsAll false nodes).2 = [] → Node.AllIn Node.Plain nodes
  | [], _, _ => trivial
  | n :: rest, hread, h => by
    obtain ⟨hn, hrest⟩ := lateImportsAll_cons_eq_nil h
    rw [lateImports_false] at hrest
    refine ⟨?_, plain_of_lateImportsAll rest hread.2 hrest⟩
    cases himport : n.import? with
    | none => exact plain_of_lateImports n hread.1 himport hn
    | some request =>
      obtain ⟨m, rfl⟩ := Node.import?_eq_some_iff.1 himport
      exact absurd hn (lateImports_importing_ne_nil m request)

end

/-- Nothing but an import lets imports follow. -/
theorem lateImports_other {n : Node NodeId} (hread : n.All Node.Read) (himport : n.import? = none)
    (allowed : Bool) : (lateImports allowed n).1 = false := by
  cases n with
  | importing m request => cases himport
  | program m info nodes => exact hread.1.elim
  | _ => simp [lateImports]

/-- Imports that come first, and then code without imports. -/
inductive ImportsFirst : Code → Prop
  | plain {code : Code} (h : Node.AllIn Node.Plain code) : ImportsFirst code
  | importing {m : Mark NodeId} {request : Import} {rest : Code} (h : ImportsFirst rest) :
    ImportsFirst (.importing m request :: rest)

theorem importsFirst_of_lateImportsAll {nodes : Code} (hread : Node.AllIn Node.Read nodes)
    (h : (lateImportsAll true nodes).2 = []) : ImportsFirst nodes := by
  induction nodes with
  | nil => exact .plain trivial
  | cons n rest ih =>
    obtain ⟨hn, hrest⟩ := lateImportsAll_cons_eq_nil h
    cases himport : n.import? with
    | some request =>
      obtain ⟨m, rfl⟩ := Node.import?_eq_some_iff.1 himport
      exact .importing (ih hread.2 hrest)
    | none =>
      rw [lateImports_other hread.1 himport] at hrest
      exact .plain ⟨plain_of_lateImports n hread.1 himport hn,
        plain_of_lateImportsAll rest hread.2 hrest⟩

/-- A program passes if neither names nor imports give rise to an error. -/
theorem failed_eq_false_iff_nil {p : Program NodeId} :
    (analyse p).failed = false ↔
      (visitAll {} p.nodes).errors = [] ∧ (lateImportsAll true p.nodes).2 = [] := by
  have sorted : (analyse p).errors.Perm
      ((visitAll {} p.nodes).errors ++ (lateImportsAll true p.nodes).2) :=
    List.mergeSort_perm _ inOrder
  unfold Analysis.failed
  rw [Bool.not_eq_false', List.isEmpty_iff, ← List.perm_nil, sorted.congr_left, List.perm_nil,
    List.append_eq_nil_iff]

/-- **A program that passes has its imports first, and no others.** -/
theorem importsFirst_of_not_failed {p : Program NodeId} (hread : Node.AllIn Node.Read p.nodes)
    (h : (analyse p).failed = false) : ImportsFirst p.nodes :=
  importsFirst_of_lateImportsAll hread (failed_eq_false_iff_nil.1 h).2

end Scope

end Catena
