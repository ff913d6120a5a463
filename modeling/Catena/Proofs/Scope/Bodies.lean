import Catena.Proofs.Scope

/-!
# Where nodes stand

A sequence belongs to the code that it stands in, and the body of a function does not: `spreadAll`
lists the nodes of some code depth first, through sequences and not into functions. So every node of
a program without functions inside functions stands either outside functions or in the body of one of
them, after the other nodes of the same body that come before it (`Stands`, `allIn_stands`).

The pass over a program goes through its nodes in this order (`visitAll_eq_foldl`). It refuses the
program exactly for a function inside a function or an import after anything else
(`failed_eq_false_iff`), and each of its errors stands in the text (`located_of_mem_errors`).
-/

namespace Catena

namespace Node

def isDefinition : Node NodeId → Bool
  | definition .. => true
  | _ => false

mutual

/-- A node and what is in its sequences, depth first. -/
def spread : Node NodeId → List (Node NodeId)
  | sequence m block body => sequence m block body :: spreadAll body
  | node => [node]

/-- The nodes of some code and of its sequences, depth first. -/
def spreadAll : Code → List (Node NodeId)
  | [] => []
  | node :: rest => node.spread ++ spreadAll rest

end

end Node

namespace Scope

open Node (spreadAll)

/-- No function is defined in the body of another. -/
def Unnested (code : Code) : Prop :=
  ∀ m signature body, .definition m signature body ∈ spreadAll code →
    ∀ node ∈ spreadAll body, node.isDefinition = false

/-- A node of some code, with the function in whose body it stands and the nodes before it there. -/
inductive Stands (code : Code) : Option String → List (Node NodeId) → Node NodeId → Prop
  | outside {before after : List (Node NodeId)} {node : Node NodeId}
    (h : spreadAll code = before ++ node :: after) : Stands code none before node
  | inside {m : Mark NodeId} {signature : Signature} {body : Code}
    {before after : List (Node NodeId)} {node : Node NodeId}
    (function : .definition m signature body ∈ spreadAll code)
    (h : spreadAll body = before ++ node :: after) :
    Stands code (some signature.name) before node

/-! ## Every node stands somewhere -/

section Spread

variable {P : Node NodeId → Prop}

mutual

theorem all_of_mem_spread {node : Node NodeId} (h : node.All P) {inner : Node NodeId}
    (hinner : inner ∈ node.spread) : inner.All P := by
  cases node with
  | sequence m block body =>
    simp only [Node.spread, List.mem_cons] at hinner
    rcases hinner with rfl | hinner
    · exact h
    · exact all_of_mem_spreadAll h.2 hinner
  | literal m value | arithmetic m op | comparison m op | condition m form
  | definition m signature body | identifier m qualifier name | importing m request
  | binding m name isPublic | array m items | program m info nodes =>
    simp only [Node.spread, List.mem_singleton] at hinner
    rw [hinner]
    exact h

theorem all_of_mem_spreadAll {code : Code} (h : Node.AllIn P code) {inner : Node NodeId}
    (hinner : inner ∈ spreadAll code) : inner.All P := by
  cases code with
  | nil => simp only [Node.spreadAll, List.not_mem_nil] at hinner
  | cons node rest =>
    simp only [Node.spreadAll, List.mem_append] at hinner
    rcases hinner with hinner | hinner
    · exact all_of_mem_spread h.1 hinner
    · exact all_of_mem_spreadAll h.2 hinner

end

mutual

theorem all_of_spread {node : Node NodeId} (hread : node.All Node.Read)
    (hspread : ∀ n ∈ node.spread, P n)
    (hbodies : ∀ m signature body, .definition m signature body ∈ node.spread →
      Node.AllIn P body) : node.All P := by
  cases node with
  | sequence m block body =>
    simp only [Node.spread, List.mem_cons, forall_eq_or_imp] at hspread
    refine ⟨hspread.1, allIn_of_spreadAll hread.2 hspread.2 fun m signature body hmem => ?_⟩
    exact hbodies m signature body (by simp only [Node.spread]; exact List.mem_cons_of_mem _ hmem)
  | definition m signature body =>
    simp only [Node.spread, List.mem_singleton, forall_eq] at hspread
    exact ⟨hspread, hbodies m signature body (by simp only [Node.spread, List.mem_singleton])⟩
  | program m info nodes => exact hread.1.elim
  | literal m value | arithmetic m op | comparison m op | condition m form
  | identifier m qualifier name | importing m request | binding m name isPublic
  | array m items =>
    simp only [Node.spread, List.mem_singleton, forall_eq] at hspread
    exact hspread

/-- Code without imported programs is made up of what stands outside functions and of the bodies of
functions. -/
theorem allIn_of_spreadAll {code : Code} (hread : Node.AllIn Node.Read code)
    (hspread : ∀ n ∈ spreadAll code, P n)
    (hbodies : ∀ m signature body, .definition m signature body ∈ spreadAll code →
      Node.AllIn P body) : Node.AllIn P code := by
  cases code with
  | nil => trivial
  | cons node rest =>
    simp only [Node.spreadAll, List.mem_append] at hspread hbodies
    refine ⟨all_of_spread hread.1 (fun n hn => hspread n (Or.inl hn)) ?_,
      allIn_of_spreadAll hread.2 (fun n hn => hspread n (Or.inr hn)) ?_⟩
    · exact fun m signature body hmem => hbodies m signature body (Or.inl hmem)
    · exact fun m signature body hmem => hbodies m signature body (Or.inr hmem)

end

end Spread

theorem allIn_stands {code : Code} (hread : Node.AllIn Node.Read code) (hunnested : Unnested code) :
    Node.AllIn (fun node => ∃ function before, Stands code function before node) code := by
  refine allIn_of_spreadAll hread (fun node hnode => ?_) fun m signature body hdefinition => ?_
  · obtain ⟨before, after, hcode⟩ := List.append_of_mem hnode
    exact ⟨none, before, .outside hcode⟩
  · have hbody := (all_of_mem_spreadAll hread hdefinition).2
    refine allIn_of_spreadAll hbody (fun node hnode => ?_) fun m' signature' body' hinner => ?_
    · obtain ⟨before, after, hspread⟩ := List.append_of_mem hnode
      exact ⟨some signature.name, before, .inside hdefinition hspread⟩
    · cases hunnested m signature body hdefinition _ hinner

/-! ## The order of the pass -/

/-- One step of the pass. Sequences are passed through. -/
def step (r : Resolver) : Node NodeId → Resolver
  | .sequence _ _ _ => r
  | node => visit r node

mutual

theorem visit_eq_foldl (r : Resolver) (node : Node NodeId) :
    visit r node = node.spread.foldl step r := by
  cases node with
  | sequence m block body =>
    simp only [visit, Node.spread, List.foldl_cons, step]
    exact visitAll_eq_foldl r body
  | literal m value | arithmetic m op | comparison m op | condition m form
  | definition m signature body | identifier m qualifier name | importing m request
  | binding m name isPublic | array m items | program m info nodes =>
    simp only [Node.spread, List.foldl_cons, List.foldl_nil, step]

/-- The pass goes through the nodes in the order of the text. -/
theorem visitAll_eq_foldl (r : Resolver) (code : Code) :
    visitAll r code = (spreadAll code).foldl step r := by
  cases code with
  | nil => simp only [visitAll, Node.spreadAll, List.foldl_nil]
  | cons node rest =>
    simp only [visitAll, Node.spreadAll, List.foldl_append]
    rw [visitAll_eq_foldl (visit r node) rest, visit_eq_foldl r node]

end

theorem step_definition (r : Resolver) (m : Mark NodeId) (signature : Signature) (body : Code) :
    step r (.definition m signature body) =
      ((spreadAll body).foldl step (r.enter m signature)).leave := by
  rw [← visitAll_eq_foldl]
  simp only [step, visit]

/-! ## Errors -/

@[simp] theorem errors_use (r : Resolver) (m : Mark NodeId) (name : String) :
    (r.use m name).errors = r.errors := by
  unfold Resolver.use
  split <;> rfl

@[simp] theorem errors_bind (r : Resolver) (m : Mark NodeId) (name : String) :
    (r.bind m name).errors = r.errors := by
  unfold Resolver.bind
  split <;> rfl

mutual

theorem errors_of_visit {r : Resolver} (node : Node NodeId) (h : (visit r node).errors = []) :
    r.errors = [] := by
  cases node with
  | sequence m block body =>
    simp only [visit] at h
    exact errors_of_visitAll body h
  | definition m signature body =>
    simp only [visit] at h
    have henter := errors_of_visitAll body h
    unfold Resolver.enter at henter
    dsimp only at henter
    split at henter
    · exact (List.append_eq_nil_iff.1 henter).1
    · exact henter
  | identifier m qualifier name =>
    cases qualifier with
    | none => simpa only [visit, errors_use] using h
    | some token => simpa only [visit] using h
  | binding m name isPublic => simpa only [visit, errors_bind] using h
  | literal m value | arithmetic m op | comparison m op | condition m form | importing m request
  | array m items | program m info nodes => simpa only [visit] using h

/-- Errors stay. -/
theorem errors_of_visitAll {r : Resolver} (code : Code) (h : (visitAll r code).errors = []) :
    r.errors = [] := by
  cases code with
  | nil => simpa only [visitAll] using h
  | cons node rest =>
    simp only [visitAll] at h
    exact errors_of_visit node (errors_of_visitAll rest h)

end

theorem errors_of_foldl {r : Resolver} {nodes : List (Node NodeId)}
    (h : (nodes.foldl step r).errors = []) : r.errors = [] := by
  induction nodes generalizing r with
  | nil => exact h
  | cons node rest ih =>
    have hstep := ih h
    cases node with
    | sequence => exact hstep
    | _ => exact errors_of_visit _ hstep

/-- Everything but a definition leaves the pass where it is, and finds no error. -/
theorem step_of_not_isDefinition {node : Node NodeId} (h : node.isDefinition = false)
    (r : Resolver) : (step r node).function = r.function ∧ (step r node).errors = r.errors := by
  cases node with
  | definition => cases h
  | identifier m qualifier name =>
    cases qualifier with
    | some token => simp [step, visit]
    | none =>
      simp only [step, visit, errors_use, and_true]
      unfold Resolver.use
      split <;> rfl
  | binding m name isPublic =>
    simp only [step, visit, errors_bind, and_true]
    unfold Resolver.bind
    split <;> rfl
  | _ => simp [step, visit]

theorem errors_inside {r : Resolver} {f : String} (hr : r.function = some f)
    (herrors : r.errors = []) (nodes : List (Node NodeId)) :
    (nodes.foldl step r).errors = [] ↔ ∀ node ∈ nodes, node.isDefinition = false := by
  induction nodes generalizing r with
  | nil => simp [herrors]
  | cons node rest ih =>
    rw [List.foldl_cons, List.forall_mem_cons]
    cases hnode : node.isDefinition with
    | false =>
      obtain ⟨hfunction, hstep⟩ := step_of_not_isDefinition hnode r
      rw [ih (hfunction.trans hr) (hstep.trans herrors)]
      simp
    | true =>
      refine ⟨fun h => ?_, nofun⟩
      cases node with
      | definition m signature body =>
        -- the error that entering the function reports is still there at the end
        have hstep := errors_of_foldl h
        rw [step_definition] at hstep
        have hbody : ((spreadAll body).foldl step (r.enter m signature)).errors = [] := hstep
        have henter := errors_of_foldl hbody
        simp [Resolver.enter, hr] at henter
      | _ => cases hnode

/-- The pass is outside functions and knows no locals. -/
def Resolver.Outside (r : Resolver) : Prop :=
  r.function = none ∧ r.locals = []

theorem Resolver.Outside.step_of_not_isDefinition {r : Resolver} (h : r.Outside)
    {node : Node NodeId} (hnode : node.isDefinition = false) :
    (step r node).Outside ∧ (step r node).table = r.table := by
  obtain ⟨hfunction, hlocals⟩ := h
  cases node with
  | definition => cases hnode
  | identifier m qualifier name =>
    cases qualifier with
    | some token =>
      simp only [Scope.step, visit]
      exact ⟨⟨hfunction, hlocals⟩, trivial⟩
    | none =>
      simp only [Scope.step, visit, Resolver.use, hlocals, List.lookup_nil]
      exact ⟨⟨hfunction, hlocals⟩, trivial⟩
  | binding m name isPublic =>
    simp only [Scope.step, visit, Resolver.bind, hfunction]
    exact ⟨⟨rfl, hlocals⟩, trivial⟩
  | _ =>
    simp only [Scope.step, visit]
    exact ⟨⟨hfunction, hlocals⟩, trivial⟩

theorem Resolver.Outside.step {r : Resolver} (h : r.Outside) (node : Node NodeId) :
    (step r node).Outside := by
  cases hnode : node.isDefinition with
  | false => exact (h.step_of_not_isDefinition hnode).1
  | true =>
    cases node with
    | definition m signature body =>
      rw [step_definition]
      exact ⟨rfl, rfl⟩
    | _ => cases hnode

theorem Resolver.Outside.foldl {r : Resolver} (h : r.Outside) (nodes : List (Node NodeId)) :
    (nodes.foldl Scope.step r).Outside := by
  induction nodes generalizing r with
  | nil => exact h
  | cons node rest ih => exact ih (h.step node)

/-- Outside functions, definitions in the bodies of functions are what is wrong. -/
theorem errors_outside {r : Resolver} (hr : r.Outside) (herrors : r.errors = [])
    (nodes : List (Node NodeId)) :
    (nodes.foldl step r).errors = [] ↔
      ∀ m signature body, .definition m signature body ∈ nodes →
        ∀ node ∈ spreadAll body, node.isDefinition = false := by
  induction nodes generalizing r with
  | nil => simp [herrors]
  | cons node rest ih =>
    rw [List.foldl_cons]
    cases hnode : node.isDefinition with
    | false =>
      have hstep := (step_of_not_isDefinition hnode r).2.trans herrors
      rw [ih (hr.step node) hstep]
      constructor
      · intro h m signature body hmem
        rcases List.mem_cons.1 hmem with rfl | hmem
        · cases hnode
        · exact h m signature body hmem
      · intro h m signature body hmem
        exact h m signature body (List.mem_cons_of_mem _ hmem)
    | true =>
      cases node with
      | definition m signature body =>
        have henter : (r.enter m signature).errors = [] := by
          simp [Resolver.enter, hr.1, herrors]
        have hbody := errors_inside (r := r.enter m signature) rfl henter (spreadAll body)
        have hdefinition : (step r (.definition m signature body)).errors =
            ((spreadAll body).foldl step (r.enter m signature)).errors := by
          rw [step_definition]
          rfl
        constructor
        · intro h m' signature' body' hmem
          have hstep := errors_of_foldl h
          rcases List.mem_cons.1 hmem with heq | hmem
          · cases heq
            exact hbody.1 (hdefinition.symm.trans hstep)
          · exact (ih (hr.step _) hstep).1 h m' signature' body' hmem
        · intro h
          have hstep := hdefinition.trans (hbody.2 (h m signature body List.mem_cons_self))
          refine (ih (hr.step _) hstep).2 fun m' signature' body' hmem => ?_
          exact h m' signature' body' (List.mem_cons_of_mem _ hmem)
      | _ => cases hnode

theorem errors_eq_nil_iff (code : Code) : (visitAll {} code).errors = [] ↔ Unnested code := by
  rw [visitAll_eq_foldl]
  exact errors_outside ⟨rfl, rfl⟩ rfl (spreadAll code)

mutual

theorem lateImports_of_plain (allowed : Bool) (node : Node NodeId) (h : node.All Node.Plain) :
    (lateImports allowed node).2 = [] := by
  cases node with
  | sequence m block body =>
    simp only [lateImports]
    exact lateImportsAll_of_plain false body h.2
  | definition m signature body =>
    simp only [lateImports]
    exact lateImportsAll_of_plain false body h.2
  | importing m request => exact h.elim
  | program m info nodes => exact h.1.elim
  | literal m value | arithmetic m op | comparison m op | condition m form
  | identifier m qualifier name | binding m name isPublic | array m items =>
    simp only [lateImports]

theorem lateImportsAll_of_plain (allowed : Bool) (code : Code) (h : Node.AllIn Node.Plain code) :
    (lateImportsAll allowed code).2 = [] := by
  cases code with
  | nil => simp only [lateImportsAll]
  | cons node rest =>
    simp only [lateImportsAll, List.append_eq_nil_iff]
    exact ⟨lateImports_of_plain allowed node h.1, lateImportsAll_of_plain _ rest h.2⟩

end

theorem ImportsFirst.lateImportsAll_eq_nil {code : Code} (h : ImportsFirst code) :
    (lateImportsAll true code).2 = [] := by
  induction h with
  | plain h => exact lateImportsAll_of_plain true _ h
  | importing _ ih => simpa [lateImportsAll, lateImports] using ih

/-- **What is refused**: a function inside a function, and an import after anything else. -/
theorem failed_eq_false_iff {p : Program NodeId} (hread : Node.AllIn Node.Read p.nodes) :
    (analyse p).failed = false ↔ Unnested p.nodes ∧ ImportsFirst p.nodes := by
  rw [failed_eq_false_iff_nil, errors_eq_nil_iff]
  refine and_congr_right fun _ => ⟨importsFirst_of_lateImportsAll hread, ?_⟩
  exact ImportsFirst.lateImportsAll_eq_nil

/-! ## Where errors stand -/

/-- An error of the pass that is placed somewhere in the text. -/
def Located (d : Diagnostic) : Prop :=
  ∃ error position, d = .located (.scope error) position

theorem located_of_mem_enter {r : Resolver} (h : ∀ d ∈ r.errors, Located d) (m : Mark NodeId)
    (signature : Signature) : ∀ d ∈ (r.enter m signature).errors, Located d := by
  unfold Resolver.enter
  dsimp only
  split
  · exact List.forall_mem_append.2 ⟨h, List.forall_mem_singleton.2 ⟨_, _, rfl⟩⟩
  · exact h

mutual

theorem located_of_mem_visit {r : Resolver} (h : ∀ d ∈ r.errors, Located d) (node : Node NodeId) :
    ∀ d ∈ (visit r node).errors, Located d := by
  cases node with
  | sequence m block body =>
    simp only [visit]
    exact located_of_mem_visitAll h body
  | definition m signature body =>
    simp only [visit]
    exact located_of_mem_visitAll (located_of_mem_enter h m signature) body
  | identifier m qualifier name =>
    cases qualifier with
    | none => simpa only [visit, errors_use] using h
    | some token => simpa only [visit] using h
  | binding m name isPublic => simpa only [visit, errors_bind] using h
  | literal m value | arithmetic m op | comparison m op | condition m form | importing m request
  | array m items | program m info nodes => simpa only [visit] using h

theorem located_of_mem_visitAll {r : Resolver} (h : ∀ d ∈ r.errors, Located d) (code : Code) :
    ∀ d ∈ (visitAll r code).errors, Located d := by
  cases code with
  | nil => simpa only [visitAll] using h
  | cons node rest =>
    simp only [visitAll]
    exact located_of_mem_visitAll (located_of_mem_visit h node) rest

end

mutual

theorem located_of_mem_lateImports (allowed : Bool) (node : Node NodeId) :
    ∀ d ∈ (lateImports allowed node).2, Located d := by
  cases node with
  | sequence m block body =>
    simp only [lateImports]
    exact located_of_mem_lateImportsAll false body
  | definition m signature body =>
    simp only [lateImports]
    exact located_of_mem_lateImportsAll false body
  | importing m request =>
    simp only [lateImports]
    split
    · exact fun _ => nofun
    · exact List.forall_mem_singleton.2 ⟨_, _, rfl⟩
  | literal m value | arithmetic m op | comparison m op | condition m form
  | identifier m qualifier name | binding m name isPublic | array m items
  | program m info nodes =>
    simp only [lateImports]
    exact fun _ => nofun

theorem located_of_mem_lateImportsAll (allowed : Bool) (code : Code) :
    ∀ d ∈ (lateImportsAll allowed code).2, Located d := by
  cases code with
  | nil => simp only [lateImportsAll]; exact fun _ => nofun
  | cons node rest =>
    simp only [lateImportsAll]
    exact List.forall_mem_append.2
      ⟨located_of_mem_lateImports allowed node, located_of_mem_lateImportsAll _ rest⟩

end

/-- **Every error of the check stands in the text.** -/
theorem located_of_mem_errors (p : Program NodeId) : ∀ d ∈ (analyse p).errors, Located d := by
  intro d hd
  have start : ∀ d ∈ ({} : Resolver).errors, Located d := fun _ h => absurd h List.not_mem_nil
  rcases List.mem_append.1 (List.mem_mergeSort.1 hd) with hvisit | hlate
  · exact located_of_mem_visitAll start p.nodes d hvisit
  · exact located_of_mem_lateImportsAll true p.nodes d hlate

end Scope

end Catena
