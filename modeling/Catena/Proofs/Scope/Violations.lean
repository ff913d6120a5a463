import Catena.Proofs.Scope.Bodies
import Catena.Proofs.Tree.Naming

/-!
# What is reported of scopes

A program breaks the rules of scopes with every function that is defined in the body of another, through
sequences or directly, and with every import that does not stand among the nodes it starts with. The
errors of the check are in the order of the text, and every late import is among them exactly once.

Of the functions in one body only the first is reported. The pass remembers which function it is in and
forgets it at the end of every function, also of one that is nested, so it takes what follows in the body
around it for code outside functions (`errors_visitAll`). So the check reports all violations exactly if
no body has two functions in it (`analyse_reports`).
-/

namespace Catena

namespace Node

def isImport (n : Node NodeId) : Bool :=
  n.import?.isSome

/-- The body of the function that a node defines. -/
def functionBody? : Node NodeId → Option Code
  | definition _ _ body => some body
  | _ => none

mutual

/-- A node and the nodes inside it, at any depth. A module that was put in is another text. -/
def deep : Node NodeId → List (Node NodeId)
  | sequence m block body => sequence m block body :: deepAll body
  | definition m signature body => definition m signature body :: deepAll body
  | node => [node]

/-- The nodes of some code at any depth, in the order of the text. -/
def deepAll : Code → List (Node NodeId)
  | [] => []
  | node :: rest => node.deep ++ deepAll rest

end

end Node

namespace Scope

open Node (spreadAll deepAll)

/-! ## Violations -/

/-- The functions among some nodes. -/
def functionsIn (nodes : List (Node NodeId)) : List (Node NodeId) :=
  nodes.filter Node.isDefinition

/-- The functions in the body of each function among some nodes. -/
def bodyFunctions (nodes : List (Node NodeId)) : List (List (Node NodeId)) :=
  (nodes.filterMap Node.functionBody?).map fun body => functionsIn (spreadAll body)

/-- The functions that are defined in the body of another. -/
def nestedFunctions (code : Code) : List (Node NodeId) :=
  (bodyFunctions (deepAll code)).flatten

/-- The imports that do not stand among those that some code starts with. -/
def lateNodes (code : Code) : List (Node NodeId) :=
  (deepAll (code.dropWhile Node.isImport)).filter Node.isImport

/-- The error about a node. -/
def violation (error : ScopeError) (n : Node NodeId) : Diagnostic :=
  .located (.scope error) n.position

/-- Of two diagnostics that have places, the first does not stand after the second. -/
def InText (d e : Diagnostic) : Prop :=
  ∀ p q, d.position = some p → e.position = some q →
    p.line < q.line ∨ p.line = q.line ∧ p.character ≤ q.character

/-- Errors that report functions in functions and late imports, each once and at its place, in the order
of the text. -/
structure Reports (errors : List Diagnostic) (functions imports : List (Node NodeId)) : Prop where
  once : errors.Perm
    (functions.map (violation .nestedFunction) ++ imports.map (violation .misplacedImport))
  ordered : errors.Pairwise InText

/-! ## Functions in functions -/

/-- The first function in each body. -/
def leadingFunctions (nodes : List (Node NodeId)) : List (Node NodeId) :=
  (bodyFunctions nodes).flatMap (·.take 1)

theorem functionsIn_append (a b : List (Node NodeId)) :
    functionsIn (a ++ b) = functionsIn a ++ functionsIn b :=
  List.filter_append ..

theorem leadingFunctions_append (a b : List (Node NodeId)) :
    leadingFunctions (a ++ b) = leadingFunctions a ++ leadingFunctions b := by
  unfold leadingFunctions bodyFunctions
  rw [List.filterMap_append, List.map_append, List.flatMap_append]

theorem leadingFunctions_definition (m : Mark NodeId) (signature : Signature) (body : Code)
    (nodes : List (Node NodeId)) :
    leadingFunctions (.definition m signature body :: nodes) =
      (functionsIn (spreadAll body)).take 1 ++ leadingFunctions nodes := rfl

mutual

theorem leadingFunctions_of_no_function {node : Node NodeId} (h : functionsIn node.spread = []) :
    leadingFunctions node.deep = [] := by
  cases node with
  | sequence m block body =>
    simp only [Node.spread, Node.deep] at h ⊢
    exact leadingFunctions_of_no_functions h
  | definition m signature body =>
    simp only [Node.spread] at h
    cases h
  | literal m value | arithmetic m op | comparison m op | condition m form
  | identifier m qualifier name | importing m request | binding m name isPublic | array m items
  | program m info nodes => simp only [Node.deep]; rfl

/-- Code without functions has no bodies. -/
theorem leadingFunctions_of_no_functions {code : Code} (h : functionsIn (spreadAll code) = []) :
    leadingFunctions (deepAll code) = [] := by
  cases code with
  | nil => simp only [Node.deepAll]; rfl
  | cons node rest =>
    simp only [Node.spreadAll, functionsIn_append, List.append_eq_nil_iff] at h
    simp only [Node.deepAll, leadingFunctions_append]
    rw [leadingFunctions_of_no_function h.1, leadingFunctions_of_no_functions h.2, List.append_nil]

end

/-- What the pass reports of some nodes whose functions are `functions`, if it takes itself to be
inside a function or not. -/
def reported (inside : Bool) (functions deep : List (Node NodeId)) : List Diagnostic :=
  ((if inside then functions.take 1 else []) ++ leadingFunctions deep).map
    (violation .nestedFunction)

/-- Once the pass has left a function it takes itself to be outside. -/
theorem reported_append {inside : Bool} {functions deep functions' deep' : List (Node NodeId)}
    (h : functions = [] → leadingFunctions deep = []) :
    reported inside (functions ++ functions') (deep ++ deep') =
      reported inside functions deep ++ reported (inside && functions.isEmpty) functions' deep' := by
  unfold reported
  rw [← List.map_append, leadingFunctions_append]
  cases functions with
  | nil => simp [h rfl]
  | cons first rest => cases inside <;> simp

/-- A node that has no others inside it gives rise to no error. -/
theorem errors_leaf (r : Resolver) {node : Node NodeId} (hspread : node.spread = [node])
    (hdeep : node.deep = [node]) (hnode : node.isDefinition = false)
    (hstep : visit r node = step r node) :
    (visit r node).errors =
        r.errors ++ reported r.function.isSome (functionsIn node.spread) node.deep ∧
      (visit r node).function.isSome =
        (r.function.isSome && (functionsIn node.spread).isEmpty) := by
  obtain ⟨hfunction, herrors⟩ := step_of_not_isDefinition hnode r
  have hnone : functionsIn [node] = [] := by simp [functionsIn, hnode]
  have hbodies : leadingFunctions [node] = [] := by
    have hbody : node.functionBody? = none := by
      cases node <;> first | rfl | cases hnode
    simp [leadingFunctions, bodyFunctions, hbody]
  rw [hstep, hfunction, herrors, hspread, hdeep]
  simp [reported, hnone, hbodies]

mutual

theorem errors_visit (r : Resolver) (node : Node NodeId) :
    (visit r node).errors =
        r.errors ++ reported r.function.isSome (functionsIn node.spread) node.deep ∧
      (visit r node).function.isSome =
        (r.function.isSome && (functionsIn node.spread).isEmpty) := by
  cases node with
  | sequence m block body =>
    simp only [visit, Node.spread, Node.deep]
    exact errors_visitAll r body
  | definition m signature body =>
    have hbody := (errors_visitAll (r.enter m signature) body).1
    simp only [visit, Node.spread, Node.deep]
    refine ⟨?_, by simp [Resolver.leave, functionsIn, Node.isDefinition]⟩
    show (visitAll (r.enter m signature) body).errors = _
    have hself : functionsIn [.definition m signature body] = [.definition m signature body] := rfl
    rw [hbody, hself]
    unfold reported
    rw [leadingFunctions_definition, Resolver.enter]
    -- what the body reports of itself comes after the error about the function
    cases r.function with
    | none => simp
    | some function => simp [violation, Node.position, Node.mark]
  | literal m value | arithmetic m op | comparison m op | condition m form
  | identifier m qualifier name | importing m request | binding m name isPublic | array m items
  | program m info nodes =>
    refine errors_leaf r ?_ ?_ rfl ?_
    · simp only [Node.spread]
    · simp only [Node.deep]
    · simp only [step]

/-- **What the pass reports**: the first function in every body, and the first one at all if it takes
itself to be inside a function. -/
theorem errors_visitAll (r : Resolver) (code : Code) :
    (visitAll r code).errors =
        r.errors ++ reported r.function.isSome (functionsIn (spreadAll code)) (deepAll code) ∧
      (visitAll r code).function.isSome =
        (r.function.isSome && (functionsIn (spreadAll code)).isEmpty) := by
  cases code with
  | nil => simp [visitAll, Node.spreadAll, Node.deepAll, reported, functionsIn, leadingFunctions,
      bodyFunctions]
  | cons node rest =>
    obtain ⟨herrors, hfunction⟩ := errors_visit r node
    obtain ⟨hrest, hleft⟩ := errors_visitAll (visit r node) rest
    have hempty : (functionsIn node.spread ++ functionsIn (spreadAll rest)).isEmpty =
        ((functionsIn node.spread).isEmpty && (functionsIn (spreadAll rest)).isEmpty) := by
      cases functionsIn node.spread <;> rfl
    simp only [visitAll, Node.spreadAll, Node.deepAll]
    rw [functionsIn_append, reported_append leadingFunctions_of_no_function, hrest, herrors,
      hfunction, hleft, hfunction, List.append_assoc, hempty, Bool.and_assoc]
    exact ⟨rfl, rfl⟩

end

/-! ## Late imports -/

mutual

theorem lateImports_eq (node : Node NodeId) :
    (lateImports false node).2 =
      (node.deep.filter Node.isImport).map (violation .misplacedImport) := by
  cases node with
  | sequence m block body =>
    simp only [lateImports, Node.deep]
    exact lateImportsAll_eq body
  | definition m signature body =>
    simp only [lateImports, Node.deep]
    exact lateImportsAll_eq body
  | importing m request => simp only [lateImports, Node.deep]; rfl
  | literal m value | arithmetic m op | comparison m op | condition m form
  | identifier m qualifier name | binding m name isPublic | array m items
  | program m info nodes => simp only [lateImports, Node.deep]; rfl

/-- Where imports may not stand every import is reported. -/
theorem lateImportsAll_eq (code : Code) :
    (lateImportsAll false code).2 =
      ((deepAll code).filter Node.isImport).map (violation .misplacedImport) := by
  cases code with
  | nil => simp only [lateImportsAll, Node.deepAll, List.filter_nil, List.map_nil]
  | cons node rest =>
    simp only [lateImportsAll, Node.deepAll, List.filter_append, List.map_append]
    rw [lateImports_false, lateImports_eq node, lateImportsAll_eq rest]

end

/-- **Every late import is reported**, and no import that the code starts with. -/
theorem lateImportsAll_true {code : Code} (hread : Node.AllIn Node.Read code) :
    (lateImportsAll true code).2 = (lateNodes code).map (violation .misplacedImport) := by
  unfold lateNodes
  induction code with
  | nil => simp only [lateImportsAll, List.dropWhile_nil, Node.deepAll, List.filter_nil, List.map_nil]
  | cons node rest ih =>
    cases himport : node.import? with
    | some request =>
      obtain ⟨m, rfl⟩ := Node.import?_eq_some_iff.1 himport
      rw [List.dropWhile_cons_of_pos (by rfl), ← ih hread.2]
      simp only [lateImportsAll, lateImports, if_true, List.nil_append]
    | none =>
      rw [List.dropWhile_cons_of_neg (by simp [Node.isImport, himport])]
      have hother := lateImports_other hread.1 himport
      have hsame : lateImports true node = lateImports false node := by
        cases node with
        | importing => cases himport
        | program => exact hread.1.1.elim
        | _ => simp only [lateImports]
      rw [← lateImportsAll_eq]
      simp only [lateImportsAll]
      rw [hsame]

/-! ## The order of the text -/

theorem inOrder_trans (d e f : Diagnostic) (hde : inOrder d e) (hef : inOrder e f) : inOrder d f := by
  unfold inOrder Position.atOrBefore at *
  generalize d.position = p at *
  generalize e.position = q at *
  generalize f.position = s at *
  cases p with
  | none => rfl
  | some p =>
    cases q with
    | none => cases hde
    | some q =>
      cases s with
      | none => cases hef
      | some s =>
        simp only [Bool.or_eq_true, Bool.and_eq_true, decide_eq_true_eq, beq_iff_eq] at *
        omega

theorem inOrder_total (d e : Diagnostic) : inOrder d e || inOrder e d := by
  unfold inOrder Position.atOrBefore
  cases d.position with
  | none => rfl
  | some p =>
    cases e.position with
    | none => rfl
    | some q =>
      simp only [Bool.or_eq_true, Bool.and_eq_true, decide_eq_true_eq, beq_iff_eq]
      omega

theorem inText_of_inOrder {d e : Diagnostic} (h : inOrder d e) : InText d e := by
  intro p q hp hq
  unfold inOrder Position.atOrBefore at h
  rw [hp, hq] at h
  simpa using h

/-! ## The whole check -/

theorem reports_leadingFunctions {p : Program NodeId} (hread : Node.AllIn Node.Read p.nodes) :
    Reports (analyse p).errors (leadingFunctions (deepAll p.nodes)) (lateNodes p.nodes) := by
  have hvisit : (visitAll {} p.nodes).errors =
      (leadingFunctions (deepAll p.nodes)).map (violation .nestedFunction) :=
    (errors_visitAll {} p.nodes).1
  constructor
  · rw [← hvisit, ← lateImportsAll_true hread]
    exact List.mergeSort_perm _ inOrder
  · exact (List.pairwise_mergeSort inOrder_trans inOrder_total _).imp inText_of_inOrder

theorem Reports.length_eq {errors : List Diagnostic} {functions imports : List (Node NodeId)}
    (h : Reports errors functions imports) : errors.length = functions.length + imports.length := by
  rw [h.once.length_eq, List.length_append, List.length_map, List.length_map]

/-- To take the first of each list is to take as many only if no list has two. -/
theorem length_flatMap_take_one {α : Type} (ls : List (List α)) :
    (ls.flatMap (·.take 1)).length ≤ ls.flatten.length ∧
      ((ls.flatMap (·.take 1)).length = ls.flatten.length ↔ ∀ l ∈ ls, l.length ≤ 1) := by
  induction ls with
  | nil => simp
  | cons l ls ih =>
    obtain ⟨hle, hiff⟩ := ih
    rw [List.flatMap_cons, List.flatten_cons, List.length_append, List.length_append,
      List.length_take, List.forall_mem_cons, ← hiff]
    omega

theorem flatMap_take_one_eq_flatten {α : Type} {ls : List (List α)} (h : ∀ l ∈ ls, l.length ≤ 1) :
    ls.flatMap (·.take 1) = ls.flatten := by
  have hwhole : ls.map (·.take 1) = ls.map id :=
    List.map_congr_left fun l hl => List.take_of_length_le (h l hl)
  rw [List.flatMap_def, hwhole, List.map_id]

/-- **What the check reports of a program that was read**: of the functions in the body of another the
first, and every late import, each once and at its place, in the order of the text. These are all
violations exactly if no body has two functions in it. -/
theorem analyse_reports {name source : String} {p : Program Unit}
    (h : Tree.ofSource name source = .ok p) (n : NodeId) :
    Reports (analyse (p.number n).1).errors (leadingFunctions (deepAll (p.number n).1.nodes))
        (lateNodes (p.number n).1.nodes) ∧
      (Reports (analyse (p.number n).1).errors (nestedFunctions (p.number n).1.nodes)
          (lateNodes (p.number n).1.nodes) ↔
        ∀ functions ∈ bodyFunctions (deepAll (p.number n).1.nodes), functions.length ≤ 1) := by
  have hread : Node.AllIn Node.Read (p.number n).1.nodes :=
    Node.allIn_read_numberAll n p.nodes (Tree.allIn_read_of_ofSource h)
  have hreports := reports_leadingFunctions hread
  refine ⟨hreports, fun hall => ?_, fun hsingle => ?_⟩
  · have hlength := hreports.length_eq.symm.trans hall.length_eq
    exact (length_flatMap_take_one _).2.1 (Nat.add_right_cancel hlength)
  · unfold nestedFunctions
    rw [← flatMap_take_one_eq_flatten hsingle]
    exact hreports

/-- Where the violations of a text stand, if it is read: the first functions in bodies, all functions in
bodies, and the late imports. -/
def violationsOf? (source : String) : Option (List Position × List Position × List Position) :=
  match Tree.ofSource "main" source with
  | .error _ => none
  | .ok p =>
    let code := (p.number 0).1.nodes
    some ((leadingFunctions (deepAll code)).map Node.position,
      (nestedFunctions code).map Node.position, (lateNodes code).map Node.position)

theorem exists_of_violationsOf? (source : String) {first all late : List Position}
    (h : violationsOf? source = some (first, all, late)) :
    ∃ p, Tree.ofSource "main" source = .ok p ∧
      (leadingFunctions (deepAll (p.number 0).1.nodes)).map Node.position = first ∧
      (nestedFunctions (p.number 0).1.nodes).map Node.position = all ∧
      (lateNodes (p.number 0).1.nodes).map Node.position = late := by
  unfold violationsOf? at h
  cases hread : Tree.ofSource "main" source with
  | error errors => rw [hread] at h; cases h
  | ok p =>
    rw [hread] at h
    cases h
    exact ⟨p, rfl, rfl, rfl, rfl⟩

/-- A function with others in it, one of which has two, and imports in three places. -/
def scattered : String :=
  "import <io> def f { { def g { import <a> def h { } def i { } } } 1 } import <b>"

theorem analyse_reports_scattered : ∃ p, Tree.ofSource "main" scattered = .ok p ∧
    Reports (analyse (p.number 0).1).errors (leadingFunctions (deepAll (p.number 0).1.nodes))
      (lateNodes (p.number 0).1.nodes) ∧
    (leadingFunctions (deepAll (p.number 0).1.nodes)).map Node.position = [⟨1, 27⟩, ⟨1, 46⟩] ∧
    (lateNodes (p.number 0).1.nodes).map Node.position = [⟨1, 31⟩, ⟨1, 70⟩] := by
  have hviolations : violationsOf? scattered =
      some ([⟨1, 27⟩, ⟨1, 46⟩], [⟨1, 27⟩, ⟨1, 46⟩, ⟨1, 56⟩], [⟨1, 31⟩, ⟨1, 70⟩]) := by
    decide +kernel
  obtain ⟨p, hread, hfirst, -, hlate⟩ := exists_of_violationsOf? scattered hviolations
  exact ⟨p, hread, (analyse_reports hread 0).1, hfirst, hlate⟩

/-- Two functions in the body of a third. -/
def neighbours : String :=
  "def f { def g { } def h { } }"

/-- **The second function in a body is not reported.** -/
theorem neighbours_unreported : ∃ p, Tree.ofSource "main" neighbours = .ok p ∧
    (nestedFunctions (p.number 0).1.nodes).map Node.position = [⟨1, 13⟩, ⟨1, 23⟩] ∧
    (analyse (p.number 0).1).errors.length = 1 ∧
    ¬Reports (analyse (p.number 0).1).errors (nestedFunctions (p.number 0).1.nodes)
      (lateNodes (p.number 0).1.nodes) := by
  have hviolations : violationsOf? neighbours = some ([⟨1, 13⟩], [⟨1, 13⟩, ⟨1, 23⟩], []) := by
    decide +kernel
  obtain ⟨p, hread, hfirst, hall, hlate⟩ := exists_of_violationsOf? neighbours hviolations
  have hcode : Node.AllIn Node.Read (p.number 0).1.nodes :=
    Node.allIn_read_numberAll 0 p.nodes (Tree.allIn_read_of_ofSource hread)
  have hfirst' := congrArg List.length hfirst
  have hall' := congrArg List.length hall
  have hlate' := congrArg List.length hlate
  simp only [List.length_map, List.length_cons, List.length_nil] at hfirst' hall' hlate'
  have hreports := (reports_leadingFunctions hcode).length_eq
  rw [hfirst', hlate'] at hreports
  refine ⟨p, hread, hall, hreports, fun h => ?_⟩
  have hlength := h.length_eq
  rw [hreports, hall', hlate'] at hlength
  cases hlength

end Scope

end Catena
