import Catena.Diagnostic
import Catena.Tree.Node

/-!
# Scopes

A `let` inside a function is local to the function: its name is changed to one that carries the name
of the function, and so are the uses of it that follow in the same body. A sequence made inside the
function then finds the binding also when it is run outside of it, in the same namespace. New names
are kept in a table beside the tree, keyed by the numbers of the nodes.

Nodes are known by the words of their numbers, which come round. Once they have, nodes of different
programs share names (`ScopeTable.comeRound`).

Two things are refused: a function inside a function, and an import after anything else.
-/

namespace Catena

/-- Stands between the name of a function and that of its local; no identifier contains it. -/
def localMark : String := "$"

/-- The name of the local `name` of `function`. -/
def localName (function name : String) : String :=
  function ++ localMark ++ name

/-- The numbers before `next` with the same word as `id`. -/
def sharing (next id : NodeId) : List NodeId :=
  ((List.range (next / wordCount + 1)).map fun turn => wordOf id + turn * wordCount).filter (· < next)

/-- The names given to nodes, the latest first. A node without an entry keeps its name. -/
structure ScopeTable where
  names : List (NodeId × String) := []

namespace ScopeTable

/-- The name of a node whose name in the text is `written`. -/
def nameOf (t : ScopeTable) (id : NodeId) (written : String) : String :=
  (t.names.lookup id).getD written

/-- The number of nodes that have been given a name. -/
def size (t : ScopeTable) : Nat :=
  t.names.length

/-- Adds the names of a later table. -/
def extend (t later : ScopeTable) : ScopeTable :=
  { names := later.names ++ t.names }

/-- Gives each number before `next` the name that its word was given last. -/
def spread (t : ScopeTable) (next : NodeId) : ScopeTable :=
  { names := t.names.flatMap fun (id, name) => (sharing next id).map (·, name) }

/-- The table as a program finds it that has the names `later` and numbers before `next`. As long as the
words have not come round, it is the table that was there. The program itself has no two nodes with the
same word. -/
def comeRound (t later : ScopeTable) (next : NodeId) : ScopeTable :=
  if next ≤ wordCount + 1 then t else (t.extend later).spread next

end ScopeTable

namespace Scope

/-- What has been found out about names on the way through a program. -/
structure Resolver where
  /-- The function whose body is being visited. -/
  function : Option String := none
  /-- New names of the locals seen so far in the body, the latest first. -/
  locals : List (String × String) := []
  /-- Names bound outside functions. -/
  topLevel : List String := []
  table : ScopeTable := {}
  errors : List Diagnostic := []
  notices : List Diagnostic := []

namespace Resolver

/-- Gives a node a new name. -/
def rename (r : Resolver) (id : NodeId) (name : String) : Resolver :=
  { r with table := { names := (id, name) :: r.table.names } }

/-- Enters the body of a function. -/
def enter (r : Resolver) (m : Mark NodeId) (signature : Signature) : Resolver :=
  let errors :=
    match r.function with
    | some _ => r.errors ++ [Diagnostic.located (.scope .nestedFunction) m.token.position]
    | none => r.errors
  { r with function := some signature.name, errors }

/-- Leaves the body of a function and forgets its locals. -/
def leave (r : Resolver) : Resolver :=
  { r with function := none, locals := [] }

/-- A use of a name without a qualifier. -/
def use (r : Resolver) (m : Mark NodeId) (name : String) : Resolver :=
  match r.locals.lookup name with
  | some renamed => r.rename m.tag renamed
  | none => r

/-- A `let`: local inside a function, with a notice if it hides a name bound outside. -/
def bind (r : Resolver) (m : Mark NodeId) (name : String) : Resolver :=
  match r.function with
  | none => { r with topLevel := name :: r.topLevel }
  | some function =>
    let renamed := localName function name
    let notices :=
      if r.topLevel.contains name then
        r.notices
          ++ [Diagnostic.located (.scope (.shadowedLet name function renamed)) m.token.position]
      else r.notices
    { r.rename m.tag renamed with locals := (name, renamed) :: r.locals, notices }

end Resolver

mutual

/-- Visits a node and, depth first, what is inside it. -/
def visit (r : Resolver) : Node NodeId → Resolver
  | .sequence _ _ body => visitAll r body
  | .definition m signature body => (visitAll (r.enter m signature) body).leave
  | .identifier m none name => r.use m name
  | .binding m name _ => r.bind m name
  | _ => r

/-- Visits nodes in order. -/
def visitAll (r : Resolver) : Code → Resolver
  | [] => r
  | node :: rest => visitAll (visit r node) rest

end

mutual

/-- Whether imports may still follow a node, and the imports in it that stand too late. -/
def lateImports (allowed : Bool) : Node NodeId → Bool × List Diagnostic
  | .importing m _ =>
    (allowed, if allowed then []
      else [Diagnostic.located (.scope .misplacedImport) m.token.position])
  | .program .. => (allowed, [])
  | .sequence _ _ body => (false, (lateImportsAll false body).2)
  | .definition _ _ body => (false, (lateImportsAll false body).2)
  | _ => (false, [])

/-- The same for nodes in order. -/
def lateImportsAll (allowed : Bool) : Code → Bool × List Diagnostic
  | [] => (allowed, [])
  | node :: rest =>
    let first := lateImports allowed node
    let others := lateImportsAll first.1 rest
    (others.1, first.2 ++ others.2)

end

/-- What is known of the scopes of a program. -/
structure Analysis where
  table : ScopeTable
  errors : List Diagnostic
  notices : List Diagnostic

/-- Whether the program is refused. -/
def Analysis.failed (a : Analysis) : Bool :=
  !a.errors.isEmpty

/-- Whether `d` stands at or before `e`; a diagnostic without a place stands before all others. -/
def inOrder (d e : Diagnostic) : Bool :=
  match d.position, e.position with
  | none, _ => true
  | some _, none => false
  | some p, some q => p.atOrBefore q

/-- Resolves the names of a program and checks where its imports stand. Errors are listed in the
order of the text. -/
def analyse (p : Program NodeId) : Analysis :=
  let resolved := visitAll {} p.nodes
  { table := resolved.table
    errors := (resolved.errors ++ (lateImportsAll true p.nodes).2).mergeSort inOrder
    notices := resolved.notices }

/-- A place where a program binds or uses a name. -/
structure Occurrence where
  isBinding : Bool
  written : String
  id : NodeId
  position : Position

mutual

/-- The names bound and used in a node, depth first in the order of the text. -/
def occurrences : Node NodeId → List Occurrence
  | .sequence _ _ body => occurrencesAll body
  | .definition _ _ body => occurrencesAll body
  | .identifier m _ name => [⟨false, name, m.tag, m.token.position⟩]
  | .binding m name _ => [⟨true, name, m.tag, m.token.position⟩]
  | _ => []

/-- The same for nodes in order. -/
def occurrencesAll : Code → List Occurrence
  | [] => []
  | node :: rest => occurrences node ++ occurrencesAll rest

end

end Scope

end Catena
