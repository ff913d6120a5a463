import Catena.Action
import Catena.Dependency
import Catena.OrderedMap

/-!
# Searching for circles

The imports between files once more, kept for a search that goes from file to file. Files are numbered
in the order in which their names come up, and the root is number zero. A search marks the files that
it comes to: a file is in progress until everything that it leads to has been searched, and a way that
comes back to a file in progress goes in a circle. A search that finds a circle gives up at once and
leaves its marks behind; the next one takes them off before it starts.
-/

namespace Catena

/-- How far a search has come with a file. -/
inductive Progress
  | unmarked
  | inProgress
  | finished
  deriving DecidableEq

/-- A file of the graph: the numbers of the files that it imports, in order, and its mark. -/
structure SearchNode where
  imports : List Nat := []
  progress : Progress := .unmarked

/-- Why a search stops. -/
inductive SearchEnd
  /-- There is a circle. -/
  | circle
  /-- The fuel was used up. -/
  | exhausted

/-- A step of a search. What it changes are marks. -/
abbrev Search := Action (Array SearchNode) SearchEnd

namespace Search

open Catena.Action

/-- The file with the given number; one that was never numbered imports nothing. -/
def nodeAt (nodes : Array SearchNode) (i : Nat) : SearchNode :=
  nodes.getD i {}

/-- The nodes with a new mark on one of them. -/
def marked (i : Nat) (progress : Progress) (nodes : Array SearchNode) : Array SearchNode :=
  nodes.modify i fun node => { node with progress }

/-- Does the same with some numbers, one after the other. -/
def each (f : Nat → Search Unit) : List Nat → Search Unit
  | [] => pure ()
  | i :: rest => do
    f i
    each f rest

/-- Searches everything that a file leads to, with fuel for `fuel` files on the way. -/
def visit : Nat → Nat → Search Unit
  | 0, _ => stop .exhausted
  | fuel + 1, i => do
    let node := nodeAt (← state) i
    match node.progress with
    | .finished => pure ()
    | .inProgress => stop .circle
    | .unmarked => do
      change (marked i .inProgress)
      each (visit fuel) node.imports
      change (marked i .finished)

/-- Starts a search at a file that no search has come to. -/
def visitUnmarked (fuel i : Nat) : Search Unit := do
  if (nodeAt (← state) i).progress = .unmarked then visit fuel i

/-- The nodes without marks. -/
def unmark (nodes : Array SearchNode) : Array SearchNode :=
  nodes.map fun node => { node with progress := .unmarked }

end Search

/-- The imports between numbered files. -/
structure SearchGraph where
  /-- The number of each name. -/
  index : OrderedMap String Nat := {}
  nodes : Array SearchNode := #[]
  /-- Whether some file imports the root. -/
  closed : Bool := false

namespace SearchGraph

/-- The number of a name, which is a new one if the name has not come up before. -/
def number (g : SearchGraph) (name : String) : Nat × SearchGraph :=
  match g.index.get? name with
  | some i => (i, g)
  | none =>
    (g.nodes.size,
      { g with index := g.index.insert name g.nodes.size, nodes := g.nodes.push {} })

/-- The graph of a root without imports. -/
def ofRoot (root : String) : SearchGraph :=
  (({} : SearchGraph).number root).2

/-- Adds an import between numbered files. -/
def link (g : SearchGraph) (i j : Nat) : SearchGraph :=
  { g with nodes := g.nodes.modify i fun node => { node with imports := node.imports ++ [j] } }

/-- Records that `file` imports `imported`. Nothing more is recorded once the root is imported. -/
def add (g : SearchGraph) (file imported : String) : SearchGraph :=
  if g.closed then g
  else
    let (i, g) := g.number file
    let (j, g) := g.number imported
    if j = 0 then { g with closed := true } else g.link i j

/-- Searches for a circle: whether there is one, and the graph with the marks of the search. There is
no answer if the search runs out of fuel. -/
def search (g : SearchGraph) : Option Bool × SearchGraph :=
  if g.closed then (some true, g)
  else
    let size := g.nodes.size
    match (Search.each (Search.visitUnmarked (size + 1)) (List.range size)).run
        (Search.unmark g.nodes) with
    | .done _ nodes => (some false, { g with nodes })
    | .stopped .circle nodes => (some true, { g with nodes })
    | .stopped .exhausted nodes => (none, { g with nodes })

end SearchGraph

end Catena
