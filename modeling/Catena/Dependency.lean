/-!
# Dependencies between files

Which file imports which. Imports must not go in circles. An import of the file that everything
started from closes the graph: it is then known to be circular, and nothing more is recorded.

Circles are found by peeling: an edge into a node that has no outgoing edge lies on no circle and is
taken away, until no such edge is left. What remains, if anything, is circles and the ways between
them.
-/

namespace Catena

/-- An edge from a file to a file that it imports. -/
abbrev Dependency := String × String

/-- The imports between files, starting from one of them. -/
structure DependencyGraph where
  root : String
  edges : List Dependency := []
  /-- Whether some file imports the root. -/
  closed : Bool := false

namespace DependencyGraph

/-- Whether some edge starts at `name`. -/
def hasSource (edges : List Dependency) (name : String) : Bool :=
  edges.any (·.1 == name)

/-- The edges that lead to the source of an edge. -/
def peel (edges : List Dependency) : List Dependency :=
  edges.filter fun edge => hasSource edges edge.2

/-- Peels until nothing changes. -/
def core (edges : List Dependency) : List Dependency :=
  if (peel edges).length < edges.length then core (peel edges) else edges
termination_by edges.length

/-- Records that `file` imports `imported`. -/
def add (g : DependencyGraph) (file imported : String) : DependencyGraph :=
  if g.closed then g
  else if imported == g.root then { g with closed := true }
  else { g with edges := g.edges ++ [(file, imported)] }

/-- Whether imports go in a circle. -/
def isCircular (g : DependencyGraph) : Bool :=
  g.closed || !(core g.edges).isEmpty

end DependencyGraph

end Catena
