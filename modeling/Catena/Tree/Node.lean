import Catena.Tree.Import
import Catena.ValueType

/-!
# Program trees

A program is a list of nodes. Each node has the token it is reported at and a tag. A tree straight
from its text has no tags; before it is run every node is numbered (`Program.number`), in the order in
which nodes are made: what is inside a node comes before the node. The nodes of all texts, and those
that are made in a run, are counted together, so a number tells a node apart for good. The block of a
sequence is known by the number of the node that it was made with.
-/

namespace Catena

/-- The arithmetic operators. -/
inductive ArithmeticOp
  | add
  | subtract
  | multiply
  | divide
  | modulo
  deriving DecidableEq

/-- The arithmetic operator that a symbol stands for. -/
def ArithmeticOp.ofSymbol? : Symbol → Option ArithmeticOp
  | .plus => some .add
  | .minus => some .subtract
  | .star => some .multiply
  | .slash => some .divide
  | .percent => some .modulo
  | _ => none

/-- The comparisons and the connectives of booleans. -/
inductive ComparisonOp
  | less
  | lessEqual
  | equal
  | notEqual
  | greater
  | greaterEqual
  | or
  | and
  deriving DecidableEq

/-- The comparison that a symbol stands for. -/
def ComparisonOp.ofSymbol? : Symbol → Option ComparisonOp
  | .less => some .less
  | .lessEqual => some .lessEqual
  | .equalEqual => some .equal
  | .notEqual => some .notEqual
  | .greater => some .greater
  | .greaterEqual => some .greaterEqual
  | .or => some .or
  | .and => some .and
  | _ => none

/-- The two conditions: one of two branches, or a single branch that may be left out. -/
inductive Condition
  | branched
  | single
  deriving DecidableEq

/-- The condition that a symbol stands for. -/
def Condition.ofSymbol? : Symbol → Option Condition
  | .question => some .branched
  | .doubleQuestion => some .single
  | _ => none

/-- The head of a function definition. Conditions list the type of the top of the stack first. -/
structure Signature where
  name : String
  isPublic : Bool
  pre : List ValueType
  post : List ValueType

/-- Whether a program belongs to the user or to the library. -/
inductive Origin
  | user
  | internal
  deriving DecidableEq

/-- What is known of a program besides its nodes. -/
structure ProgramInfo where
  /-- The namespace that the program defines. -/
  name : String
  /-- Whether the program runs in the current namespace instead of one of its own. -/
  isRoot : Bool := true
  origin : Origin := .user
  /-- The name of the file that the program was read from. -/
  file : Option String := none

/-- The key under which the public members of a program are loaded. -/
def ProgramInfo.loaderKey (info : ProgramInfo) : String :=
  match info.origin with
  | .user => info.name ++ sourceExtension
  | .internal => info.name

/-- The tag of a node and the token it is reported at. -/
structure Mark (ι : Type) where
  tag : ι
  token : Token

/-- A node of a program tree. -/
inductive Node (ι : Type)
  | literal (mark : Mark ι) (value : Literal)
  | arithmetic (mark : Mark ι) (op : ArithmeticOp)
  | comparison (mark : Mark ι) (op : ComparisonOp)
  | condition (mark : Mark ι) (form : Condition)
  /-- An unevaluated block; `block` is its identity. -/
  | sequence (mark : Mark ι) (block : ι) (body : List (Node ι))
  | definition (mark : Mark ι) (signature : Signature) (body : List (Node ι))
  /-- A use of a name, of the current namespace or of one mounted in it. -/
  | identifier (mark : Mark ι) (qualifier : Option Token) (name : String)
  | importing (mark : Mark ι) (request : Import)
  | binding (mark : Mark ι) (name : String) (isPublic : Bool)
  | array (mark : Mark ι) (items : List Literal)
  /-- An imported program, to be evaluated before what follows it. -/
  | program (mark : Mark ι) (info : ProgramInfo) (nodes : List (Node ι))

namespace Node

variable {ι : Type}

/-- The tag and the token of a node. -/
def mark : Node ι → Mark ι
  | literal m _ => m
  | arithmetic m _ => m
  | comparison m _ => m
  | condition m _ => m
  | sequence m _ _ => m
  | definition m _ _ => m
  | identifier m _ _ => m
  | importing m _ => m
  | binding m _ _ => m
  | array m _ => m
  | program m _ _ => m

/-- Where a node stands in its text. -/
def position (n : Node ι) : Position :=
  n.mark.token.position

/-- The import that a node is. -/
def import? : Node ι → Option Import
  | importing _ request => some request
  | _ => none

end Node

/-- The number of a node: how many had been made when it was made, itself included. A block has the
number of the node that it was made with. Of a number only its word is kept (`wordOf`). -/
abbrev NodeId := Nat

/-- How many words there are for the numbers of nodes: words have 32 bits. -/
def wordCount : Nat := 4294967296

/-- The word that stands for a number. It comes again after `wordCount` numbers. -/
def wordOf (id : NodeId) : Nat :=
  id % wordCount

/-- Code that can be run: a list of numbered nodes. -/
abbrev Code := List (Node NodeId)

/-- A mark with the number `n`. -/
def Mark.number (n : NodeId) (m : Mark Unit) : Mark NodeId :=
  { tag := n, token := m.token }

mutual

/-- Numbers everything below a node from `n` on, and then the node; gives the next free number too. -/
def Node.number (n : NodeId) : Node Unit → Node NodeId × NodeId
  | .literal m value => (.literal (m.number n) value, n + 1)
  | .arithmetic m op => (.arithmetic (m.number n) op, n + 1)
  | .comparison m op => (.comparison (m.number n) op, n + 1)
  | .condition m form => (.condition (m.number n) form, n + 1)
  | .sequence m _ body =>
    let numbered := Node.numberAll n body
    (.sequence (m.number numbered.2) numbered.2 numbered.1, numbered.2 + 1)
  | .definition m signature body =>
    let numbered := Node.numberAll n body
    (.definition (m.number numbered.2) signature numbered.1, numbered.2 + 1)
  | .identifier m qualifier name => (.identifier (m.number n) qualifier name, n + 1)
  | .importing m request => (.importing (m.number n) request, n + 1)
  | .binding m name isPublic => (.binding (m.number n) name isPublic, n + 1)
  | .array m items => (.array (m.number n) items, n + 1)
  | .program m info nodes =>
    let numbered := Node.numberAll n nodes
    (.program (m.number numbered.2) info numbered.1, numbered.2 + 1)

/-- Numbers a list of nodes from `n` on. -/
def Node.numberAll (n : NodeId) : List (Node Unit) → Code × NodeId
  | [] => ([], n)
  | node :: rest =>
    let first := Node.number n node
    let others := Node.numberAll first.2 rest
    (first.1 :: others.1, others.2)

end

/-- A program: its nodes and what is known of it besides. -/
structure Program (ι : Type) where
  info : ProgramInfo
  nodes : List (Node ι)

namespace Program

variable {ι : Type}

/-- The imports among the top-level nodes. -/
def imports (p : Program ι) : List Import :=
  p.nodes.filterMap Node.import?

/-- Numbers all nodes from `n` on; gives the next free number too. -/
def number (n : NodeId) (p : Program Unit) : Program NodeId × NodeId :=
  let numbered := Node.numberAll n p.nodes
  ({ info := p.info, nodes := numbered.1 }, numbered.2)

end Program

end Catena
