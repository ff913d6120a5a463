import Catena.Text.Blank
import Catena.Text.Quoted
import Catena.Tree.Node

/-!
# Program trees as text

A tree is printed as nested lists, one node to a line, each line indented by its depth. Names are
those of the source text. A module, other than the program itself, is wrapped in its name.
-/

namespace Catena

/-- A line of an outline: how deep it is indented, and what stands on it. -/
structure OutlineLine where
  depth : Nat
  text : String

/-- A literal as it is printed: a number in its display form, a string between quotes. -/
def Literal.outline : Literal → String
  | .number n => Number.display n
  | .string s => Text.Quoted.encode s
  | .boolean b => booleanText b

namespace Node

variable {ι : Type}

/-- The line of an item in parentheses. -/
def line (depth : Nat) (text : String) : OutlineLine :=
  { depth, text := "(" ++ text ++ ")" }

/-- A heading, lines below it, and the parenthesis that closes it. -/
def wrapped (depth : Nat) (heading : String) (body : List OutlineLine) : List OutlineLine :=
  { depth, text := "(" ++ heading } :: body ++ [{ depth, text := ")" }]

/-- The text of a literal node: a string as it was written, anything else by its value. -/
def literalText (token : Token) : Literal → String
  | .string _ => token.lexeme
  | value => value.outline

/-- The lines between an import and its closing parenthesis. -/
def importLines (depth : Nat) (request : Import) : List OutlineLine :=
  (if request.targets.isEmpty then []
    else [line depth ("TARGET " ++ String.intercalate " " request.targets)])
    ++ [line depth ("FROM " ++ request.source)]
    ++ (match request.rename with
      | some name => [line depth ("AS " ++ name)]
      | none => [])

mutual

/-- The lines of a node at the given depth. -/
def outline (depth : Nat) : Node ι → List OutlineLine
  | literal m value => [line depth (m.token.kind.name ++ " " ++ literalText m.token value)]
  | arithmetic m _ =>
    [line depth ("BINARY_OPERATOR " ++ m.token.kind.name ++ " " ++ m.token.lexeme)]
  | comparison m _ =>
    [line depth ("COMPARISON (" ++ m.token.kind.name ++ " " ++ m.token.lexeme ++ ")")]
  | condition m _ => [line depth ("CONDITION " ++ m.token.kind.name)]
  | sequence m _ body =>
    wrapped depth ("SEQUENCE " ++ m.token.kind.name) (outlineAll (depth + 1) body)
  | definition _ signature body =>
    wrapped depth "DEF"
      (line (depth + 1) ("IDENTIFIER " ++ signature.name) :: outlineAll (depth + 2) body)
  | identifier m (some qualifier) name =>
    [line depth (m.token.kind.name ++ " " ++ qualifier.lexeme ++ "." ++ name)]
  | identifier m none name => [line depth (m.token.kind.name ++ " " ++ name)]
  | importing _ request => wrapped depth "IMPORT" (importLines (depth + 1) request)
  | binding _ name _ => [line depth ("LET " ++ name)]
  | array _ items => [line depth (String.intercalate " " ("ARRAY" :: items.map Literal.outline))]
  | program _ info nodes =>
    if info.isRoot then outlineAll depth nodes
    else wrapped depth ("PROGRAM " ++ info.name) (outlineAll (depth + 1) nodes)

/-- The lines of a list of nodes at the given depth. -/
def outlineAll (depth : Nat) : List (Node ι) → List OutlineLine
  | [] => []
  | node :: rest => outline depth node ++ outlineAll depth rest

end

end Node

/-- A line with its indentation and its end. -/
def OutlineLine.render (tab : String) (l : OutlineLine) : String :=
  String.join (List.replicate l.depth tab) ++ l.text ++ "\n"

/-- The lines of a program. -/
def Program.outline {ι : Type} (p : Program ι) : List OutlineLine :=
  if p.info.isRoot then Node.outlineAll 0 p.nodes
  else Node.wrapped 0 ("PROGRAM " ++ p.info.name) (Node.outlineAll 1 p.nodes)

/-- The printed form of a program, indented with `tab`, without blanks at its end. -/
def Program.render {ι : Type} (tab : String) (p : Program ι) : String :=
  Text.trimEnd (String.join (p.outline.map (OutlineLine.render tab)))

end Catena
