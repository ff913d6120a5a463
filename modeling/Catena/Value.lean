import Catena.Diagnostic
import Catena.Tree.Node

/-!
# Values

A value is a literal, a sequence (a block of code not yet run) or an array. Arrays hold literals of
one type; the type is fixed by the first item and free again once the array is empty.
-/

namespace Catena

/-- The type of a literal. -/
def Literal.type : Literal → ValueType
  | .number _ => .number
  | .string _ => .string
  | .boolean _ => .boolean

/-- The text of a literal as a value, with a number in its display form. -/
def Literal.display : Literal → String
  | .number n => Number.display n
  | .string s => s
  | .boolean b => booleanText b

/-- A block of code as a value. Running it replays its nodes against the stack and the namespace
that are current then. -/
structure Sequence where
  /-- The identity of the block: sequences are the same if they share it. -/
  block : NodeId
  body : Code

/-- How a sequence is shown. -/
def Sequence.display (s : Sequence) : String :=
  s!"seq({s.body.length} nodes)"

/-- A list of literals of one type. -/
structure TypedArray where
  /-- The type of the items, while there are any. -/
  element : Option ValueType := none
  items : Array Literal := #[]

/-- A value of the language. -/
inductive Value
  | literal (l : Literal)
  | sequence (s : Sequence)
  | array (a : TypedArray)

namespace TypedArray

/-- The type of the items; of an empty array, `any`. -/
def elementType (a : TypedArray) : ValueType :=
  a.element.getD .any

/-- How an array is shown. -/
def display (a : TypedArray) : String :=
  "array type='" ++ a.elementType.name ++ "' values=["
    ++ String.intercalate ", " (a.items.toList.map Literal.display) ++ "]"

end TypedArray

namespace Value

/-- A number as a value. -/
def number (n : Float) : Value := literal (.number n)

/-- A string as a value. -/
def string (s : String) : Value := literal (.string s)

/-- A boolean as a value. -/
def boolean (b : Bool) : Value := literal (.boolean b)

/-- The type of a value. -/
def type : Value → ValueType
  | literal l => l.type
  | sequence _ => .sequence
  | array _ => .array

/-- The number that a value is. -/
def number? : Value → Option Float
  | literal (.number n) => some n
  | _ => none

/-- The string that a value is. -/
def string? : Value → Option String
  | literal (.string s) => some s
  | _ => none

/-- The boolean that a value is. -/
def boolean? : Value → Option Bool
  | literal (.boolean b) => some b
  | _ => none

/-- The sequence that a value is. -/
def sequence? : Value → Option Sequence
  | sequence s => some s
  | _ => none

/-- The array that a value is. -/
def array? : Value → Option TypedArray
  | array a => some a
  | _ => none

/-- The literal that writes a value. -/
def literal? : Value → Option Literal
  | literal l => some l
  | _ => none

/-- How programs print a value. -/
def display : Value → String
  | literal l => l.display
  | sequence s => s.display
  | array a => a.display

/-- How a value is shown inside the description of a binding: strings stand between quotes. -/
def describe : Value → String
  | literal (.string s) => "\"" ++ s ++ "\""
  | value => value.display

/-- Whether two values are the same. Sequences are the same if they are one block, arrays if their
items are, and a number that is not a number differs from itself. -/
def same : Value → Value → Bool
  | literal a, literal b => a.same b
  | sequence a, sequence b => a.block == b.block
  | array a, array b =>
    a.items.size == b.items.size
      && (a.items.toList.zip b.items.toList).all fun pair => pair.1.same pair.2
  | _, _ => false

end Value

namespace TypedArray

/-- The array of the given values, which must be literals of one type. -/
def ofValues (values : List Value) : Except RuntimeError TypedArray :=
  match values with
  | [] => .ok {}
  | first :: _ =>
    if values.any (·.type != first.type) then .error .mixedArray
    else match values.mapM Value.literal? with
      | some items => .ok { element := some first.type, items := items.toArray }
      | none => .error .invalidElement

/-- The array of the given literals, which must be of one type. -/
def ofLiterals (literals : List Literal) : Except RuntimeError TypedArray :=
  ofValues (literals.map .literal)

/-- Refuses a value of another type than that of the items. -/
def check (a : TypedArray) (value : Value) : Except RuntimeError Unit :=
  if a.elementType = value.type then .ok ()
  else .error (.wrongElement a.elementType value.type)

/-- Adds a value at the end. An empty array takes any literal and has its type from then on. -/
def push (a : TypedArray) (value : Value) : Except RuntimeError TypedArray :=
  match value.literal? with
  | some item =>
    if a.items.isEmpty || a.elementType = item.type then
      .ok { element := some item.type, items := a.items.push item }
    else .error (.wrongElement a.elementType item.type)
  | none =>
    if a.items.isEmpty then .error .invalidElement
    else .error (.wrongElement a.elementType value.type)

/-- Takes the last item off. -/
def pop (a : TypedArray) : Option Value × TypedArray :=
  let items := a.items.pop
  (a.items.back?.map .literal, { element := if items.isEmpty then none else a.element, items })

/-- The item at an index. -/
def get? (a : TypedArray) (index : Nat) : Option Value :=
  a.items[index]?.map .literal

/-- Replaces the item at an index. The type is checked also where there is no such item. -/
def set (a : TypedArray) (index : Nat) (value : Value) : Except RuntimeError TypedArray :=
  match a.check value, value.literal? with
  | .error error, _ => .error error
  | .ok _, some item => .ok { a with items := a.items.setIfInBounds index item }
  | .ok _, none => .ok a

end TypedArray

end Catena
