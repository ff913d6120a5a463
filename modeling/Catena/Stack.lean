import Catena.Value

/-!
# The operand stack

Values are pushed and popped at the top. A typed pop takes the value off also when it has another
type. Before a call the stack is checked against the types that the call asks for, so that its pops
do not fail.
-/

namespace Catena

/-- The operand stack, top first. -/
structure Stack where
  items : List Value := []

namespace Stack

/-- The number of values. -/
def size (s : Stack) : Nat :=
  s.items.length

/-- Whether there is no value. -/
def isEmpty (s : Stack) : Bool :=
  s.items.isEmpty

/-- The value at the top. -/
def peek? (s : Stack) : Option Value :=
  s.items.head?

/-- The stack with `value` on top. -/
def push (s : Stack) (value : Value) : Stack :=
  { items := value :: s.items }

/-- Takes the top value off; gives it, or the error of an empty stack, and the stack after it. -/
def pop (s : Stack) : Except RuntimeError Value × Stack :=
  match s.items with
  | [] => (.error .underflow, s)
  | value :: rest => (.ok value, { items := rest })

/-- Takes the top value off and reads it as a value of type `expected`. -/
def popAs {α : Type} (expected : ValueType) (read? : Value → Option α) (s : Stack) :
    Except RuntimeError α × Stack :=
  match s.pop with
  | (.error error, rest) => (.error error, rest)
  | (.ok value, rest) =>
    match read? value with
    | some a => (.ok a, rest)
    | none => (.error (.wrongType expected value.type), rest)

/-- Takes a number off. -/
def popNumber : Stack → Except RuntimeError Float × Stack := popAs .number Value.number?

/-- Takes a boolean off. -/
def popBoolean : Stack → Except RuntimeError Bool × Stack := popAs .boolean Value.boolean?

/-- Takes a string off. -/
def popString : Stack → Except RuntimeError String × Stack := popAs .string Value.string?

/-- Takes a sequence off. -/
def popSequence : Stack → Except RuntimeError Sequence × Stack := popAs .sequence Value.sequence?

/-- Takes an array off. -/
def popArray : Stack → Except RuntimeError TypedArray × Stack := popAs .array Value.array?

/-- Whether a list has at least `n` members; stops looking after `n`. -/
def atLeast {α : Type} : Nat → List α → Bool
  | 0, _ => true
  | _ + 1, [] => false
  | n + 1, _ :: rest => atLeast n rest

theorem atLeast_iff {α : Type} (n : Nat) (l : List α) : atLeast n l = true ↔ n ≤ l.length := by
  induction n generalizing l with
  | zero => simp [atLeast]
  | succ n ih => cases l <;> simp [atLeast, ih]

/-- Whether the values at the top have the expected types, as far as both lists go. -/
def accepts : List ValueType → List Value → Bool
  | expected :: types, value :: values => expected.accepts value.type && accepts types values
  | _, _ => true

/-- Fails with `cause` unless there are at least `n` values. -/
def requireSize {ε : Type} (s : Stack) (n : Nat) (cause : ε) : Except ε Unit :=
  if atLeast n s.items then .ok () else .error cause

/-- The error of a stack that does not have the expected shape. -/
def shapeError (s : Stack) (check : Check) (aspect : Aspect) (expected : List ValueType)
    (lexeme : String) : RuntimeError :=
  .shape { check, aspect, lexeme, expected, found := s.items.map Value.type }

/-- Checks the top of the stack against the types that the call `lexeme` asks for, top first. -/
def requireShape (s : Stack) (check : Check) (expected : List ValueType) (lexeme : String) :
    Except RuntimeError Unit :=
  if !atLeast expected.length s.items then .error (s.shapeError check .length expected lexeme)
  else if !accepts expected s.items then .error (s.shapeError check .type expected lexeme)
  else .ok ()

/-- The stack as text, from the top down. -/
def display (s : Stack) : String :=
  "Stack\x7b\n--Top--\n" ++ String.join (s.items.map fun v => "\t" ++ v.display ++ "\n")
    ++ "-- Bottom --\n\x7d"

end Stack

end Catena
