import Catena.Interpreter
import Catena.Text.Case
import Catena.Text.Substitution

/-!
# What the native functions do

Functions that run code are given `run`, which runs a block, and `rounds`, a bound on the number of
times that a loop may go round. A function that prints or reads needs access to the stream.
-/

namespace Catena.Library

open Catena.Action Catena.Eval

/-- Writes text to the output. -/
def write (access : Access) (text : String) : Eval Unit :=
  if access.output then onConsole (·.write text) .writeFailed else fail .noOutput

/-- Reads a line of input without its line end. -/
def readLine (access : Access) : Eval String :=
  if access.input then do
    let line ← onConsole Console.readLine .readFailed
    return String.ofList (Text.dropEndWhile (fun c => c == '\r' || c == '\n') line.toList)
  else fail .noInput

/-- Puts a second copy of the top value on the stack. -/
def dup : Eval Unit := do
  let top ← onStack Stack.pop
  push top
  push top

/-- Puts second copies of the two top values on the stack. -/
def dup2 : Eval Unit := do
  let top ← onStack Stack.pop
  let second ← onStack Stack.pop
  push second
  push top
  push second
  push top

/-- Takes the top value off. -/
def discard : Eval Unit := do
  let _ ← onStack Stack.pop

/-- Exchanges the two top values. -/
def swap : Eval Unit := do
  let a ← onStack Stack.pop
  let b ← onStack Stack.pop
  push a
  push b

/-- Brings the third value from the top to the top. -/
def rotate : Eval Unit := do
  let a ← onStack Stack.pop
  let b ← onStack Stack.pop
  let c ← onStack Stack.pop
  push b
  push a
  push c

/-- Prints the top value, followed by `ending`. -/
def print (access : Access) (ending : String) : Eval Unit := do
  let value ← onStack Stack.pop
  write access (value.display ++ ending)

/-- Shows a prompt and reads a line. -/
def ask (access : Access) : Eval String := do
  let prompt ← onStack Stack.popString
  write access prompt
  readLine access

/-- Asks for a number. -/
def inputNumber (access : Access) : Eval Unit := do
  let line ← ask access
  match Number.ofText? (Text.trim line) with
  | some n => push (.number n)
  | none => fail (.notNumeric line)

/-- Asks for a string. -/
def inputString (access : Access) : Eval Unit := do
  push (.string (← ask access))

/-- Runs a sequence. -/
def exec (run : Code → Eval Unit) : Eval Unit := do
  let sequence ← onStack Stack.popSequence
  run sequence.body

/-- Runs `round` as long as `times` is positive, counting it down by one. -/
def rounds (round : Eval Unit) : Nat → Float → Eval Unit
  | 0, times => if times > 0.0 then stop .exhausted else pure ()
  | limit + 1, times => do
    if times > 0.0 then
      round
      rounds round limit (times - 1.0)

/-- Runs a sequence the given number of times; a fraction counts as one time more. -/
def repeated (limit : Nat) (run : Code → Eval Unit) : Eval Unit := do
  let sequence ← onStack Stack.popSequence
  let times ← onStack Stack.popNumber
  rounds (run sequence.body) limit times

/-- The node that pushes a value when it is run. -/
def pushing (id : NodeId) : Value → Except RuntimeError (Node NodeId)
  | .sequence s =>
    .ok (.sequence ⟨id, ⟨.symbol .leftBrace, Symbol.leftBrace.text, .synthetic⟩⟩ s.block s.body)
  | .array a =>
    .ok (.array ⟨id, ⟨.symbol .leftBracket, Symbol.leftBracket.text, .synthetic⟩⟩ a.items.toList)
  | value =>
    match value.literal? with
    | some l => .ok (.literal ⟨id, ⟨.literal l, value.display, .synthetic⟩⟩ l)
    | none => .error (.cannotCurry value.type)

/-- Puts the value below a sequence in front of the code of the sequence. -/
def curry : Eval Unit := do
  let sequence ← onStack Stack.popSequence
  let value ← onStack Stack.pop
  let id ← freshId
  let node ← demand (pushing id value)
  push (.sequence { block := id, body := node :: sequence.body })

/-- Pushes the number of items of an array and leaves the array. -/
def arrayLength : Eval Unit := do
  let value ← onStack Stack.pop
  push value
  push (.number (Float.ofNat ((value.array?.map (·.items.size)).getD 0)))

/-- Adds the top value to the array below it. -/
def arrayPush : Eval Unit := do
  let value ← onStack Stack.pop
  let array ← onStack Stack.popArray
  push (.array (← demand (array.push value)))

/-- Takes the last item off an array and pushes it above the array. -/
def arrayPop : Eval Unit := do
  let array ← onStack Stack.popArray
  match array.pop with
  | (some item, array) => do
    push (.array array)
    push item
  | (none, array) => do
    push (.array array)
    fail .emptyArray

/-- Runs `code` on each item in turn, from `index` on, and puts what it leaves on top in the place
of the item. -/
def mapItems (code : Eval Unit) (array : TypedArray) : Nat → List Literal → Eval TypedArray
  | _, [] => pure array
  | index, item :: rest => do
    push (.literal item)
    code
    let mapped ← onStack Stack.pop
    mapItems code (← demand (array.set index mapped)) (index + 1) rest

/-- Replaces each item of an array by what a sequence makes of it. -/
def arrayMap (run : Code → Eval Unit) : Eval Unit := do
  let sequence ← onStack Stack.popSequence
  let array ← onStack Stack.popArray
  push (.array (← mapItems (run sequence.body) array 0 array.items.toList))

/-- Replaces the string on top by a string made from it. -/
def changeString (f : String → String) : Eval Unit := do
  let s ← onStack Stack.popString
  push (.string (f s))

/-- The text `s` from its last character to its first. -/
def reverseText (s : String) : String :=
  String.ofList s.toList.reverse

/-- The placeholder with the given number. -/
def placeholder (index : Nat) : List Char :=
  '\x7b' :: Nat.toDigits 10 index ++ ['\x7d']

/-- Fills the placeholders of a template with values, one number after the other, as long as the
next placeholder occurs. Text that has been filled in is searched for the placeholders that follow.
Gives the values that are left too; `none` if there are too few. -/
def fill (index : Nat) (template : List Char) : List Value → Option (List Char × List Value)
  | [] => if Text.occursIn (placeholder index) template then none else some (template, [])
  | value :: rest =>
    if Text.occursIn (placeholder index) template then
      fill (index + 1) (Text.replaceAll (placeholder index) value.display.toList template) rest
    else some (template, value :: rest)

/-- Takes the value on top and fills its placeholders with the values below it, which are taken
too. -/
def formatTop (stack : Stack) : Except RuntimeError Value × Stack :=
  match stack.items with
  | [] => (.error .formatUnderflow, stack)
  | template :: values =>
    match fill 0 template.display.toList values with
    | some (text, rest) => (.ok (.string (String.ofList text)), { items := rest })
    | none => (.error .formatUnderflow, {})

/-- Pushes the value on top with its placeholders filled. -/
def format : Eval Unit := do
  push (← onStack formatTop)

/-- Takes the next number of the random source. -/
def draw : Eval Float :=
  ⟨fun s => .done s.random.next.1 { s with random := s.random.next.2 }⟩

/-- Pushes a number between two bounds. -/
def random : Eval Unit := do
  let max ← onStack Stack.popNumber
  let min ← onStack Stack.popNumber
  let r ← draw
  push (.number (min + r * (max - min)))

/-- Rounds a number down. -/
def floor : Eval Unit := do
  let n ← onStack Stack.popNumber
  push (.number n.floor)

/-- Prints the whole stack. -/
def printStack (access : Access) : Eval Unit := do
  write access ((← state).stack.display ++ "\n")

/-- Prints the top value and leaves it. -/
def printArray (access : Access) : Eval Unit := do
  write access (((← state).stack.peek?.map Value.display).getD "")

/-- Does what a native function does. `limit` bounds its loops and `run` runs a block. -/
def perform (limit : Nat) (run : Code → Eval Unit) (access : Access) : Native → Eval Unit
  | .dup => dup
  | .dup2 => dup2
  | .discard => discard
  | .swap => swap
  | .rotate => rotate
  | .print => print access ""
  | .println => print access "\n"
  | .inputNumber => inputNumber access
  | .inputString => inputString access
  | .exec => exec run
  | .repeated => repeated limit run
  | .curry => curry
  | .arrayLength => arrayLength
  | .arrayPush => arrayPush
  | .arrayPop => arrayPop
  | .arrayMap => arrayMap run
  | .lower => changeString Text.toLower
  | .upper => changeString Text.toUpper
  | .reverse => changeString reverseText
  | .format => format
  | .random => random
  | .floor => floor
  | .printStack => printStack access
  | .printArray => printArray access

end Catena.Library
