import Catena.Action
import Catena.Console
import Catena.Loader
import Catena.Scope
import Catena.Stack

/-!
# The state of a run

Everything that running code can see or change, and the steps that running code is made of. A step
gives a result or stops; either way it leaves a state, since what was done before a failure stays
done. Running out of fuel is kept apart from the failures of a program.
-/

namespace Catena

/-- A source of random numbers: the numbers that it has, and how many have been taken. Which numbers
they are is for those to say who start a run; nothing here depends on it. -/
structure RandomSource where
  number : Nat → Float := fun _ => 0.0
  taken : Nat := 0

/-- The next number and the source after it. -/
def RandomSource.next (r : RandomSource) : Float × RandomSource :=
  (r.number r.taken, { r with taken := r.taken + 1 })

/-- The number of nested calls that is allowed unless another limit is set. -/
def defaultMaxDepth : Nat := 20000

/-- The state of a run. -/
structure Interpreter where
  stack : Stack := {}
  /-- The namespace that names are looked up and defined in. -/
  current : NamespaceId := 0
  spaces : Namespaces := { spaces := #[{}] }
  loaders : LoaderStack := {}
  scopes : ScopeTable := {}
  /-- The file that errors belong to. -/
  file : Option String := none
  /-- The number of calls that have been entered and not left. -/
  depth : Nat := 0
  maxDepth : Nat := defaultMaxDepth
  console : Console := {}
  random : RandomSource := {}
  /-- The number of the next node. -/
  nextId : NodeId := 1

/-- Why a run stops before its end. -/
inductive Halt
  | failed (d : Diagnostic)
  | exhausted

/-- A step of a run. -/
abbrev Eval := Action Interpreter Halt

namespace Eval

open Catena.Action

variable {α : Type}

/-- Stops with a run-time error that has no place yet. -/
def fail (error : RuntimeError) : Eval α :=
  stop (.failed (Diagnostic.ofRuntime error))

/-- Goes on with a result or stops with an error. -/
def demand : Except RuntimeError α → Eval α
  | .ok a => pure a
  | .error error => fail error

/-- Does something to the operand stack. -/
def onStack (op : Stack → Except RuntimeError α × Stack) : Eval α :=
  ⟨fun s =>
    match op s.stack with
    | (.ok a, stack) => .done a { s with stack }
    | (.error error, stack) => .stopped (.failed (Diagnostic.ofRuntime error)) { s with stack }⟩

/-- Pushes a value. -/
def push (value : Value) : Eval Unit :=
  change fun s => { s with stack := s.stack.push value }

/-- Checks the stack against the types of a call. -/
def requireShape (check : Check) (types : List ValueType) (lexeme : String) : Eval Unit := do
  demand ((← state).stack.requireShape check types lexeme)

/-- Takes the number of a node that is made. -/
def freshId : Eval NodeId :=
  ⟨fun s => .done s.nextId { s with nextId := s.nextId + 1 }⟩

/-- The name that a node has in the current scopes. -/
def nameOf (id : NodeId) (written : String) : Eval String := do
  return (← state).scopes.nameOf id written

/-- Binds a name in the current namespace. -/
def define (name : String) (binding : Binding) (isPublic : Bool) : Eval Unit :=
  change fun s => { s with spaces := s.spaces.define s.current name binding isPublic }

/-- Runs `m` in another namespace and file, and comes back however `m` ends. -/
def within (home : NamespaceId) (file : Option String) (m : Eval α) : Eval α :=
  ⟨fun s =>
    let previous := s.current
    let previousFile := s.file
    match m.run { s with current := home, file } with
    | .done a s => .done a { s with current := previous, file := previousFile }
    | .stopped halt s => .stopped halt { s with current := previous, file := previousFile }⟩

/-- Runs `m` one call deeper, and comes back however `m` ends. -/
def deeper (m : Eval α) : Eval α :=
  ⟨fun s =>
    match m.run { s with depth := s.depth + 1 } with
    | .done a s => .done a { s with depth := s.depth - 1 }
    | .stopped halt s => .stopped halt { s with depth := s.depth - 1 }⟩

/-- Changes the diagnostic that `m` fails with, with the file that is current after `m`. -/
def onFailure (f : Option String → Diagnostic → Diagnostic) (m : Eval α) : Eval α :=
  ⟨fun s =>
    match m.run s with
    | .done a s => .done a s
    | .stopped (.failed d) s => .stopped (.failed (f s.file d)) s
    | .stopped .exhausted s => .stopped .exhausted s⟩

/-- Does something to the console that can fail. -/
def onConsole (op : Console → Except Fault α × Console) (error : Fault → RuntimeError) : Eval α :=
  ⟨fun s =>
    match op s.console with
    | (.ok a, console) => .done a { s with console }
    | (.error fault, console) =>
      .stopped (.failed (Diagnostic.ofRuntime (error fault))) { s with console }⟩

end Eval

namespace Diagnostic

/-- Fills in where an error happened, unless something deeper already did. -/
def locate (position : Position) (file : Option String) (d : Diagnostic) : Diagnostic :=
  { d with position := d.position.or (some position), file := d.file.or file }

/-- The number of calls that are recorded on the way up. -/
def maxNotes : Nat := 10

/-- What a call adds to an error that comes out of it: its own place if the error has none, a note
otherwise. -/
def throughCall (site : Position) (file : Option String) (d : Diagnostic) : Diagnostic :=
  match d.position with
  | none => d.locate site file
  | some _ =>
    if d.notes.length < maxNotes then { d with notes := d.notes ++ [.calledFrom site] } else d

end Diagnostic

end Catena
