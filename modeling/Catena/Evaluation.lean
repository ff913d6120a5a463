import Catena.Library

/-!
# Running code

Nodes are run in order; each pushes, pops, calls or defines. Code can be nested without bound (a
condition runs a sequence that may hold another condition), so running takes fuel: one unit for each
level of nesting. `exec` with one unit less is what a node uses for the code inside it, so that the
meaning of a node is given once, by `step`, in terms of the meaning of what it runs.
-/

namespace Catena

open Catena.Action Catena.Eval

namespace Evaluation

/-- Two numbers, as arithmetic asks for. -/
def numberOperands : List ValueType := [.number, .number]

/-- The two branches and the boolean below them. -/
def branchedOperands : List ValueType := [.sequence, .sequence, .boolean]

/-- The single branch and the boolean below it. -/
def singleOperands : List ValueType := [.sequence, .boolean]

/-- The result of an arithmetic operator. -/
def calculate (op : ArithmeticOp) (left right : Float) : Except RuntimeError Float :=
  match op with
  | .add => .ok (left + right)
  | .subtract => .ok (left - right)
  | .multiply => .ok (left * right)
  | .divide => if right == 0.0 then .error .divisionByZero else .ok (left / right)
  | .modulo => if right == 0.0 then .error .divisionByZero else .ok (Number.remainder left right)

/-- Applies an arithmetic operator to the two numbers on top. -/
def arithmetic (op : ArithmeticOp) (lexeme : String) : Eval Unit := do
  requireShape .pre numberOperands lexeme
  let right ← onStack Stack.popNumber
  let left ← onStack Stack.popNumber
  push (.number (← demand (calculate op left right)))

/-- The result of a comparison of literals of one type. -/
def compareLiterals (op : ComparisonOp) (left right : Literal) : Except RuntimeError Bool :=
  match left, right with
  | .number l, .number r =>
    match op with
    | .less => .ok (l < r)
    | .lessEqual => .ok (l ≤ r)
    | .equal => .ok (l == r)
    | .notEqual => .ok (l != r)
    | .greater => .ok (l > r)
    | .greaterEqual => .ok (l ≥ r)
    | .or | .and => .error (.incomparable .number .number)
  | .string l, .string r =>
    match op with
    | .equal => .ok (l == r)
    | .notEqual => .ok (l != r)
    | _ => .error .stringComparison
  | .boolean l, .boolean r =>
    match op with
    | .equal => .ok (l == r)
    | .notEqual => .ok (l != r)
    | .or => .ok (l || r)
    | .and => .ok (l && r)
    | _ => .error .booleanComparison
  | _, _ => .error (.incomparable left.type right.type)

/-- The result of a comparison; only literals can be compared. -/
def compareValues (op : ComparisonOp) (left right : Value) : Except RuntimeError Bool :=
  match left, right with
  | .literal l, .literal r => compareLiterals op l r
  | _, _ => .error (.incomparable left.type right.type)

/-- Compares the two values on top. -/
def comparison (op : ComparisonOp) : Eval Unit := do
  demand ((← state).stack.requireSize 2 .comparisonArity)
  let right ← onStack Stack.pop
  let left ← onStack Stack.pop
  push (.boolean (← demand (compareValues op left right)))

/-- Runs one of two branches, or a single branch or nothing. Branches run in place: they see the
same namespace and the same stack. -/
def condition (run : Code → Eval Unit) (form : Condition) (lexeme : String) : Eval Unit :=
  match form with
  | .branched => do
    requireShape .pre branchedOperands lexeme
    let otherwise ← onStack Stack.popSequence
    let chosen ← onStack Stack.popSequence
    if ← onStack Stack.popBoolean then run chosen.body else run otherwise.body
  | .single => do
    requireShape .pre singleOperands lexeme
    let chosen ← onStack Stack.popSequence
    if ← onStack Stack.popBoolean then run chosen.body

/-- Defines a function in the current namespace. A name cannot be defined twice. -/
def defineFunction (signature : Signature) (body : Code) : Eval Unit := do
  let s ← state
  if (s.spaces.get s.current).isDefined signature.name then
    fail (.alreadyDefined signature.name)
  else
    define signature.name
      (.function (.defined
        { name := signature.name, body, pre := signature.pre, post := signature.post,
          home := s.current, file := s.file }))
      signature.isPublic

/-- Binds the top value to a name of the current namespace. -/
def bindValue (id : NodeId) (name : String) (isPublic : Bool) : Eval Unit := do
  requireShape .pre [.any] name
  let value ← onStack Stack.pop
  let home := (← state).current
  define (← nameOf id name) (.function (.constant value home)) isPublic

/-- The function that a name stands for. -/
def lookUp (s : Interpreter) (qualifier : Option Token) (name : String) :
    Except RuntimeError Function := do
  let space ←
    match qualifier with
    | some token => (s.spaces.get s.current).child token.lexeme
    | none => .ok s.current
  match (s.spaces.get space).function? name with
  | some function => .ok function
  | none => .error (.unknownIdentifier name)

/-- Does what a function does, in the namespace that is current. -/
def perform (limit : Nat) (run : Code → Eval Unit) : Function → Eval Unit
  | .native function access => Library.perform limit run access function
  | .defined definition => run definition.body
  | .constant value _ => push value

/-- Does what a function does, in the namespace and the file that it belongs to. -/
def performAtHome (limit : Nat) (run : Code → Eval Unit) (function : Function) : Eval Unit :=
  match function.home? with
  | some home => do within home (function.file?.or (← state).file) (perform limit run function)
  | none => perform limit run function

/-- Fails if no further call may be entered. -/
def requireDepth : Eval Unit := do
  let s ← state
  if s.maxDepth ≤ s.depth then fail (.depthExceeded s.maxDepth)

/-- Calls a function: its conditions hold before and after, and calls do not nest too deep. -/
def invoke (limit : Nat) (run : Code → Eval Unit) (function : Function) (lexeme : String) :
    Eval Unit := do
  requireShape .pre function.pre lexeme
  requireDepth
  deeper (performAtHome limit run function)
  requireShape .post function.post lexeme

/-- Calls what a name stands for. Errors that come out of the call are told where it was made: at
the qualifier, if there is one. -/
def callName (limit : Nat) (run : Code → Eval Unit) (m : Mark NodeId) (qualifier : Option Token)
    (name : String) : Eval Unit := do
  let name ← nameOf m.tag name
  let function ← demand (lookUp (← state) qualifier name)
  let site := (qualifier.getD m.token).position
  onFailure (fun file d => d.throughCall site file) (invoke limit run function m.token.lexeme)

/-- Binds functions of the namespace `key` in `space`: for each pair of names, the function that the
loaders have under the first is bound to the second. -/
def bindFunctions (loaders : LoaderStack) (key : String) (space : NamespaceId)
    (names : List (String × String)) (spaces : Namespaces) : Namespaces :=
  names.foldl (fun spaces (name, bound) =>
    match loaders.function? key name with
    | some function => spaces.define space bound (.function function) false
    | none => spaces) spaces

/-- The namespaces after an import; nothing is bound if it fails. -/
def imported (s : Interpreter) (request : Import) : Except RuntimeError Namespaces :=
  let key := request.loaderKey
  let names := s.loaders.names key
  if !s.loaders.has key then .error (.unknownNamespace request.source)
  else if request.isWhole then
    match s.spaces.mount s.current request.mountName with
    | .error error => .error error
    | .ok (child, spaces) =>
      .ok (bindFunctions s.loaders key child (names.map fun name => (name, name)) spaces)
  else
    match if request.isStar then none else request.targets.find? (!names.contains ·) with
    | some missing => .error (.notPublic missing request.source)
    | none =>
      let taken := (names.filter request.admits).map fun name => (name, request.rename.getD name)
      .ok (bindFunctions s.loaders key s.current taken s.spaces)

/-- Imports names of another namespace. -/
def importNames (request : Import) : Eval Unit := do
  let spaces ← demand (imported (← state) request)
  change fun s => { s with spaces }

/-- Makes an empty namespace. -/
def freshSpace : Eval NamespaceId :=
  ⟨fun s => .done s.spaces.fresh.1 { s with spaces := s.spaces.fresh.2 }⟩

/-- Hands the public members of a namespace to later imports. -/
def publish (space : NamespaceId) (info : ProgramInfo) : Eval Unit :=
  change fun s =>
    let exports := (s.spaces.get space).exported
    { s with loaders := s.loaders.push (.module ⟨info.loaderKey, exports, info.origin⟩) }

/-- Runs a program. A root program runs in the current namespace; any other gets a namespace of its
own, whose public members can then be imported. -/
def runProgram (run : Code → Eval Unit) (info : ProgramInfo) (nodes : Code) : Eval Unit := do
  let s ← state
  let file := info.file.or s.file
  if info.isRoot then within s.current file (run nodes)
  else do
    let space ← freshSpace
    within space file (run nodes)
    publish space info

/-- Does what a node says, where `run` runs the code inside it and `limit` bounds loops. -/
def node (limit : Nat) (run : Code → Eval Unit) : Node NodeId → Eval Unit
  | .literal _ value => push (.literal value)
  | .arithmetic m op => arithmetic op m.token.lexeme
  | .comparison _ op => comparison op
  | .condition m form => condition run form m.token.lexeme
  | .sequence _ block body => push (.sequence { block, body })
  | .definition _ signature body => defineFunction signature body
  | .identifier m qualifier name => callName limit run m qualifier name
  | .importing _ request => importNames request
  | .binding m name isPublic => bindValue m.tag name isPublic
  | .array _ items => do push (.array (← demand (TypedArray.ofLiterals items)))
  | .program _ info nodes => runProgram run info nodes

/-- Does what a node says; an error without a place gets that of the node. -/
def step (limit : Nat) (run : Code → Eval Unit) (n : Node NodeId) : Eval Unit :=
  onFailure (fun file d => d.locate n.position file) (node limit run n)

/-- Runs steps in order up to the first that stops. -/
def each (f : Node NodeId → Eval Unit) : Code → Eval Unit
  | [] => pure ()
  | n :: rest => do
    f n
    each f rest

/-- Runs code with fuel for `fuel` levels of nesting. -/
def exec : Nat → Code → Eval Unit
  | 0, _ => stop .exhausted
  | fuel + 1, nodes => each (step fuel (exec fuel)) nodes

/-- Runs a whole program with its scopes and gives the value left on top. What it leaves behind is
there for the next program. -/
def interpret (fuel : Nat) (scopes : ScopeTable) (p : Program NodeId) : Eval (Option Value) := do
  change fun s => { s with scopes := s.scopes.extend scopes, depth := 0 }
  runProgram (exec fuel) p.info p.nodes
  return (← state).stack.peek?

/-- Fuel that no program of practical size uses up. -/
def ampleFuel : Nat := 0x10000000000

end Evaluation

namespace Interpreter

/-- A fresh run that can import the native functions. -/
def withNatives (console : Console) : Interpreter :=
  { console, loaders := { loaders := [.natives] } }

/-- A fresh run without any loader. -/
def bare (console : Console) : Interpreter :=
  { console }

/-- Takes the text printed so far out of the console. -/
def drain (s : Interpreter) : String × Interpreter :=
  (s.console.printed, { s with console := s.console.drain.2 })

end Interpreter

end Catena
