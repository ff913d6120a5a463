import Catena.Native
import Catena.Value

/-!
# Functions

Everything that a name can call: a native function, a function defined by a program, or a value
bound by `let`, which is pushed when it is called.
-/

namespace Catena

/-- The number of a namespace. -/
abbrev NamespaceId := Nat

/-- A function defined by a program. -/
structure Definition where
  name : String
  body : Code
  /-- The types asked for before the call, top first. -/
  pre : List ValueType
  /-- The types promised after the call, top first. -/
  post : List ValueType
  /-- The namespace that the function was defined in; its body runs there. -/
  home : NamespaceId
  /-- The file that the body was read from. -/
  file : Option String

/-- What a name can call. -/
inductive Function
  | native (function : Native) (access : Access)
  | defined (definition : Definition)
  | constant (value : Value) (home : NamespaceId)

namespace Function

/-- The types asked for before a call, top first. -/
def pre : Function → List ValueType
  | native function _ => function.entry.pre
  | defined definition => definition.pre
  | constant _ _ => []

/-- The types promised after a call, top first. -/
def post : Function → List ValueType
  | native _ _ => []
  | defined definition => definition.post
  | constant _ _ => []

/-- The namespace that is current during a call, if the call changes it. -/
def home? : Function → Option NamespaceId
  | native _ _ => none
  | defined definition => some definition.home
  | constant _ home => some home

/-- The file that errors inside a call belong to, if the function knows it. -/
def file? : Function → Option String
  | defined definition => definition.file
  | _ => none

/-- A short description. -/
def describe : Function → String
  | native function _ => "<native " ++ function.entry.name ++ ">"
  | defined definition => "<def " ++ definition.name ++ ">"
  | constant value _ => "<let " ++ value.describe ++ ">"

/-- A native function with all that it may use. -/
def ofNative (function : Native) : Function :=
  native function function.entry.access

end Function

end Catena
