import Catena.Function
import Catena.OrderedMap

/-!
# Namespaces

A namespace binds names to functions and to other namespaces mounted in it, and knows which of its
names are public. It is both the environment in which a file runs and what a module hands out.
Namespaces refer to each other, so they are numbered and kept in one collection.
-/

namespace Catena

/-- What a name stands for. -/
inductive Binding
  | function (f : Function)
  /-- A mounted namespace, whose members are reached through this name. -/
  | child (id : NamespaceId)

/-- A table of names, some of them public. -/
structure Namespace where
  bindings : OrderedMap String Binding := {}
  /-- The public names, in the order in which they became public. -/
  published : List String := []

namespace Namespace

/-- The names in the order of their first definition. -/
def names (n : Namespace) : List String :=
  n.bindings.keys

/-- Whether a name is bound. -/
def isDefined (n : Namespace) (name : String) : Bool :=
  n.bindings.contains name

/-- What a name is bound to. -/
def get? (n : Namespace) (name : String) : Option Binding :=
  n.bindings.get? name

/-- Binds a name, as public or not; the latest definition counts for both. -/
def define (n : Namespace) (name : String) (binding : Binding) (isPublic : Bool) : Namespace :=
  { bindings := n.bindings.insert name binding
    published :=
      if !isPublic then n.published.filter (· != name)
      else if n.published.contains name then n.published
      else n.published ++ [name] }

/-- Whether a name is public. -/
def isPublic (n : Namespace) (name : String) : Bool :=
  n.published.contains name

/-- The function that a name is bound to. -/
def function? (n : Namespace) (name : String) : Option Function :=
  match n.get? name with
  | some (.function f) => some f
  | _ => none

/-- The namespace mounted under a name. -/
def child (n : Namespace) (name : String) : Except RuntimeError NamespaceId :=
  match n.get? name with
  | some (.child id) => .ok id
  | _ => .error (.invalidNamespace name)

/-- A copy that has only the public members, in the order in which they became public. -/
def exported (n : Namespace) : Namespace :=
  n.published.foldl (fun copy name =>
    match n.get? name with
    | some binding => copy.define name binding true
    | none => copy) {}

end Namespace

/-- All namespaces of a run, by number. -/
structure Namespaces where
  spaces : Array Namespace := #[]

namespace Namespaces

/-- The namespace with the given number; one that was never made is empty. -/
def get (ns : Namespaces) (id : NamespaceId) : Namespace :=
  ns.spaces.getD id {}

/-- Changes the namespace with the given number. -/
def update (ns : Namespaces) (id : NamespaceId) (f : Namespace → Namespace) : Namespaces :=
  { spaces := ns.spaces.modify id f }

/-- Makes an empty namespace. -/
def fresh (ns : Namespaces) : NamespaceId × Namespaces :=
  (ns.spaces.size, { spaces := ns.spaces.push {} })

/-- Binds a name in a namespace. -/
def define (ns : Namespaces) (id : NamespaceId) (name : String) (binding : Binding)
    (isPublic : Bool) : Namespaces :=
  ns.update id fun n => n.define name binding isPublic

/-- The namespace mounted in `id` under a name; if the name is free, an empty one is mounted
first. -/
def mount (ns : Namespaces) (id : NamespaceId) (name : String) :
    Except RuntimeError (NamespaceId × Namespaces) :=
  if (ns.get id).isDefined name then
    ((ns.get id).child name).map fun child => (child, ns)
  else
    let (child, ns) := ns.fresh
    .ok (child, ns.define id name (.child child) false)

/-- Unbinds every name of a namespace. -/
def clear (ns : Namespaces) (id : NamespaceId) : Namespaces :=
  ns.update id fun _ => {}

end Namespaces

end Catena
