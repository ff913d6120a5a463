import Catena.Namespace

/-!
# Loaders

A loader serves the public functions of namespaces to imports. One loader serves the native
functions; every module that has been run is served by a loader of its own. Loaders are stacked: the
names of a namespace are those of all loaders together, and of two functions with one name the newer
loader's is taken.
-/

namespace Catena

/-- The public members of a module that has been run, under the key by which it is imported. -/
structure Module where
  key : String
  exports : Namespace
  origin : Origin

/-- A provider of public functions. -/
inductive Loader
  | natives
  | module (m : Module)

namespace Loader

/-- Whether the loader knows a namespace. -/
def has (l : Loader) (space : String) : Bool :=
  match l with
  | natives => !(Native.members space).isEmpty
  | module m => m.key == space

/-- The public names that the loader has in a namespace. -/
def names (l : Loader) (space : String) : List String :=
  match l with
  | natives => (Native.members space).map (·.entry.name)
  | module m => if m.key == space then m.exports.published else []

/-- The function that the loader has under a name of a namespace. -/
def function? (l : Loader) (space name : String) : Option Function :=
  match l with
  | natives => (Native.find? space name).map Function.ofNative
  | module m => if m.key == space then m.exports.function? name else none

/-- Whether the loader has a function under a name of a namespace. -/
def contains (l : Loader) (space name : String) : Bool :=
  (l.function? space name).isSome

end Loader

/-- Loaders, the newest first. -/
structure LoaderStack where
  loaders : List Loader := []

namespace LoaderStack

/-- The stack with a newer loader. -/
def push (s : LoaderStack) (l : Loader) : LoaderStack :=
  { loaders := l :: s.loaders }

/-- The number of loaders. -/
def size (s : LoaderStack) : Nat :=
  s.loaders.length

/-- Whether there is no loader. -/
def isEmpty (s : LoaderStack) : Bool :=
  s.loaders.isEmpty

/-- Whether some loader knows a namespace. -/
def has (s : LoaderStack) (space : String) : Bool :=
  s.loaders.any (·.has space)

/-- `names` followed by those of `more` that are not yet among them. -/
def union (names more : List String) : List String :=
  more.foldl (fun names name => if names.contains name then names else names ++ [name]) names

/-- The public names of a namespace, those of newer loaders first, each once. -/
def names (s : LoaderStack) (space : String) : List String :=
  s.loaders.foldl (fun names l => if l.has space then union names (l.names space) else names) []

/-- The function under a name of a namespace, from the newest loader that has one. -/
def function? (s : LoaderStack) (space name : String) : Option Function :=
  (s.loaders.find? fun l => l.has space && l.contains space name).bind (·.function? space name)

/-- Whether some loader has a function under a name of a namespace. -/
def contains (s : LoaderStack) (space name : String) : Bool :=
  s.loaders.any (·.contains space name)

end LoaderStack

end Catena
