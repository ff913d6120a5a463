import Catena.Loader

/-!
# Loaders in use

A native function is made when it is first asked for and kept from then on, so asking changes a loader.
Which names there are does not depend on what has been made.
-/

namespace Catena

/-- A loader in use: the native functions that have been made, by namespace and name, or a module. -/
inductive Provider
  | natives (made : OrderedMap (String × String) Function)
  | module (m : Module)

namespace Provider

/-- What is served, apart from what has been made. -/
def loader : Provider → Loader
  | natives _ => .natives
  | module m => .module m

/-- A loader that has made nothing yet. -/
def ofLoader : Loader → Provider
  | .natives => natives {}
  | .module m => module m

/-- The function under a name of a namespace, and the loader after it has been asked for it. -/
def ask (p : Provider) (space name : String) : Option Function × Provider :=
  match p with
  | natives made =>
    match Native.find? space name with
    | none => (none, natives made)
    | some native =>
      let key := (native.entry.home, native.entry.name)
      match made.get? key with
      | some f => (some f, natives made)
      | none => (some (.ofNative native), natives (made.insert key (.ofNative native)))
  | module m => (Loader.function? (.module m) space name, module m)

end Provider

/-- Loaders in use, the newest first. -/
structure ProviderStack where
  providers : List Provider := []

namespace ProviderStack

/-- What is served, apart from what has been made. -/
def loaders (s : ProviderStack) : LoaderStack :=
  { loaders := s.providers.map Provider.loader }

/-- The stack with a newer loader. -/
def push (s : ProviderStack) (l : Loader) : ProviderStack :=
  { providers := .ofLoader l :: s.providers }

/-- The public names of a namespace. -/
def names (s : ProviderStack) (space : String) : List String :=
  s.loaders.names space

/-- Whether some loader has a function under a name of a namespace. -/
def contains (s : ProviderStack) (space name : String) : Bool :=
  s.loaders.contains space name

/-- Asks the first of some loaders that has a function for it. -/
def askFirst (space name : String) : List Provider → Option Function × List Provider
  | [] => (none, [])
  | p :: rest =>
    if p.loader.has space && p.loader.contains space name then
      let (f, p) := p.ask space name
      (f, p :: rest)
    else
      let (f, rest) := askFirst space name rest
      (f, p :: rest)

/-- The function under a name of a namespace, and the stack after it has been asked for it. -/
def ask (s : ProviderStack) (space name : String) : Option Function × ProviderStack :=
  let (f, providers) := askFirst space name s.providers
  (f, { providers })

end ProviderStack

end Catena
