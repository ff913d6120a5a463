import Catena.Source.Token

/-!
# Imports

An import names where it takes from, what it takes, and under which name. The place is either a bare
namespace or the path of a source file.
-/

namespace Catena

/-- The ending of source file names. -/
def sourceExtension : String := ".twl"

/-- Whether `s` ends with `ending`. -/
def hasEnding (ending s : String) : Bool :=
  ending.toList.isSuffixOf s.toList

/-- `s` without `ending`, if it ends so. -/
def dropEnding (ending s : String) : String :=
  if hasEnding ending s then String.ofList (s.toList.take (s.toList.length - ending.toList.length))
  else s

/-- The target of an import that takes every public name. -/
def starTarget : String := "*"

/-- A request for names of another namespace. -/
structure Import where
  /-- A bare namespace, or the path of a source file. -/
  source : String
  /-- No target takes the namespace as a whole; the star alone takes every public name. -/
  targets : List String
  /-- The name under which a single target is bound. -/
  rename : Option String

namespace Import

/-- Whether the import is of a file. -/
def isExternal (i : Import) : Bool :=
  hasEnding sourceExtension i.source

/-- Whether the namespace is mounted as a whole. -/
def isWhole (i : Import) : Bool :=
  i.targets.isEmpty && i.rename.isNone

/-- Whether every public name is taken. -/
def isStar (i : Import) : Bool :=
  i.targets == [starTarget]

/-- Whether the import takes `name`. -/
def admits (i : Import) (name : String) : Bool :=
  i.isStar || i.targets.contains name

/-- The name under which a loader serves the import: the file name of a file, the namespace itself
otherwise. -/
def loaderKey (i : Import) : String :=
  if i.isExternal then String.ofList (i.source.toList.reverse.takeWhile (· != '/')).reverse
  else i.source

/-- The name under which the namespace is mounted as a whole. -/
def mountName (i : Import) : String :=
  dropEnding sourceExtension i.loaderKey

end Import

end Catena
