import Catena.Console
import Catena.Tree.Import

/-!
# Files

A finite tree of files and directories without links, and the directory that relative paths start
from. A path is followed component by component: it may not go on after a regular file, no name may
be too long, and two dots lead back to the directory above. Following a path gives the canonical
path, so that two spellings of one file are the same.
-/

namespace Catena

/-- A canonical path: the components from the root down. -/
abbrev Path := List String

/-- What a path can lead to. -/
inductive Entry
  | file (bytes : List UInt8)
  | directory

/-- Puts a character in front of a split path: a slash starts a new component. -/
def splitStep (c : Char) (parts : List String) : List String :=
  if c = '/' then "" :: parts
  else match parts with
    | [] => [c.toString]
    | part :: rest => (c.toString ++ part) :: rest

/-- The components of a written path; two slashes in a row have an empty component between them. -/
def splitPath (s : String) : List String :=
  s.toList.foldr splitStep [""]

/-- The name that a written path ends with: the last component, not counting empty ones and single
dots. A path that ends by going up has none. -/
def pathName? (s : String) : Option String :=
  ((splitPath s).filter fun part => part != "" && part != ".").getLast?.filter (· != "..")

/-- Where a written path starts, seen from the directory `base`: a leading slash is the root. -/
def startOf (base : Path) (written : String) : Path :=
  if written.toList.head? = some '/' then [] else base

/-- A path below a directory, as written. -/
def joinPath (directory name : String) : String :=
  if directory = "" || hasEnding "/" directory then directory ++ name
  else directory ++ "/" ++ name

namespace Path

/-- The path as text. -/
def text (p : Path) : String :=
  "/" ++ String.intercalate "/" p

/-- The name of a file without its directory. -/
def fileName (p : Path) : String :=
  p.getLast?.getD "/"

/-- The directory of a file. -/
def parent (p : Path) : Path :=
  List.dropLast p

end Path

/-- Files and directories, and the directory that relative paths start from. A directory that holds
something need not be listed itself. -/
structure FileSystem where
  workingDirectory : Path
  entries : List (Path × Entry)

namespace FileSystem

/-- What a canonical path leads to. -/
def entry? (fs : FileSystem) (p : Path) : Option Entry :=
  match fs.entries.lookup p with
  | some entry => some entry
  | none =>
    if p.isPrefixOf fs.workingDirectory || fs.entries.any (p.isPrefixOf ·.1) then some .directory
    else none

/-- The size of the longest name, in bytes. -/
def maxNameSize : Nat := 255

/-- The size of the longest path that can be looked at as it is written, in bytes. -/
def maxPathSize : Nat := 4095

/-- Follows components from the canonical path `p`. -/
def follow (fs : FileSystem) (p : Path) : List String → Except Fault Path
  | [] => .ok p
  | part :: rest =>
    match fs.entry? p with
    | none => .error .notFound
    | some (.file _) => .error .notDirectory
    | some .directory =>
      if part = "" || part = "." then fs.follow p rest
      else if part = ".." then fs.follow (Path.parent p) rest
      else if maxNameSize < part.utf8ByteSize then .error .nameTooLong
      else if (fs.entry? (p ++ [part])).isSome then fs.follow (p ++ [part]) rest
      else .error .notFound

/-- The canonical path of what is written, seen from the directory `base`. -/
def canonical (fs : FileSystem) (base : Path) (written : String) : Except Fault Path :=
  if written.toList.any (·.toNat = 0) then .error .nulInPath
  else if written.isEmpty then .error .notFound
  else fs.follow (startOf base written) (splitPath written)

/-- Whether a written path, which must not be too long, leads to a regular file. -/
def isFile (fs : FileSystem) (base : Path) (written : String) : Bool :=
  match fs.canonical base written with
  | .ok p =>
    match fs.entry? p with
    | some (.file _) => decide (written.utf8ByteSize ≤ maxPathSize)
    | _ => false
  | .error _ => false

/-- The text of a file. -/
def read (fs : FileSystem) (p : Path) : Except Fault String :=
  match fs.entry? p with
  | some (.file bytes) => Console.decode bytes
  | some .directory => .error .isDirectory
  | none => .error .notFound

end FileSystem

end Catena
