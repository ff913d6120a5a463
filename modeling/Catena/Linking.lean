import Catena.Action
import Catena.Dependency
import Catena.FileSystem
import Catena.Report
import Catena.Scope
import Catena.Tree.Grammar

/-!
# Linking the files of a program

Before a program runs, the files that it imports are read, checked and put in front of the imports
that ask for them, and so on for the files that those import. A file is linked once for as long as
the linker lives: it is known by its canonical path. Imports must not go in circles, and so a file
is never read while it is being read; that is why linking needs no more fuel than there are files.
-/

namespace Catena

/-- Why a program was not run to its end. -/
inductive RunError
  /-- One thing went wrong. -/
  | diagnostic (d : Diagnostic)
  /-- A stage was given up; its errors have been reported. -/
  | reported (stage : Stage) (count : Nat)
  /-- A stream failed. -/
  | io (fault : Fault)
  /-- The fuel was used up. -/
  | exhausted

/-- The wording of a run's failure. -/
def RunError.message : RunError → String
  | diagnostic d => d.text
  | reported stage count => stage.name ++ s!" stage aborted with {count} error(s)"
  | io fault => "I/O error: " ++ fault.text
  | exhausted => "fuel exhausted"

/-- What linking knows and has found. -/
structure Linker where
  graph : DependencyGraph
  scopes : ScopeTable := {}
  log : FileLog
  /-- The files that have been linked, in this program or an earlier one. -/
  loaded : List Path
  /-- The number of the next node. -/
  nextId : NodeId

/-- A step of linking. -/
abbrev Linking := Action Linker RunError

/-- Where a program comes from. -/
structure SourceUnit where
  /-- The name of the program in the graph of imports. -/
  key : String
  /-- The name of the file in messages. -/
  display : String
  /-- The namespace that the program defines. -/
  name : String
  /-- The directory that its imports start from. -/
  directory : Path
  origin : Origin

/-- The unit of a file. -/
def SourceUnit.ofFile (path : Path) (origin : Origin) : SourceUnit :=
  { key := path.text
    display := path.fileName
    name := dropEnding sourceExtension path.fileName
    directory := path.parent
    origin }

/-- The unit of a text that is in no file, as if it stood in the given directory. -/
def SourceUnit.ofText (name : String) (directory : Path) : SourceUnit :=
  { key := joinPath directory.text ("<" ++ name ++ ">")
    display := name
    name
    directory
    origin := .user }

namespace Linking

open Catena.Action

variable {α : Type}

/-- Files what follows under another file. -/
def setFile (file : String) : Linking Unit :=
  change fun l => { l with log := Reporter.setFile l.log file }

/-- Reports diagnostics in order. -/
def report (ds : List Diagnostic) : Linking Unit :=
  change fun l => { l with log := ds.foldl Reporter.report l.log }

/-- Takes notice of diagnostics in order. -/
def notice (ds : List Diagnostic) : Linking Unit :=
  change fun l =>
    { l with log := ds.foldl (fun log d => Reporter.notice log d.message d.position) l.log }

/-- Reports a diagnostic and stops with it. -/
def fail (d : Diagnostic) : Linking α := do
  report [d]
  stop (.diagnostic d)

/-- Reports all errors of a stage and gives the stage up. -/
def abort (stage : Stage) (errors : List Diagnostic) : Linking α := do
  report errors
  stop (.reported stage errors.length)

/-- Takes the number of a node that is made. -/
def freshId : Linking NodeId :=
  ⟨fun l => .done l.nextId { l with nextId := l.nextId + 1 }⟩

/-- Numbers the nodes of a program. -/
def number (p : Program Unit) : Linking (Program NodeId) :=
  ⟨fun l => .done (p.number l.nextId).1 { l with nextId := (p.number l.nextId).2 }⟩

/-- Passes over numbers: those of the nodes that were made of a text which is refused. -/
def passOver (count : Nat) : Linking Unit :=
  change fun l => { l with nextId := l.nextId + count }

/-- Reads the text of a unit as a program. -/
def parse (unit : SourceUnit) (source : String) : Linking (Program NodeId) :=
  match Source.scan source with
  | .error errors => abort .lexer errors
  | .ok scanned =>
    match Tree.ofScanned unit.name scanned with
    | .error d => do
      passOver (Tree.nodesMade scanned.finish 0 0 scanned.tokens)
      fail { d with file := some unit.display }
    | .ok program =>
      number { program with
        info := { program.info with origin := unit.origin, file := some unit.display } }

/-- Checks the scopes of a program and keeps the names that it gives to nodes. -/
def checkScopes (p : Program NodeId) : Linking Unit := do
  let analysis := Scope.analyse p
  notice analysis.notices
  if analysis.failed then abort .scope analysis.errors
  else change fun l => { l with scopes := l.scopes.extend analysis.table }

/-- Where the file of an import would be: its path as written, and the directory from which it is
seen. Files are seen from the directory of the importer, library modules from the working
directory. -/
def location (home : Path) (library : String) (directory : Path) (request : Import) :
    String × Path :=
  if request.isExternal then (request.source, directory)
  else (joinPath library (request.source ++ sourceExtension), home)

/-- A file that an import asks for: its location, and whom it belongs to. A namespace for which the
library directory has no file asks for none, and nor does a library module that imports the native
part of its own namespace. -/
def wanted? (fs : FileSystem) (library : String) (unit : SourceUnit) (request : Import) :
    Option ((String × Path) × Origin) :=
  let place := location fs.workingDirectory library unit.directory request
  if request.isExternal then some (place, .user)
  else if !fs.isFile place.2 place.1 then none
  else if unit.origin = .internal && unit.name == request.source then none
  else some (place, .internal)

/-- Records that a unit imports a file; fails if imports now go in a circle. -/
def connect (unit : SourceUnit) (position : Position) (request : Import) (path : Path) :
    Linking Unit := do
  change fun l => { l with graph := l.graph.add unit.key path.text }
  if (← state).graph.isCircular then
    fail
      { cause := .module (.circular request.source unit.display)
        position := some position
        file := some unit.display }

/-- The program to run before an import, if it needs one that is not there yet. -/
def resolve (fs : FileSystem) (library : String)
    (load : Path → Origin → Linking (Program NodeId)) (unit : SourceUnit) (position : Position)
    (request : Import) : Linking (Option (Program NodeId)) :=
  match wanted? fs library unit request with
  | none => pure none
  | some ((written, base), origin) =>
    match fs.canonical base written with
    | .error fault =>
      fail
        { cause := .module (.notImportable request.source fault)
          position := some position
          file := some unit.display }
    | .ok path => do
      connect unit position request path
      if (← state).loaded.contains path then return none
      else do
        let program ← load path origin
        change fun l => { l with loaded := path :: l.loaded }
        return some program

/-- The node that runs an imported program in a namespace of its own. -/
def moduleNode (id : NodeId) (token : Token) (p : Program NodeId) : Node NodeId :=
  .program ⟨id, token⟩ { p.info with isRoot := false } p.nodes

/-- Puts the programs that imports need in front of them. -/
def splice (resolve : Position → Import → Linking (Option (Program NodeId))) : Code → Linking Code
  | [] => pure []
  | .importing m request :: rest => do
    match ← resolve m.token.position request with
    | some program => do
      let id ← freshId
      let others ← splice resolve rest
      return moduleNode id m.token program :: .importing m request :: others
    | none => do
      let others ← splice resolve rest
      return .importing m request :: others
  | node :: rest => do
    let others ← splice resolve rest
    return node :: others

/-- Links a text, where `load` links the files that it imports. -/
def linkText (fs : FileSystem) (library : String)
    (load : Path → Origin → Linking (Program NodeId)) (unit : SourceUnit) (source : String) :
    Linking (Program NodeId) := do
  setFile unit.display
  let program ← parse unit source
  checkScopes program
  let nodes ← splice (resolve fs library load unit) program.nodes
  setFile unit.display
  return { program with nodes }

/-- Links a file, with fuel for `fuel` files inside each other. -/
def linkFile (fs : FileSystem) (library : String) : Nat → Path → Origin → Linking (Program NodeId)
  | 0, _, _ => stop .exhausted
  | fuel + 1, path, origin =>
    match fs.read path with
    | .error fault =>
      fail { cause := .module (.unreadable path.fileName fault), file := some path.fileName }
    | .ok source => linkText fs library (linkFile fs library fuel) (.ofFile path origin) source

/-- Fuel for every file of a file system inside each other. -/
def fuelFor (fs : FileSystem) : Nat :=
  fs.entries.length + 1

/-- Links the file that a program starts from. -/
def linkEntry (fs : FileSystem) (library : String) (path : Path) : Linking (Program NodeId) := do
  let program ← linkFile fs library (fuelFor fs) path .user
  change fun l => { l with loaded := path :: l.loaded }
  return program

/-- Links a program that is given as text; its imports start from the working directory. -/
def linkSource (fs : FileSystem) (library : String) (unit : SourceUnit) (source : String) :
    Linking (Program NodeId) :=
  linkText fs library (linkFile fs library (fuelFor fs)) unit source

end Linking

end Catena
