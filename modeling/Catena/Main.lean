import Catena.CommandLine

/-!
# The program

The command line works on a picture of its surroundings: the files that a command can reach, the
bytes on standard input, the environment. This module takes the picture and writes what comes back.
Files are looked at by following imports, and standard input is read, to its end, only by a command
that can ask for it.
-/

namespace Catena

/-- A picture of the files that a command can reach. -/
structure Snapshot where
  files : FileSystem
  /-- The files whose imports have been followed. -/
  visited : List Path := []
  /-- Whether a program in the picture imports a namespace with functions that read. -/
  asksForInput : Bool := false

namespace Snapshot

/-- Whether an import can bring in a native function that reads. -/
def canRead (request : Import) : Bool :=
  (Native.members request.loaderKey).any (·.entry.access.input)

/-- What stands at a path; what cannot be read counts as absent. -/
def look (p : Path) : IO (Option Entry) := do
  let path := (← IO.currentDir) / p.text
  try
    if ← path.isDir then return some .directory
    else if ← path.pathExists then return some (.file (← IO.FS.readBinFile path).toList)
    else return none
  catch _ => return none

/-- What a path passes on its way from the canonical path `p`. -/
def passed (p : Path) : List String → IO (List (Path × Entry))
  | [] => return []
  | part :: rest => do
    if part = "" || part = "." then passed p rest
    else if part = ".." then passed (Path.parent p) rest
    else
      let next : Path := p ++ [part]
      match ← look next with
      | none => return []
      | some entry => return (next, entry) :: (← passed next rest)

mutual

/-- Adds the file at a written path and everything that its imports lead to. -/
partial def addFile (library : String) (base : Path) (written : String) (s : Snapshot) :
    IO Snapshot := do
  let seen ← passed (startOf base written) (splitPath written)
  let s := { s with files := { s.files with entries := s.files.entries ++ seen } }
  match seen.getLast? with
  | some (path, .file bytes) =>
    if s.visited.contains path then return s
    let s := { s with visited := path :: s.visited }
    match Console.decode bytes with
    | .ok source => addImports library (Path.parent path) source s
    | .error _ => return s
  | _ => return s

/-- Adds everything that the imports of a text lead to. -/
partial def addImports (library : String) (directory : Path) (source : String) (s : Snapshot) :
    IO Snapshot := do
  match Tree.ofSource "" source with
  | .error _ => return s
  | .ok program =>
    program.imports.foldlM (fun s request => do
      let (written, base) :=
        Linking.location s.files.workingDirectory library directory request
      addFile library base written { s with asksForInput := s.asksForInput || canRead request }) s

end

/-- The picture for a command, where `input` is what a dialogue would read. -/
def ofCommand (home : Path) (input : List UInt8) : CommandLine.Command → IO Snapshot
  | .run file config => addFile config.library home file { files := ⟨home, []⟩ }
  | .eval source => addImports defaultLibrary home source { files := ⟨home, []⟩ }
  | .repl =>
    (Console.lines input).foldlM (fun s line =>
      match CommandLine.typedText line with
      | .ok text => addImports defaultLibrary home text s
      | .error _ => return s) { files := ⟨home, []⟩ }
  | _ => return { files := ⟨home, []⟩ }

end Snapshot

/-- The variable of the environment that names the library directory. -/
def libraryVariable : String := "TOWEL_STD_LIB"

/-- All bytes of standard input. -/
def readInput : IO (List UInt8) := do
  return (← (← IO.getStdin).readBinToEnd).toList

/-- A number from zero up to one: the first 53 bits of what the seed and the index are mixed to. -/
def mixed (seed : UInt64) (index : Nat) : Float :=
  let bits := seed + (UInt64.ofNat index + 1) * 0x9E3779B97F4A7C15
  let bits := (bits ^^^ (bits >>> 30)) * 0xBF58476D1CE4E5B9
  let bits := (bits ^^^ (bits >>> 27)) * 0x94D049BB133111EB
  ((bits ^^^ (bits >>> 31)) >>> 11).toFloat / 9007199254740992.0

/-- The response to a command in the surroundings at hand. -/
def respondTo (library : Option String) (command : CommandLine.Command) :
    IO CommandLine.Response := do
  let home := (splitPath (← IO.currentDir).toString).filter (· ≠ "")
  let lines ←
    match command with
    | .repl => readInput
    | _ => pure []
  let snapshot ← Snapshot.ofCommand home lines command
  let input ← if snapshot.asksForInput && lines.isEmpty then readInput else pure lines
  let seed := (← IO.monoNanosNow).toUInt64
  return CommandLine.execute
    { files := snapshot.files, library, input, random := { number := mixed seed } } command

end Catena

/-- Runs the program with its arguments and gives its exit code. -/
def main (args : List String) : IO UInt32 := do
  let library ← IO.getEnv Catena.libraryVariable
  let response ←
    match Catena.CommandLine.parse library args with
    | some command => Catena.respondTo library command
    | none => pure Catena.CommandLine.usageError
  (← IO.getStdout).putStr response.stdout
  (← IO.getStderr).putStr response.stderr
  return response.code.toUInt32
