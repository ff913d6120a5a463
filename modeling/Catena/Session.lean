import Catena.Evaluation
import Catena.Linking
import Catena.Tree.Outline

/-!
# Sessions

A session links programs and runs them one after the other. What one leaves behind (bindings, values
on the stack, modules that have been run) is there for the next.
-/

namespace Catena

/-- The directory of library modules unless another is named. -/
def defaultLibrary : String := "standard-lib"

/-- How a session behaves. -/
structure Config where
  /-- The directory of library modules. -/
  library : String := defaultLibrary
  /-- Print linked programs instead of running them. -/
  printTree : Bool := false
  /-- The indentation of printed programs. -/
  tab : String := "\t"
  suppressNotices : Bool := false

/-- A linker's memory and the state of a run. -/
structure Session where
  config : Config := {}
  loaded : List Path := []
  interpreter : Interpreter

/-- What a program gave: its result, the session after it, and the log of its linking and run. -/
structure RunReport where
  result : Except RunError (Option Value)
  session : Session
  log : FileLog

namespace Session

/-- A fresh session with the given streams and source of random numbers. -/
def new (config : Config) (console : Console) (random : RandomSource := {}) : Session :=
  { config, interpreter := { Interpreter.withNatives console with random } }

/-- Changes the console. -/
def withConsole (s : Session) (console : Console) : Session :=
  { s with interpreter := { s.interpreter with console } }

/-- Writes text to the output of the session. -/
def write (s : Session) (text : String) : Except Fault Unit × Session :=
  let (result, console) := s.interpreter.console.write text
  (result, s.withConsole console)

/-- Prints a linked program. -/
def printProgram (s : Session) (p : Program NodeId) (log : FileLog) : RunReport :=
  match s.write (p.render s.config.tab ++ "\n") with
  | (.ok _, session) => { result := .ok none, session, log }
  | (.error fault, session) => { result := .error (.io fault), session, log }

/-- The log with a run-time diagnostic of a program, filed under the file it belongs to. -/
def logFailure (p : Program NodeId) (log : FileLog) (d : Diagnostic) : FileLog :=
  let file := (d.file.or p.info.file).getD defaultFile
  Reporter.report (Reporter.setFile log file) d

/-- Runs a linked program. -/
def runProgram (s : Session) (scopes : ScopeTable) (p : Program NodeId) (log : FileLog) :
    RunReport :=
  match (Evaluation.interpret Evaluation.ampleFuel scopes p).run s.interpreter with
  | .done value interpreter => { result := .ok value, session := { s with interpreter }, log }
  | .stopped (.failed d) interpreter =>
    { result := .error (.diagnostic d)
      session := { s with interpreter }
      log := logFailure p log d }
  | .stopped .exhausted interpreter =>
    { result := .error .exhausted, session := { s with interpreter }, log }

/-- The linker with which a session starts to link. -/
def linker (s : Session) (root : String) (log : FileLog) : Linker :=
  { graph := { root }, log, loaded := s.loaded, nextId := s.interpreter.nextId }

/-- The session after linking. -/
def linked (s : Session) (l : Linker) : Session :=
  { s with loaded := l.loaded, interpreter := { s.interpreter with nextId := l.nextId } }

/-- The session in which a linked program is run. -/
def remember (s : Session) (l : Linker) : Session :=
  { s with
    loaded := l.loaded
    interpreter :=
      { s.interpreter with
        nextId := l.nextId
        scopes := s.interpreter.scopes.comeRound l.scopes l.nextId } }

/-- Keeps what linking leaves behind, then prints or runs the program. -/
def finish (s : Session) (linking : Linking (Program NodeId)) (root : String) (log : FileLog) :
    RunReport :=
  match linking.run (s.linker root log) with
  | .stopped error l => { result := .error error, session := s.linked l, log := l.log }
  | .done program l =>
    if s.config.printTree then (s.linked l).printProgram program l.log
    else (s.remember l).runProgram l.scopes program l.log

/-- Reports a diagnostic that comes before linking. -/
def refuse (s : Session) (log : FileLog) (d : Diagnostic) : RunReport :=
  { result := .error (.diagnostic d), session := s, log := Reporter.report log d }

/-- Runs the file at a path. -/
def runFile (s : Session) (fs : FileSystem) (written : String) (log : FileLog) : RunReport :=
  if !(pathName? written).any (hasEnding sourceExtension) then
    s.refuse log { cause := .module .notSourceFile }
  else
    match fs.canonical fs.workingDirectory written with
    | .error fault => s.refuse log { cause := .module (.unreadable written fault) }
    | .ok path => s.finish (Linking.linkEntry fs s.config.library path) path.text log

/-- Runs a text as a program. -/
def runSource (s : Session) (fs : FileSystem) (source : String) (log : FileLog) : RunReport :=
  let unit := SourceUnit.ofText defaultFile fs.workingDirectory
  s.finish (Linking.linkSource fs s.config.library unit source) unit.key log

end Session

end Catena
