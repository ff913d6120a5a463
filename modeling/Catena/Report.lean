import Catena.Diagnostic
import Catena.OrderedMap

/-!
# Reports

A reporter takes the notices and errors of a run and files them under the file that is current. The
library only ever hands entries over; showing them is up to the caller. `FileLog` keeps every entry,
grouped by file; `ErrorFlag` only remembers whether there was an error.
-/

namespace Catena

/-- What takes notices and errors. -/
class Reporter (ρ : Type) where
  /-- Takes a notice. -/
  notice : ρ → String → Option Position → ρ
  /-- Takes an error. -/
  error : ρ → String → Option Position → ρ
  /-- Files what follows under another file. -/
  setFile : ρ → String → ρ
  hasErrors : ρ → Bool
  hasNotices : ρ → Bool

/-- Hands over a diagnostic as an error with its notes, filed under its own file if it names one. -/
def Reporter.report {ρ : Type} [Reporter ρ] (r : ρ) (d : Diagnostic) : ρ :=
  let r :=
    match d.file with
    | some file => Reporter.setFile r file
    | none => r
  Reporter.error r d.annotated d.position

/-- How serious an entry is. -/
inductive Severity
  | error
  | notice
  deriving DecidableEq

/-- The name of a severity in a log. -/
def Severity.name : Severity → String
  | .error => "Error"
  | .notice => "Notice"

/-- An entry of a log. -/
structure LogEntry where
  severity : Severity
  message : String
  position : Option Position

/-- An entry as text: where it is, then what it says. -/
def LogEntry.text (e : LogEntry) : String :=
  match e.position with
  | some position => e.severity.name ++ " at " ++ position.text ++ ".\n" ++ e.message
  | none => e.severity.name ++ ".\n" ++ e.message

/-- The file that entries are filed under before any file is named. -/
def defaultFile : String := "default"

/-- Entries by file, files in the order of their first entry. -/
abbrev Log := OrderedMap String (List LogEntry)

namespace Log

/-- Adds an entry under `file`. -/
def add (log : Log) (file : String) (entry : LogEntry) : Log :=
  OrderedMap.insert log file ((OrderedMap.get? log file).getD [] ++ [entry])

/-- Whether the log has an entry. -/
def hasEntries (log : Log) : Bool :=
  (OrderedMap.values log).any (!·.isEmpty)

/-- The entries of one file below its name. -/
def renderFile : String × List LogEntry → String
  | (_, []) => ""
  | (file, entries) => s!"In {file}:\n" ++ String.join (entries.map fun e => e.text ++ "\n")

/-- The whole log as text, one block for each file. -/
def render (log : Log) : String :=
  String.join (log.entries.map renderFile)

end Log

/-- A reporter that keeps every entry. -/
structure FileLog where
  file : String := defaultFile
  errors : Log := {}
  notices : Log := {}

namespace FileLog

/-- The messages of all errors, by file. -/
def errorMessages (l : FileLog) : List String :=
  l.errors.values.flatten.map (·.message)

/-- Forgets all entries but not the current file. -/
def clear (l : FileLog) : FileLog :=
  { l with errors := {}, notices := {} }

/-- The log as text, notices before errors. -/
def render (l : FileLog) (withNotices : Bool) : String :=
  (if withNotices then Log.render l.notices else "") ++ Log.render l.errors

instance : Reporter FileLog where
  notice l message position :=
    { l with notices := l.notices.add l.file ⟨.notice, message, position⟩ }
  error l message position := { l with errors := l.errors.add l.file ⟨.error, message, position⟩ }
  setFile l file := { l with file }
  hasErrors l := Log.hasEntries l.errors
  hasNotices l := Log.hasEntries l.notices

end FileLog

/-- A reporter that only remembers whether there was an error. -/
structure ErrorFlag where
  seen : Bool := false

instance : Reporter ErrorFlag where
  notice r _ _ := r
  error _ _ _ := { seen := true }
  setFile r _ := r
  hasErrors r := r.seen
  hasNotices _ := false

end Catena
