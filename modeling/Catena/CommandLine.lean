import Catena.Session
import Catena.Text.Erasure

/-!
# The command line

What the program does for its arguments, the files it can see, and the bytes on its standard input:
run a file, evaluate a text, or evaluate lines until the input ends.
-/

namespace Catena

namespace CommandLine

/-- The name and the version of the program. -/
def version : String := "towel 0.1.0\n"

/-- A short description of the arguments. -/
def help : String :=
  "Towel language interpreter\n\nUsage: towel [OPTIONS] [COMMAND]\n\nCommands:\n"
    ++ "  run   Run a Towel source file\n  repl  Start an interactive REPL session\n"
    ++ "  eval  Evaluate a snippet of Towel code\n"

/-- What the arguments ask for. -/
inductive Command
  | run (file : String) (config : Config)
  | eval (source : String)
  | repl
  | showVersion
  | showHelp

/-- An argument, told apart by its form. -/
inductive Argument
  /-- The mark after which every argument is a value. -/
  | endOfOptions
  /-- A long option, with a value after an equals sign if there is one. -/
  | long (name : String) (value : Option String)
  /-- A bundle of short options. -/
  | short (letters : List Char)
  | value (text : String)

/-- The form of an argument. A hyphen on its own is a value. -/
def Argument.ofText (s : String) : Argument :=
  match s.toList with
  | ['-', '-'] => .endOfOptions
  | '-' :: '-' :: rest =>
    let name := String.ofList (rest.takeWhile (· != '='))
    match rest.dropWhile (· != '=') with
    | [] => .long name none
    | _ :: given => .long name (some (String.ofList given))
  | '-' :: c :: rest => .short (c :: rest)
  | _ => .value s

/-- Whether an argument is nothing but requests for more log lines. -/
def Argument.isVerbosity : Argument → Bool
  | long name none => name == "verbose"
  | short letters => letters.all (· == 'v')
  | _ => false

/-- Whether an argument asks for help. -/
def Argument.isHelp : Argument → Bool
  | long name none => name == "help"
  | short letters => (letters.dropWhile (· == 'v')).head? == some 'h'
  | _ => false

/-- Whether an argument asks for the version. -/
def Argument.isVersion : Argument → Bool
  | long name none => name == "version"
  | short letters => (letters.dropWhile (· == 'v')).head? == some 'V'
  | _ => false

/-- What has been given to the command that runs a file. -/
structure RunArguments where
  file : Option String := none
  printTree : Bool := false
  tab : Option String := none
  suppressNotices : Bool := false
  library : Option String := none

namespace RunArguments

/-- Takes the file to run. It can be given once and cannot be empty. -/
def takeFile (a : RunArguments) (file : String) : Option RunArguments :=
  if a.file.isSome || file.isEmpty then none else some { a with file := some file }

/-- Takes an option without a value, which can be given once. -/
def takeFlag (a : RunArguments) (name : String) : Option RunArguments :=
  if name == "print-ast" && !a.printTree then some { a with printTree := true }
  else if name == "suppress-notices" && !a.suppressNotices then
    some { a with suppressNotices := true }
  else none

/-- Takes an option with a value, which can be given once. -/
def takeOption (a : RunArguments) (name value : String) : Option RunArguments :=
  if name == "tab" && a.tab.isNone then some { a with tab := some value }
  else if name == "std-lib" && a.library.isNone && !value.isEmpty then
    some { a with library := some value }
  else none

/-- Whether an option takes a value. -/
def wantsValue (name : String) : Bool :=
  name == "tab" || name == "std-lib"

/-- The command, once all arguments have been taken. The library directory comes from the option, or
else from the environment; neither may be empty. -/
def command (a : RunArguments) (environment : Option String) : Option Command :=
  match a.file with
  | none => none
  | some file =>
    let library := (a.library.or environment).getD defaultLibrary
    if library.isEmpty then none
    else
      some (.run file
        { library
          printTree := a.printTree
          tab := a.tab.getD "\t"
          suppressNotices := a.suppressNotices })

end RunArguments

/-- Reads the arguments of the command that runs a file. -/
def parseRun (environment : Option String) (a : RunArguments) : List String → Option Command
  | [] => a.command environment
  | s :: rest =>
    let argument := Argument.ofText s
    if argument.isVerbosity then parseRun environment a rest
    else if argument.isHelp then some .showHelp
    else
      match argument with
      | .endOfOptions => (rest.foldlM RunArguments.takeFile a).bind (·.command environment)
      | .value text => (a.takeFile text).bind fun a => parseRun environment a rest
      | .long name (some value) =>
        (a.takeOption name value).bind fun a => parseRun environment a rest
      | .long name none =>
        if RunArguments.wantsValue name then
          match rest with
          | [] => none
          | next :: rest =>
            match Argument.ofText next with
            | .value value =>
              (a.takeOption name value).bind fun a => parseRun environment a rest
            | _ => none
        else (a.takeFlag name).bind fun a => parseRun environment a rest
      | .short _ => none

/-- Reads the arguments of the command that evaluates a text. -/
def parseEval (source : Option String) : List String → Option Command
  | [] => source.map .eval
  | s :: rest =>
    let argument := Argument.ofText s
    if argument.isVerbosity then parseEval source rest
    else if argument.isHelp then some .showHelp
    else
      match argument, source with
      | .endOfOptions, none =>
        match rest with
        | [text] => some (.eval text)
        | _ => none
      | .endOfOptions, some text => if rest.isEmpty then some (.eval text) else none
      | .value text, none => parseEval (some text) rest
      | _, _ => none

/-- Reads the arguments of the command that evaluates lines. -/
def parseRepl : List String → Option Command
  | [] => some .repl
  | s :: rest =>
    let argument := Argument.ofText s
    if argument.isVerbosity then parseRepl rest
    else if argument.isHelp then some .showHelp
    else
      match argument with
      | .endOfOptions => if rest.isEmpty then some .repl else none
      | _ => none

/-- Reads the arguments of the command that shows help: at most the name of a command. -/
def parseHelp : List String → Option Command
  | [] => some .showHelp
  | [name] => if ["run", "repl", "eval", "help"].contains name then some .showHelp else none
  | _ => none

/-- Reads all arguments; `none` if they are not understood. Without a command, lines are
evaluated. -/
def parse (environment : Option String) : List String → Option Command
  | [] => some .repl
  | s :: rest =>
    let argument := Argument.ofText s
    if argument.isVerbosity then parse environment rest
    else if argument.isHelp then some .showHelp
    else if argument.isVersion then some .showVersion
    else
      match argument with
      | .endOfOptions => if rest.isEmpty then some .repl else none
      | .value "run" => parseRun environment {} rest
      | .value "eval" => parseEval none rest
      | .value "repl" => parseRepl rest
      | .value "help" => parseHelp rest
      | _ => none

/-- What a run of the program leaves: its exit code and what it wrote. -/
structure Response where
  code : Nat
  stdout : String := ""
  stderr : String := ""

/-- What is written for a failure that no log shows. -/
def complaint : RunError → String
  | .io fault => "error: " ++ fault.text ++ "\n"
  | _ => ""

/-- The response to a single program. -/
def respond (showNotices : Bool) (r : RunReport) : Response :=
  let stdout := r.session.interpreter.console.printed
  match r.result with
  | .ok _ => { code := 0, stdout, stderr := r.log.render showNotices }
  | .error error => { code := 1, stdout, stderr := r.log.render showNotices ++ complaint error }

/-- The session with a line of its own output added. -/
def printLine (s : Session) (text : String) : Session :=
  (s.write (text ++ "\n")).2

/-- Adds the line of a result to the output. -/
def printResult (s : Session) : Except RunError (Option Value) → Session
  | .ok (some value) => printLine s value.display
  | _ => s

/-- Evaluates a line, and gives what is written to the error stream. -/
def evalLine (fs : FileSystem) (s : Session) (line : String) : Session × String :=
  let report := s.runSource fs line {}
  let errors := report.log.render (!s.config.suppressNotices)
    ++ (match report.result with
      | .error error => complaint error
      | .ok _ => "")
  (printResult report.session report.result, errors)

/-- What a line of the dialogue asks for. -/
inductive Line
  | quit
  | skip
  | showStack
  | code (text : String)

/-- The meaning of a line, blanks at its ends apart. -/
def Line.ofText (line : String) : Line :=
  let trimmed := Text.trim line
  if trimmed == ":quit" || trimmed == ":exit" then .quit
  else if trimmed.isEmpty then .skip
  else if trimmed == ":stack" then .showStack
  else .code trimmed

/-- Why the dialogue ends before its input does. -/
inductive LineFault
  /-- The bytes of a line cannot be read as text. -/
  | unreadable (fault : Fault)
  /-- A backspace would cut a character in two. -/
  | cutCharacter

/-- The exit code of a dialogue that ends early. -/
def LineFault.code : LineFault → Nat
  | unreadable _ => 1
  | cutCharacter => 101

/-- What is written when a dialogue ends early. -/
def LineFault.complaint : LineFault → String
  | unreadable fault => CommandLine.complaint (.io fault)
  | cutCharacter => ""

/-- The text of a typed line, after its backspaces have done their work. -/
def typedText (bytes : List UInt8) : Except LineFault String :=
  match Console.decode bytes with
  | .error fault => .error (.unreadable fault)
  | .ok typed =>
    match Text.erase typed with
    | some line => .ok line
    | none => .error .cutCharacter

/-- Takes the next line of the dialogue off the input. -/
def nextLine (s : Session) : List UInt8 × Session :=
  let console := s.interpreter.console
  let (bytes, input) := console.input.dialogueLine
  (bytes, s.withConsole { console with input })

/-- Evaluates lines until the input ends or a line asks to stop. At most `count` lines are read;
`errors` is what has been written to the error stream. -/
def dialogue (fs : FileSystem) : Nat → Session → String → Response
  | 0, s, errors => { code := 0, stdout := s.interpreter.console.printed, stderr := errors }
  | count + 1, s, errors =>
    let response : Response :=
      { code := 0, stdout := s.interpreter.console.printed, stderr := errors }
    let (bytes, s) := nextLine s
    if bytes.isEmpty then response
    else
      match typedText bytes with
      | .error fault => { response with code := fault.code, stderr := errors ++ fault.complaint }
      | .ok line =>
        match Line.ofText line with
        | .quit => response
        | .skip => dialogue fs count s errors
        | .showStack => dialogue fs count (printLine s s.interpreter.stack.display) errors
        | .code text =>
          let (s, more) := evalLine fs s text
          dialogue fs count s (errors ++ more)

/-- What surrounds a run of the program. -/
structure Surroundings where
  files : FileSystem
  /-- The library directory that the environment names. -/
  library : Option String := none
  /-- The bytes on standard input. -/
  input : List UInt8 := []
  random : RandomSource := {}

/-- A fresh session in these surroundings. -/
def Surroundings.session (w : Surroundings) (config : Config) : Session :=
  Session.new config { input := .ofBytes w.input } w.random

/-- Does what a command asks for. A dialogue has no more lines than there are bytes. -/
def execute (w : Surroundings) : Command → Response
  | .showVersion => { code := 0, stdout := version }
  | .showHelp => { code := 0, stdout := help }
  | .run file config =>
    respond (!config.suppressNotices) ((w.session config).runFile w.files file {})
  | .eval source =>
    let report := (w.session {}).runSource w.files source {}
    respond true { report with session := printResult report.session report.result }
  | .repl => dialogue w.files (w.input.length + 1) (w.session {}) ""

/-- The response to arguments that are not understood. -/
def usageError : Response := { code := 2, stderr := help }

/-- Runs the program. -/
def run (w : Surroundings) (args : List String) : Response :=
  match parse w.library args with
  | some command => execute w command
  | none => usageError

end CommandLine

end Catena
