import Catena.Fault
import Catena.Source.Token
import Catena.ValueType

/-!
# Diagnostics

Everything that can be wrong with a program, as a cause: one inductive type per stage, each with the
wording of its messages in one place. A diagnostic is a cause with the place where it was noticed,
the file it belongs to, and the calls that led there.
-/

namespace Catena

/-- The stages a program goes through, each with its own kind of diagnostic. -/
inductive Stage
  | lexer
  | parser
  | scope
  | module
  | runtime
  deriving DecidableEq

/-- The name of a stage in messages. -/
def Stage.name : Stage → String
  | .lexer => "Lexer"
  | .parser => "Parser"
  | .scope => "Scope"
  | .module => "Module"
  | .runtime => "Runtime"

/-- What can be wrong with the characters of a source text. -/
inductive LexError
  | unexpectedCharacter (c : Char)
  | unterminatedString
  | invalidNumber (lexeme : String)

/-- The wording of lexical errors. -/
def LexError.message : LexError → String
  | unexpectedCharacter c => "Unexpected character '" ++ c.toString ++ "'."
  | unterminatedString => "Unterminated string literal."
  | invalidNumber lexeme => s!"Invalid number literal '{lexeme}'."

/-- The places where a type must stand in a signature. -/
inductive SignatureSide
  | before
  | after
  deriving DecidableEq

/-- The text after which the types of one side of a signature are expected. -/
def SignatureSide.opening : SignatureSide → String
  | .before => "("
  | .after => "->"

/-- What can be wrong with the order of tokens. -/
inductive ParseError
  | unexpectedToken (lexeme kind : String)
  | unterminatedSequence
  | unterminatedBody
  | expectedFunctionName
  | expectedArrow
  | expectedSignatureEnd
  | expectedBody
  | expectedType (side : SignatureSide)
  | voidAmongTypes
  | expectedLetName
  | expectedMember
  | expectedArrayEnd
  | expectedFrom
  | expectedNamespace
  | expectedNamespaceName
  | expectedNamespaceEnd
  | expectedTarget
  | starAmongTargets
  | aliasOfStar
  | aliasOfMany
  | expectedAlias
  | importWithoutExtension
  | forbiddenImportCharacter (file : String) (c : Char)

/-- The wording of parse errors. -/
def ParseError.message : ParseError → String
  | unexpectedToken lexeme kind => s!"Unexpected token: '{lexeme}' ({kind})."
  | unterminatedSequence => "Unterminated sequence."
  | unterminatedBody => "Unterminated function body."
  | expectedFunctionName => "Expecting function name after 'def'."
  | expectedArrow => "Expecting '->' after pre-conditions."
  | expectedSignatureEnd => "Expecting closing bracket after pre-conditions and post-conditions."
  | expectedBody => "Expecting '\x7b' after function signature definition."
  | expectedType side => "Expecting type after '" ++ side.opening ++ "'."
  | voidAmongTypes => "Cannot specify 'void' with multiple types."
  | expectedLetName => "Expecting identifier after 'let'."
  | expectedMember => "Expecting identifier after '.'."
  | expectedArrayEnd => "Expecting closing ']' after array definition."
  | expectedFrom => "Expecting 'from' after import target."
  | expectedNamespace => "Expecting namespace after 'from'."
  | expectedNamespaceName => "Expecting namespace identifier after '<'."
  | expectedNamespaceEnd => "Expecting '>' after namespace identifier."
  | expectedTarget => "Expecting target after 'import'."
  | starAmongTargets => "Cannot mix specific identifiers and '*' in import."
  | aliasOfStar => "Cannot alias whole namespace."
  | aliasOfMany => "Cannot alias multiple imports."
  | expectedAlias => "Expecting identifier to use as alias after 'as'."
  | importWithoutExtension => "External file imports must end with '.twl'."
  | forbiddenImportCharacter file c =>
    "Forbidden character in external file import: '" ++ file ++ "' -> '" ++ c.toString ++ "'"

/-- What can be wrong, or worth a notice, about where names and imports stand. -/
inductive ScopeError
  | nestedFunction
  | misplacedImport
  | shadowedLet (name function renamed : String)

/-- The wording of scope errors and notices. -/
def ScopeError.message : ScopeError → String
  | nestedFunction => "Cannot declare a function within another function."
  | misplacedImport => "Cannot import here, all imports must be first."
  | shadowedLet name function renamed =>
    s!"'{name}' in '{function}' shadows a top-level let and is renamed to '{renamed}'."

/-- What can be wrong with the files of a program. -/
inductive ModuleError
  | notSourceFile
  | unreadable (file : String) (fault : Fault)
  | notImportable (target : String) (fault : Fault)
  | circular (target importer : String)

/-- The wording of module errors. -/
def ModuleError.message : ModuleError → String
  | notSourceFile => "Source files must end with the '.twl' extension."
  | unreadable file fault => "Could not read file '" ++ file ++ "': " ++ fault.text ++ "."
  | notImportable target fault => "Could not import '" ++ target ++ "': " ++ fault.text ++ "."
  | circular target importer =>
    s!"Circular reference detected when importing '{target}' from '{importer}'."

/-- The two moments at which a call's signature is checked. -/
inductive Check
  | pre
  | post
  deriving DecidableEq

/-- How messages name the conditions of a check. -/
def Check.wording : Check → String
  | .pre => "pre-conditions"
  | .post => "post-conditions"

/-- Which part of a signature the stack did not meet. -/
inductive Aspect
  | length
  | type
  deriving DecidableEq

/-- How messages name the part of a signature. -/
def Aspect.wording : Aspect → String
  | .length => "length"
  | .type => "type"

/-- A stack that does not have the shape a call asks for. Types are listed from the top down. -/
structure ShapeError where
  check : Check
  aspect : Aspect
  lexeme : String
  expected : List ValueType
  found : List ValueType

namespace ShapeError

/-- The message line about the item `index` places below the top. -/
def itemLine (index : Nat) (expected : ValueType) (found : Option ValueType) : String :=
  let item := s!"Item {index} from the top of the stack must be of type '" ++ expected.name ++ "', "
  match found with
  | some type => item ++ "'" ++ type.name ++ "' was found."
  | none => item ++ "nothing was found."

/-- One line for each expected type, from `index` places below the top downwards. -/
def itemLines : Nat → List ValueType → List ValueType → List String
  | _, [], _ => []
  | index, e :: es, [] => itemLine index e none :: itemLines (index + 1) es []
  | index, e :: es, f :: fs => itemLine index e (some f) :: itemLines (index + 1) es fs

/-- What was expected and what was found, line by line. -/
def message (e : ShapeError) : String :=
  let head := "Stack does not meet " ++ e.aspect.wording ++ " " ++ e.check.wording ++ " for "
    ++ e.lexeme ++ "."
  let sizes := s!"Length must be at least {e.expected.length}, current length is {e.found.length}."
  String.intercalate "\n" (head :: sizes :: itemLines 0 e.expected e.found)

end ShapeError

/-- What can go wrong while a program runs. -/
inductive RuntimeError
  | underflow
  | wrongType (expected found : ValueType)
  | shape (error : ShapeError)
  | divisionByZero
  | comparisonArity
  | incomparable (left right : ValueType)
  | stringComparison
  | booleanComparison
  | alreadyDefined (name : String)
  | unknownIdentifier (name : String)
  | invalidNamespace (name : String)
  | depthExceeded (limit : Nat)
  | unknownNamespace (target : String)
  | notPublic (name target : String)
  | mixedArray
  | invalidElement
  | wrongElement (expected found : ValueType)
  | emptyArray
  | noOutput
  | noInput
  | writeFailed (fault : Fault)
  | readFailed (fault : Fault)
  | notNumeric (line : String)
  | cannotCurry (type : ValueType)
  | formatUnderflow

/-- The wording of run-time errors. -/
def RuntimeError.message : RuntimeError → String
  | underflow => "Underflow."
  | wrongType expected found =>
    "Expected '" ++ expected.name ++ "' on the stack, '" ++ found.name ++ "' was found."
  | shape error => error.message
  | divisionByZero => "Division by zero."
  | comparisonArity => "Two arguments are required for comparisons."
  | incomparable left right =>
    "This comparison cannot be done between '" ++ left.name ++ "' and '" ++ right.name ++ "'."
  | stringComparison => "Strings can only be checked with == and !=."
  | booleanComparison => "Booleans can only be checked with '==', '!=', '||' and '&&'."
  | alreadyDefined name => s!"A function definition with the token '{name}' already exists."
  | unknownIdentifier name => s!"Unknown identifier '{name}'."
  | invalidNamespace name => s!"Invalid namespace requested '{name}'."
  | depthExceeded limit => s!"Maximum call depth of {limit} exceeded."
  | unknownNamespace target => s!"Unknown namespace '{target}'."
  | notPublic name target => s!"'{name}' is not a public member of '{target}'."
  | mixedArray => "Items in an array must all be of the same type."
  | invalidElement => "Invalid type. Only '" ++ ValueType.number.name ++ "', '"
    ++ ValueType.boolean.name ++ "', or '" ++ ValueType.string.name
    ++ "' can be added to an array."
  | wrongElement expected found =>
    "Invalid type for array. Expected " ++ expected.name ++ ", received " ++ found.name ++ "."
  | emptyArray => "Cannot pop array of size 0."
  | noOutput => "No output stream available."
  | noInput => "No input stream available."
  | writeFailed fault => "Could not write output: " ++ fault.text ++ "."
  | readFailed fault => "Could not read input: " ++ fault.text ++ "."
  | notNumeric line => s!"Expected a number as input, received '{line}'."
  | cannotCurry type => "Cannot curry " ++ type.name ++ "."
  | formatUnderflow => "Format string error: stack is empty."

/-- Why a diagnostic was made. `stated` is for messages that come from outside the library. -/
inductive Cause
  | lex (error : LexError)
  | parse (error : ParseError)
  | scope (error : ScopeError)
  | module (error : ModuleError)
  | runtime (error : RuntimeError)
  | stated (stage : Stage) (message : String)

namespace Cause

/-- The stage at which a cause arises. -/
def stage : Cause → Stage
  | lex _ => .lexer
  | parse _ => .parser
  | scope _ => .scope
  | module _ => .module
  | runtime _ => .runtime
  | stated stage _ => stage

/-- The wording of a cause. -/
def message : Cause → String
  | lex error => error.message
  | parse error => error.message
  | scope error => error.message
  | module error => error.message
  | runtime error => error.message
  | stated _ message => message

end Cause

/-- A remark added to a diagnostic on its way up. -/
inductive Note
  /-- The call at this place led to the error. -/
  | calledFrom (site : Position)
  /-- A remark from outside the library. -/
  | stated (text : String)

/-- The wording of a note. -/
def Note.text : Note → String
  | .calledFrom site => s!"called from line {site.line}, character {site.character}"
  | .stated text => text

/-- A cause, where it was noticed, and what led there. -/
structure Diagnostic where
  cause : Cause
  position : Option Position := none
  file : Option String := none
  notes : List Note := []

namespace Diagnostic

/-- A diagnostic at a place of a text. -/
def located (cause : Cause) (position : Position) : Diagnostic :=
  { cause, position := some position }

/-- A run-time diagnostic that has not been located yet. -/
def ofRuntime (error : RuntimeError) : Diagnostic :=
  { cause := .runtime error }

/-- The stage that made the diagnostic. -/
def stage (d : Diagnostic) : Stage :=
  d.cause.stage

/-- The message without place and notes. -/
def message (d : Diagnostic) : String :=
  d.cause.message

/-- The message followed by its notes, one line each. -/
def annotated (d : Diagnostic) : String :=
  d.message ++ String.join (d.notes.map fun note => "\n  note: " ++ note.text)

/-- The place in parentheses, as it follows a message. -/
def placeText (d : Diagnostic) : String :=
  match d.position with
  | some position => " (" ++ position.text ++ ")"
  | none => ""

/-- The notes below a message, each on a line of its own. -/
def notesText (d : Diagnostic) : String :=
  if d.notes.isEmpty then ""
  else "\n" ++ String.join (d.notes.map fun note => "  note: " ++ note.text ++ "\n")

/-- The whole diagnostic as text. -/
def text (d : Diagnostic) : String :=
  d.stage.name ++ ": " ++ d.message ++ d.placeText ++ d.notesText

end Diagnostic

end Catena
