import Catena.Position
import Catena.Number

/-!
# Tokens

A token is a symbol, a keyword, a literal, an identifier or the end of the input, with the text it
was read from and the place where that text starts. Only literal tokens carry a literal.
-/

namespace Catena

/-- A literal as it stands in source text: a number, a string or a boolean. -/
inductive Literal
  | number (n : Float)
  | string (s : String)
  | boolean (b : Bool)

/-- How a boolean is written. -/
def booleanText (b : Bool) : String :=
  if b then "true" else "false"

/-- The text of a literal, with a number in its plain form and a string without quotes. -/
def Literal.text : Literal → String
  | .number n => Number.plain n
  | .string s => s
  | .boolean b => booleanText b

/-- Literals are equal when they have the same kind and value; numbers compare as numbers. -/
def Literal.same : Literal → Literal → Bool
  | .number a, .number b => a == b
  | .string a, .string b => a == b
  | .boolean a, .boolean b => a == b
  | _, _ => false

/-- The punctuation and operators of the language. -/
inductive Symbol
  | leftBrace | rightBrace
  | leftParen | rightParen
  | leftBracket | rightBracket
  | comma | dot
  | plus | minus | star | slash | percent
  | question | doubleQuestion
  | less | lessEqual | greater | greaterEqual
  | equalEqual | notEqual | equal
  | or | and
  | arrow
  deriving DecidableEq

namespace Symbol

/-- How a symbol is spelled. -/
def text : Symbol → String
  | leftBrace => "\x7b"
  | rightBrace => "\x7d"
  | leftParen => "("
  | rightParen => ")"
  | leftBracket => "["
  | rightBracket => "]"
  | comma => ","
  | dot => "."
  | plus => "+"
  | minus => "-"
  | star => "*"
  | slash => "/"
  | percent => "%"
  | question => "?"
  | doubleQuestion => "??"
  | less => "<"
  | lessEqual => "<="
  | greater => ">"
  | greaterEqual => ">="
  | equalEqual => "=="
  | notEqual => "!="
  | equal => "="
  | or => "||"
  | and => "&&"
  | arrow => "->"

/-- Every symbol, those of two characters before those of one, so that the first symbol that a text
starts with is the longest. -/
def all : List Symbol :=
  [doubleQuestion, lessEqual, greaterEqual, equalEqual, notEqual, or, and, arrow,
    leftBrace, rightBrace, leftParen, rightParen, leftBracket, rightBracket, comma, dot,
    plus, minus, star, slash, percent, question, less, greater, equal]

/-- The name of a symbol in printed trees and messages. -/
def name : Symbol → String
  | leftBrace => "LEFT_BRACE"
  | rightBrace => "RIGHT_BRACE"
  | leftParen => "LEFT_BRACKET"
  | rightParen => "RIGHT_BRACKET"
  | leftBracket => "LEFT_SQ_BRACKET"
  | rightBracket => "RIGHT_SQ_BRACKET"
  | comma => "COMMA"
  | dot => "DOT"
  | plus => "PLUS"
  | minus => "MINUS"
  | star => "STAR"
  | slash => "SLASH"
  | percent => "MOD"
  | question => "QUESTION_MARK"
  | doubleQuestion => "DOUBLE_QUESTION_MARK"
  | less => "LESS_THAN"
  | lessEqual => "LESS_THAN_EQUAL"
  | greater => "GREATER_THAN"
  | greaterEqual => "GREATER_THAN_EQUAL"
  | equalEqual => "EQUAL_EQUAL"
  | notEqual => "NOT_EQUAL"
  | equal => "EQUAL"
  | or => "OR"
  | and => "AND"
  | arrow => "ARROW"

end Symbol

/-- The reserved words. -/
inductive Keyword
  | importWord | fromWord | asWord
  | defWord | letWord | publicWord
  | numWord | boolWord | strWord | seqWord | arrayWord | anyWord | voidWord
  deriving DecidableEq

namespace Keyword

/-- How a keyword is spelled. -/
def text : Keyword → String
  | importWord => "import"
  | fromWord => "from"
  | asWord => "as"
  | defWord => "def"
  | letWord => "let"
  | publicWord => "public"
  | numWord => "num"
  | boolWord => "bool"
  | strWord => "str"
  | seqWord => "seq"
  | arrayWord => "array"
  | anyWord => "any"
  | voidWord => "void"

/-- The name of a keyword in printed trees and messages. -/
def name : Keyword → String
  | importWord => "IMPORT"
  | fromWord => "FROM"
  | asWord => "AS"
  | defWord => "DEF"
  | letWord => "LET"
  | publicWord => "PUBLIC"
  | numWord => "NUM"
  | boolWord => "BOOL"
  | strWord => "STR"
  | seqWord => "SEQ"
  | arrayWord => "ARRAY"
  | anyWord => "ANY"
  | voidWord => "VOID"

/-- Every keyword. -/
def all : List Keyword :=
  [importWord, fromWord, asWord, defWord, letWord, publicWord, numWord, boolWord, strWord, seqWord,
    arrayWord, anyWord, voidWord]

/-- The keyword that a word spells, if it is reserved. -/
def ofText? (word : String) : Option Keyword :=
  all.find? (·.text == word)

end Keyword

/-- What a token is. -/
inductive TokenKind
  | symbol (s : Symbol)
  | keyword (k : Keyword)
  | literal (value : Literal)
  | identifier
  | endOfInput

namespace TokenKind

/-- The name of a kind in printed trees and messages. -/
def name : TokenKind → String
  | symbol s => s.name
  | keyword k => k.name
  | literal (.string _) => "STRING_LITERAL"
  | literal (.number _) => "NUMBER_LITERAL"
  | literal (.boolean _) => "BOOLEAN_LITERAL"
  | identifier => "IDENTIFIER"
  | endOfInput => "EOF"

/-- Whether this is the symbol `s`. -/
def isSymbol (s : Symbol) : TokenKind → Bool
  | symbol t => s == t
  | _ => false

/-- Whether this is the keyword `k`. -/
def isKeyword (k : Keyword) : TokenKind → Bool
  | keyword l => k == l
  | _ => false

/-- Whether this is an identifier. -/
def isIdentifier : TokenKind → Bool
  | identifier => true
  | _ => false

/-- Whether this is a string literal. -/
def isString : TokenKind → Bool
  | literal (.string _) => true
  | _ => false

/-- The literal that a token of this kind carries. -/
def literal? : TokenKind → Option Literal
  | literal value => some value
  | _ => none

end TokenKind

/-- A token with the text it was read from and where that text starts. -/
structure Token where
  kind : TokenKind
  lexeme : String
  position : Position

/-- The token that ends every input. -/
def Token.endOfInput (position : Position) : Token :=
  { kind := .endOfInput, lexeme := "", position }

end Catena
