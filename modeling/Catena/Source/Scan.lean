import Catena.Diagnostic
import Catena.Source.Piece

/-!
# Scanning source text

Scanning places the pieces of a text and keeps the tokens. Errors do not stop it: everything that
starts no token is reported at once, in the order of the text.
-/

namespace Catena.Source

/-- Pairs each piece with the position of its first character. -/
def locate : Position → List Piece → List (Position × Piece)
  | _, [] => []
  | p, piece :: rest => (p, piece) :: locate (p.after piece.text) rest

/-- The token that a placed piece is. -/
def token? : Position × Piece → Option Token
  | (position, .token kind text) => some { kind, lexeme := String.ofList text, position }
  | _ => none

/-- What is wrong with a piece. -/
def Piece.error? : Piece → Option LexError
  | malformed text => some (.invalidNumber (String.ofList text))
  | stray c => some (.unexpectedCharacter c)
  | openString _ => some .unterminatedString
  | gap _ => none
  | token _ _ => none

/-- The diagnostic of a placed piece that is no token and no gap. -/
def diagnostic? (placed : Position × Piece) : Option Diagnostic :=
  placed.2.error?.map fun error => Diagnostic.located (.lex error) placed.1

/-- The tokens of a text and the place where the text ends. -/
structure Scanned where
  tokens : List Token
  finish : Position

/-- The token after the last one. -/
def Scanned.endToken (s : Scanned) : Token :=
  Token.endOfInput s.finish

/-- The tokens of a text with the token that ends it. -/
def Scanned.all (s : Scanned) : List Token :=
  s.tokens ++ [s.endToken]

/-- Cuts a source text into tokens, or reports everything in it that starts no token. -/
def scan (source : String) : Except (List Diagnostic) Scanned :=
  let cs := source.toList
  let placed := locate .start (pieces cs)
  match placed.filterMap diagnostic? with
  | [] => .ok { tokens := placed.filterMap token?, finish := Position.start.after cs }
  | errors => .error errors

end Catena.Source
