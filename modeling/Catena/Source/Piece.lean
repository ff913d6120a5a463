import Catena.Source.Token
import Catena.Text.Blank
import Catena.Text.Substitution

/-!
# Pieces of source text

A source text is cut into pieces from left to right: blanks and comments, tokens, and what starts no
token. Nothing is dropped, so the texts of the pieces put together give the source back
(`pieces_text`). Each piece is as long as it can be.
-/

namespace Catena.Source

open Catena.Text

/-- One piece of a source text. -/
inductive Piece
  /-- A blank character or a comment. -/
  | gap (text : List Char)
  /-- A token. -/
  | token (kind : TokenKind) (text : List Char)
  /-- A numeral that spells no number. -/
  | malformed (text : List Char)
  /-- A character that starts no token. -/
  | stray (c : Char)
  /-- A string without its closing quote; it runs to the end of the source. -/
  | openString (text : List Char)

/-- The characters that a piece takes up. -/
def Piece.text : Piece → List Char
  | gap text => text
  | token _ text => text
  | malformed text => text
  | stray c => [c]
  | openString text => text

/-- Whether `c` is one of the 26 letters in either case. -/
def isLetter (c : Char) : Bool :=
  ('a' ≤ c && c ≤ 'z') || ('A' ≤ c && c ≤ 'Z')

/-- Whether `c` is a decimal digit. -/
def isDigit (c : Char) : Bool :=
  '0' ≤ c && c ≤ '9'

/-- Whether `c` can stand inside a word after its first letter. -/
def isWordChar (c : Char) : Bool :=
  isLetter c || isDigit c || c == '_' || c == '-'

/-- The text of a string literal between its quotes, with the escapes of tab, line feed and carriage
return replaced. A backslash before any other character stands for itself. -/
def unescape (content : List Char) : List Char :=
  replaceAll ['\\', 'r'] ['\r']
    (replaceAll ['\\', 'n'] ['\n'] (replaceAll ['\\', 't'] ['\t'] content))

/-- What a word is: a boolean, a keyword or an identifier. -/
def wordKind (word : String) : TokenKind :=
  if word = "true" then .literal (.boolean true)
  else if word = "false" then .literal (.boolean false)
  else match Keyword.ofText? word with
    | some keyword => .keyword keyword
    | none => .identifier

/-- The word that starts with the letter `c`. -/
def word (c : Char) (rest : List Char) : Piece × List Char :=
  let text := c :: rest.takeWhile isWordChar
  (.token (wordKind (String.ofList text)) text, rest.dropWhile isWordChar)

/-- Splits off digits and, after a point, more digits. -/
def splitNumeral (cs : List Char) : List Char × List Char :=
  match cs.dropWhile isDigit with
  | '.' :: rest => (cs.takeWhile isDigit ++ '.' :: rest.takeWhile isDigit, rest.dropWhile isDigit)
  | rest => (cs.takeWhile isDigit, rest)

/-- A numeral as a piece: the token of its number, if it spells one. -/
def numeralPiece (text : List Char) : Piece :=
  match Number.ofText? (String.ofList text) with
  | some n => .token (.literal (.number n)) text
  | none => .malformed text

/-- The numeral that starts with `c`, a digit or the minus sign before one. -/
def numeral (c : Char) (rest : List Char) : Piece × List Char :=
  (numeralPiece (c :: (splitNumeral rest).1), (splitNumeral rest).2)

/-- The string literal that starts with the quote `c`. -/
def quotation (c : Char) (rest : List Char) : Piece × List Char :=
  let content := rest.takeWhile (· != '"')
  match rest.dropWhile (· != '"') with
  | [] => (.openString (c :: rest), [])
  | quote :: after =>
    (.token (.literal (.string (String.ofList (unescape content)))) (c :: content ++ [quote]),
      after)

/-- Splits off a comment up to and including its closing mark, or all of the text without one. -/
def splitComment : List Char → List Char × List Char
  | [] => ([], [])
  | '*' :: '/' :: rest => (['*', '/'], rest)
  | c :: rest =>
    let split := splitComment rest
    (c :: split.1, split.2)

/-- The comment that `c :: rest` starts with, if it starts with one: to the end of the line after
two slashes, to the closing mark after a slash and a star. -/
def comment? (c : Char) (rest : List Char) : Option (Piece × List Char) :=
  match c, rest with
  | '/', '/' :: after =>
    some (.gap ('/' :: '/' :: after.takeWhile (· != '\n')), after.dropWhile (· != '\n'))
  | '/', '*' :: after => some (.gap ('/' :: '*' :: (splitComment after).1), (splitComment after).2)
  | _, _ => none

/-- The longest symbol that `cs` starts with. -/
def symbolAt? (cs : List Char) : Option Symbol :=
  Symbol.all.find? (·.text.toList.isPrefixOf cs)

/-- Whether `c :: rest` starts with a numeral: a digit, or the minus sign before one. -/
def startsNumeral (c : Char) (rest : List Char) : Bool :=
  isDigit c || (c == '-' && rest.head?.any isDigit)

/-- The first piece of `c :: rest`, and what is left after it. -/
def firstPiece (c : Char) (rest : List Char) : Piece × List Char :=
  if isBlank c then (.gap [c], rest)
  else if isLetter c then word c rest
  else if startsNumeral c rest then numeral c rest
  else if c = '"' then quotation c rest
  else match comment? c rest with
    | some result => result
    | none =>
      match symbolAt? (c :: rest) with
      | some symbol =>
        (.token (.symbol symbol) symbol.text.toList, (c :: rest).drop symbol.text.toList.length)
      | none => (.stray c, rest)

theorem splitNumeral_append (cs : List Char) :
    (splitNumeral cs).1 ++ (splitNumeral cs).2 = cs := by
  unfold splitNumeral
  split
  · next rest h =>
    simp only [List.append_assoc, List.cons_append, List.takeWhile_append_dropWhile]
    rw [← h, List.takeWhile_append_dropWhile]
  · exact List.takeWhile_append_dropWhile

theorem splitComment_append (cs : List Char) :
    (splitComment cs).1 ++ (splitComment cs).2 = cs := by
  fun_induction splitComment cs with
  | case1 => rfl
  | case2 rest => rfl
  | case3 c rest _ split ih => simp [split, ih]

theorem word_append (c : Char) (rest : List Char) :
    (word c rest).1.text ++ (word c rest).2 = c :: rest := by
  simp [word, Piece.text]

@[simp] theorem text_numeralPiece (text : List Char) : (numeralPiece text).text = text := by
  unfold numeralPiece; split <;> rfl

theorem numeral_append (c : Char) (rest : List Char) :
    (numeral c rest).1.text ++ (numeral c rest).2 = c :: rest := by
  simp [numeral, splitNumeral_append]

theorem quotation_append (c : Char) (rest : List Char) :
    (quotation c rest).1.text ++ (quotation c rest).2 = c :: rest := by
  unfold quotation
  split
  · simp [Piece.text]
  · next quote after h =>
    simp only [Piece.text, List.cons_append, List.append_assoc, List.nil_append, List.cons.injEq,
      true_and]
    rw [← h, List.takeWhile_append_dropWhile]

theorem comment?_append {c : Char} {rest : List Char} {result : Piece × List Char}
    (h : comment? c rest = some result) : result.1.text ++ result.2 = c :: rest := by
  unfold comment? at h
  split at h
  · cases h; simp [Piece.text]
  · cases h; simp [Piece.text, splitComment_append]
  · simp at h

theorem symbolAt?_isPrefixOf {cs : List Char} {symbol : Symbol} (h : symbolAt? cs = some symbol) :
    symbol.text.toList <+: cs := by
  have found := List.find?_some (p := fun s : Symbol => s.text.toList.isPrefixOf cs) h
  exact List.isPrefixOf_iff_prefix.1 found

/-- A first piece and what is left after it make up the text. -/
theorem firstPiece_append (c : Char) (rest : List Char) :
    (firstPiece c rest).1.text ++ (firstPiece c rest).2 = c :: rest := by
  unfold firstPiece
  split
  · rfl
  split
  · exact word_append c rest
  split
  · exact numeral_append c rest
  split
  · exact quotation_append c rest
  split
  · next h => exact comment?_append h
  split
  · next symbol h =>
    obtain ⟨after, h⟩ := symbolAt?_isPrefixOf h
    rw [← h]
    simp [Piece.text]
  · rfl

theorem Symbol.text_ne_nil (symbol : Symbol) : symbol.text.toList ≠ [] := by
  cases symbol <;> decide

/-- A first piece takes at least one character. -/
theorem firstPiece_text_ne_nil (c : Char) (rest : List Char) :
    (firstPiece c rest).1.text ≠ [] := by
  unfold firstPiece
  split
  · simp [Piece.text]
  split
  · simp [word, Piece.text]
  split
  · simp [numeral]
  split
  · unfold quotation; split <;> simp [Piece.text]
  split
  · next h =>
    unfold comment? at h
    split at h
    · cases h; simp [Piece.text]
    · cases h; simp [Piece.text]
    · simp at h
  split
  · next symbol _ => exact Symbol.text_ne_nil symbol
  · simp [Piece.text]

theorem length_firstPiece_lt (c : Char) (rest : List Char) :
    (firstPiece c rest).2.length < (c :: rest).length := by
  have whole := congrArg List.length (firstPiece_append c rest)
  have some : 0 < (firstPiece c rest).1.text.length :=
    List.length_pos_iff.2 (firstPiece_text_ne_nil c rest)
  rw [List.length_append] at whole
  omega

/-- All pieces of a text, in order. -/
def pieces : List Char → List Piece
  | [] => []
  | c :: rest => (firstPiece c rest).1 :: pieces (firstPiece c rest).2
termination_by cs => cs.length
decreasing_by exact length_firstPiece_lt c rest

/-- The pieces of a text put together give the text back. -/
theorem pieces_text (cs : List Char) : (pieces cs).flatMap Piece.text = cs := by
  fun_induction pieces cs with
  | case1 => rfl
  | case2 c rest ih => rw [List.flatMap_cons, ih, firstPiece_append]

end Catena.Source
