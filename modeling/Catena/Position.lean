/-!
# Positions in source text

A position counts lines and characters from one. A character is one Unicode scalar value, and only a
line feed ends a line.
-/

namespace Catena

/-- A line and a character within it. -/
structure Position where
  line : Nat
  character : Nat
  deriving DecidableEq

namespace Position

/-- Where every text starts. -/
def start : Position := ⟨1, 1⟩

/-- Stands in for a place in a text that was never written, such as that of a curried value. -/
def synthetic : Position := ⟨0, 0⟩

/-- The position after the character `c` at `p`. -/
def next (p : Position) (c : Char) : Position :=
  if c = '\n' then ⟨p.line + 1, 1⟩ else ⟨p.line, p.character + 1⟩

/-- The position after the text `cs` that starts at `p`. -/
def after (p : Position) (cs : List Char) : Position :=
  cs.foldl next p

@[simp] theorem after_nil (p : Position) : p.after [] = p := rfl

@[simp] theorem after_cons (p : Position) (c : Char) (cs : List Char) :
    p.after (c :: cs) = (p.next c).after cs := rfl

theorem after_append (p : Position) (cs ds : List Char) :
    p.after (cs ++ ds) = (p.after cs).after ds := by
  simp [after, List.foldl_append]

/-- Whether `p` stands at or before `q` in a text. -/
def atOrBefore (p q : Position) : Bool :=
  p.line < q.line || (p.line == q.line && p.character ≤ q.character)

/-- How messages name a position. -/
def text (p : Position) : String :=
  s!"line {p.line} character {p.character}"

end Position

end Catena
