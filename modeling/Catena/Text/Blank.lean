/-!
# Blank characters

The characters that separate words: tab, line feed, vertical tab, form feed, carriage return, the
plain space and every other character with the white-space property. Trimming removes them from
the ends of a text.
-/

namespace Catena.Text

/-- Whether `c` lies in one of the inclusive code point ranges. -/
def inRanges (ranges : List (Nat × Nat)) (c : Char) : Bool :=
  ranges.any fun r => r.1 ≤ c.toNat && c.toNat ≤ r.2

/-- The ranges of blank characters, in ascending order. -/
def blankRanges : List (Nat × Nat) :=
  [(0x9, 0xD), (0x20, 0x20), (0x85, 0x85), (0xA0, 0xA0), (0x1680, 0x1680), (0x2000, 0x200A),
    (0x2028, 0x2029), (0x202F, 0x202F), (0x205F, 0x205F), (0x3000, 0x3000)]

/-- Whether `c` is a blank character. -/
def isBlank (c : Char) : Bool :=
  inRanges blankRanges c

/-- `cs` without the blanks it starts with. -/
def dropBlanks (cs : List Char) : List Char :=
  cs.dropWhile isBlank

/-- `cs` without the longest end whose characters all satisfy `p`. -/
def dropEndWhile (p : Char → Bool) (cs : List Char) : List Char :=
  (cs.reverse.dropWhile p).reverse

/-- `s` without the blanks it ends with. -/
def trimEnd (s : String) : String :=
  String.ofList (dropEndWhile isBlank s.toList)

/-- `s` without the blanks at either end. -/
def trim (s : String) : String :=
  String.ofList (dropEndWhile isBlank (dropBlanks s.toList))

end Catena.Text
