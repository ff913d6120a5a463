/-!
# Replacing a pattern in a text

Occurrences are taken from left to right and do not overlap; what has been put in is not searched
again. Patterns are never empty here.
-/

namespace Catena.Text

/-- Whether `pattern` occurs somewhere in `text`. -/
def occursIn (pattern : List Char) : List Char → Bool
  | [] => pattern.isEmpty
  | c :: rest => pattern.isPrefixOf (c :: rest) || occursIn pattern rest

/-- `text` with each occurrence of `pattern`, from left to right, replaced by `new`. -/
def replaceAll (pattern new : List Char) : List Char → List Char
  | [] => []
  | c :: rest =>
    if pattern.isPrefixOf (c :: rest) then
      new ++ replaceAll pattern new (rest.drop (pattern.length - 1))
    else
      c :: replaceAll pattern new rest
termination_by text => text.length
decreasing_by
  · simp only [List.length_drop, List.length_cons]; omega
  · simp

end Catena.Text
