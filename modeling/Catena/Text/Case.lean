import Catena.Text.CaseTable

/-!
# Upper and lower case

Case is changed character by character, with one exception: a capital sigma becomes the final
lower-case form where a word ends, that is where a cased character stands before it and none stands
after it. Characters that case rules look past do not count on either side.
-/

namespace Catena.Text

/-- Where a run sends `code`, if `code` is one of its characters. -/
def CaseRun.image? (run : CaseRun) (code : Nat) : Option Char :=
  if run.first ≤ code && code ≤ run.last && (code - run.first) % run.step == 0 then
    some (Char.ofNat (code + run.shift).toNat)
  else
    none

/-- The upper case of one character, as one or more characters. -/
def upperChar (c : Char) : List Char :=
  match upperStrings.lookup c.toNat with
  | some codes => codes.map Char.ofNat
  | none => [(upperRuns.findSome? (·.image? c.toNat)).getD c]

/-- The lower case of one character on its own. The dotted capital I keeps its dot as a mark. -/
def lowerChar (c : Char) : List Char :=
  if c.toNat = 0x130 then
    ['i', Char.ofNat 0x307]
  else
    [(lowerRuns.findSome? (·.image? c.toNat)).getD c]

/-- Whether the first character of `cs` that case rules do not look past carries case. -/
def startsCased (cs : List Char) : Bool :=
  match cs.dropWhile (inRanges caseIgnorableRanges) with
  | [] => false
  | c :: _ => inRanges casedRanges c

/-- The capital sigma, the only letter whose lower case depends on its place in the word. -/
def capitalSigma : Char := Char.ofNat 0x3A3

/-- The lower case of a capital sigma between the reversed text `before` and the text `after`. -/
def lowerSigma (before after : List Char) : Char :=
  if startsCased before && !startsCased after then Char.ofNat 0x3C2 else Char.ofNat 0x3C3

/-- Lower case of `cs`, where `before` is the text already passed, last character first. -/
def lowerFrom (before : List Char) : List Char → List Char
  | [] => []
  | c :: rest =>
    (if c = capitalSigma then [lowerSigma before rest] else lowerChar c)
      ++ lowerFrom (c :: before) rest

/-- `s` in upper case. -/
def toUpper (s : String) : String :=
  String.ofList (s.toList.flatMap upperChar)

/-- `s` in lower case. -/
def toLower (s : String) : String :=
  String.ofList (lowerFrom [] s.toList)

end Catena.Text
