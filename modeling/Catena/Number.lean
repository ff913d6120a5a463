import Catena.Decimal.Shortest
import Catena.Decimal.Numeral

/-!
# Numbers of the language

Numbers are binary64. They are written with the fewest digits that read back and never with an
exponent. The display form keeps one decimal on whole numbers below `10 ^ 16`, so that `5` shows as
`5.0`; the plain form does not.
-/

namespace Catena.Number

open Catena.Decimal

/-- Places the point in `digits * 10 ^ grid`, filling up with zeros on either side. -/
def positional (digits : Nat) (grid : Int) : String :=
  let text := Nat.toDigits 10 digits
  if 0 ≤ grid then
    String.ofList (text ++ List.replicate grid.toNat '0')
  else
    let places := (-grid).toNat
    if places < text.length then
      String.ofList (text.take (text.length - places) ++ '.' :: text.drop (text.length - places))
    else
      String.ofList ('0' :: '.' :: List.replicate (places - text.length) '0' ++ text)

/-- The text of a magnitude with its sign in front. -/
def signed (negative : Bool) (text : String) : String :=
  if negative then "-" ++ text else text

/-- The fewest digits that read back, with no point on whole numbers. -/
def plain (n : Float) : String :=
  match Binary64.ofFloat n with
  | .nan => "NaN"
  | .infinite negative => signed negative "inf"
  | .finite negative significand exponent =>
    if significand = 0 then signed negative "0"
    else
      let (digits, grid) := Shortest.shortest significand exponent
      signed negative (positional digits grid)

/-- Whole numbers from this bound on are displayed without a decimal. -/
def wholeLimit : Nat := 10000000000000000

/-- The whole magnitude that is displayed with the decimal `.0`, if `n` has one. -/
def shortWhole? (significand : Nat) (exponent : Int) : Option Nat :=
  (Binary64.whole? significand exponent).filter (· < wholeLimit)

/-- The form in which programs print numbers: `5.0`, `2.5`, `-0.0`, `NaN`. -/
def display (n : Float) : String :=
  match Binary64.ofFloat n with
  | .finite negative significand exponent =>
    match shortWhole? significand exponent with
    | some whole => signed negative (String.ofList (Nat.toDigits 10 whole) ++ ".0")
    | none => plain n
  | _ => plain n

/-- The number that `s` spells, if it spells one. -/
def ofText? (s : String) : Option Float :=
  Numeral.read? s

/-- The remainder of the division of two magnitudes, exact, with the sign of the dividend. -/
def finiteRemainder (negative : Bool) (m : Nat) (p : Int) (n : Nat) (q : Int) : Float :=
  let low := min p q
  let rest := (m * up 2 (p - low)) % (n * up 2 (q - low))
  Binary64.nearest negative (rest * up 2 low) (down 2 low)

/-- `left - right * k` for the whole `k` that brings it below `right` in magnitude on the side of
`left`. A number is its own remainder by infinity. -/
def remainder (left right : Float) : Float :=
  match Binary64.ofFloat left, Binary64.ofFloat right with
  | .finite negative m p, .finite _ n q =>
    if n = 0 then 0.0 / 0.0 else finiteRemainder negative m p n q
  | .finite .., .infinite _ => left
  | _, _ => 0.0 / 0.0

end Catena.Number
