import Catena.Decimal.Binary64

/-!
# Reading decimal text

A numeral is an optional sign followed by digits with at most one point among them (and at least one
digit), and an optional exponent; or by the name of infinity or of not-a-number in any case. Its
value is the binary64 number nearest to it.
-/

namespace Catena.Decimal.Numeral

/-- Whether `c` is one of the ten decimal digits. -/
def isDigit (c : Char) : Bool :=
  '0' ≤ c && c ≤ '9'

/-- The number that a string of digits spells. -/
def digitsValue (digits : List Char) : Nat :=
  digits.foldl (fun n c => 10 * n + (c.toNat - '0'.toNat)) 0

/-- The sign that `cs` starts with, if any, and the rest. -/
def sign : List Char → Bool × List Char
  | '-' :: rest => (true, rest)
  | '+' :: rest => (false, rest)
  | cs => (false, cs)

/-- A whole exponent after its mark: an optional sign and at least one digit. -/
def exponent? (cs : List Char) : Option Int :=
  let (negative, digits) := sign cs
  if digits.isEmpty || !digits.all isDigit then none
  else if negative then some (-(digitsValue digits : Int)) else some (digitsValue digits)

/-- The exponent part that ends a numeral; no text at all means zero. -/
def exponentPart? : List Char → Option Int
  | [] => some 0
  | c :: rest => if c = 'e' || c = 'E' then exponent? rest else none

/-- Decimal exponents beyond this bound cannot change the rounded value of a shorter significand. -/
def exponentLimit : Int := 400

/-- The number nearest to `digits * 10 ^ exponent`. Magnitudes that are certainly above or below
every finite number are answered without computing the power of ten. -/
def valueOf (negative : Bool) (digits : Nat) (exponent : Int) : Float :=
  let size : Int := (Nat.toDigits 10 digits).length
  if digits = 0 then Binary64.floatOfBits negative 0
  else if size + exponent > exponentLimit then
    Binary64.floatOfBits negative Binary64.infinityBits
  else if size + exponent < -exponentLimit then Binary64.floatOfBits negative 0
  else Binary64.nearest negative (digits * up 10 exponent) (down 10 exponent)

/-- A numeral without its sign: digits, a point, an exponent. -/
def unsigned? (negative : Bool) (cs : List Char) : Option Float :=
  let whole := cs.takeWhile isDigit
  let rest := cs.dropWhile isDigit
  let (fraction, rest) :=
    match rest with
    | '.' :: rest => (rest.takeWhile isDigit, rest.dropWhile isDigit)
    | _ => ([], rest)
  if whole.isEmpty && fraction.isEmpty then none
  else (exponentPart? rest).map fun exponent =>
    valueOf negative (digitsValue (whole ++ fraction)) (exponent - fraction.length)

/-- Reads a numeral; `none` if the text is not one. -/
def read? (s : String) : Option Float :=
  let (negative, rest) := sign s.toList
  let word := String.ofList (rest.map Char.toLower)
  if word = "inf" || word = "infinity" then
    some (Binary64.floatOfBits negative Binary64.infinityBits)
  else if word = "nan" then some (Float.ofBits 0x7FF8000000000000)
  else unsigned? negative rest

end Catena.Decimal.Numeral
