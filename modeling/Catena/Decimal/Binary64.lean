import Catena.Decimal.Power

/-!
# Binary64 numbers as exact fractions

A finite number is a sign, a significand and a power of two; everything exact about a number (its
decimal digits, its remainder, whether it is whole) is computed from these three. Going back, a
fraction of natural numbers is rounded to the nearest binary64 number, and a fraction half-way
between two goes to the one with the even significand.
-/

namespace Catena.Decimal

/-- What the 64 bits of a number say. A finite number is `significand * 2 ^ exponent`. -/
inductive Binary64
  | nan
  | infinite (negative : Bool)
  | finite (negative : Bool) (significand : Nat) (exponent : Int)
  deriving DecidableEq

namespace Binary64

/-- The least exponent: that of the subnormal numbers. -/
def minExponent : Int := -1074

/-- The significand bit that normal numbers leave out: `2 ^ 52`. -/
def hiddenBit : Nat := 0x10000000000000

/-- The bit pattern of positive infinity; the patterns of finite numbers are below it. -/
def infinityBits : Nat := 0x7FF0000000000000

/-- The bit pattern of a positive sign bit only. -/
def signBit : Nat := 0x8000000000000000

/-- Reads the sign, the significand and the exponent of `x` off its bits. -/
def ofFloat (x : Float) : Binary64 :=
  let bits := x.toBits.toNat
  let negative := signBit ≤ bits
  let magnitude := bits % signBit
  let biased := magnitude / hiddenBit
  let fraction := magnitude % hiddenBit
  if magnitude > infinityBits then .nan
  else if magnitude = infinityBits then .infinite negative
  else if biased = 0 then .finite negative fraction minExponent
  else .finite negative (hiddenBit + fraction) (biased - 1 + minExponent)

/-- The number with the given sign and magnitude bits. -/
def floatOfBits (negative : Bool) (magnitude : Nat) : Float :=
  Float.ofBits (UInt64.ofNat (if negative then signBit + magnitude else magnitude))

/-- Quotient of `num / den` rounded to the nearest whole number, a tie to the even one. -/
def roundDiv (num den : Nat) : Nat :=
  let quotient := num / den
  let rest := num % den
  if 2 * rest < den then quotient
  else if 2 * rest > den then quotient + 1
  else if quotient % 2 = 0 then quotient else quotient + 1

/-- `num / den` divided by `2 ^ exponent`, as a fraction. -/
def scaled (num den : Nat) (exponent : Int) : Nat × Nat :=
  (num * down 2 exponent, den * up 2 exponent)

/-- The exponent at which the significand of `num / den` has 53 bits, but not below the least. -/
def exponentOf (num den : Nat) : Int :=
  let guess : Int := (Nat.log2 num : Int) - Nat.log2 den - 52
  let (n, d) := scaled num den guess
  let exponent := if n / d < hiddenBit then guess - 1 else guess
  max exponent minExponent

/-- The magnitude bits of the number nearest to `num / den`, for positive `den`. The significand is
added to the exponent field, so that one rounded up to `2 ^ 53` carries into the next exponent. -/
def nearestBits (num den : Nat) : Nat :=
  if num = 0 then 0
  else
    let exponent := exponentOf num den
    let (n, d) := scaled num den exponent
    min ((exponent - minExponent).toNat * hiddenBit + roundDiv n d) infinityBits

/-- The number nearest to `num / den` with the given sign, for positive `den`. -/
def nearest (negative : Bool) (num den : Nat) : Float :=
  floatOfBits negative (nearestBits num den)

/-- The whole number that a finite number's magnitude is, if it is one. -/
def whole? (significand : Nat) (exponent : Int) : Option Nat :=
  let num := significand * up 2 exponent
  let den := down 2 exponent
  if num % den = 0 then some (num / den) else none

end Binary64

end Catena.Decimal
