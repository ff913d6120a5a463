/-!
# Powers with whole exponents as fractions

`base ^ exponent` is the fraction `up base exponent / down base exponent`. One of the two is always
one, so a number can be scaled by a power of either sign without telling the signs apart.
-/

namespace Catena.Decimal

/-- The numerator of `base ^ exponent`. -/
def up (base : Nat) (exponent : Int) : Nat :=
  Nat.pow base exponent.toNat

/-- The denominator of `base ^ exponent`. -/
def down (base : Nat) (exponent : Int) : Nat :=
  Nat.pow base (-exponent).toNat

end Catena.Decimal
