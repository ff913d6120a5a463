import Catena.Decimal.Binary64

/-!
# The fewest digits that read back

Every finite number other than zero owns an interval of the reals: those that round to it. Its
shortest decimal is taken from the coarsest power-of-ten grid that has a point in that interval, and
of two such points it is the nearer, or the upper one when both are as near. The ends of the
interval belong to it when the significand is even.
-/

namespace Catena.Decimal.Shortest

/-- An interval around `value`, each end given as a numerator over one common denominator. -/
structure Rounding where
  low : Nat
  value : Nat
  high : Nat
  den : Nat
  closed : Bool

/-- The reals that round to `significand * 2 ^ exponent`. Below a power of two the gap to the next
number is half as wide. -/
def Rounding.of (significand : Nat) (exponent : Int) : Rounding :=
  let below := if significand = Binary64.hiddenBit then 1 else 2
  let unit := up 2 exponent
  { low := (4 * significand - below) * unit
    value := 4 * significand * unit
    high := (4 * significand + 2) * unit
    den := 4 * down 2 exponent
    closed := significand % 2 = 0 }

/-- Whether the decimal `digits * 10 ^ grid` lies in the interval. -/
def Rounding.holds (r : Rounding) (digits : Nat) (grid : Int) : Bool :=
  let point := digits * up 10 grid * r.den
  let unit := down 10 grid
  if r.closed then r.low * unit ≤ point && point ≤ r.high * unit
  else r.low * unit < point && point < r.high * unit

/-- The value in units of `10 ^ grid`, as a fraction. -/
def Rounding.inUnits (r : Rounding) (grid : Int) : Nat × Nat :=
  (r.value * down 10 grid, r.den * up 10 grid)

/-- The point of the grid to write, if one of the value's two neighbours there lies in the
interval. -/
def Rounding.onGrid (r : Rounding) (grid : Int) : Option Nat :=
  let (num, den) := r.inUnits grid
  let lower := num / den
  match r.holds lower grid, r.holds (lower + 1) grid with
  | true, true => some (if 2 * (num % den) < den then lower else lower + 1)
  | true, false => some lower
  | false, true => some (lower + 1)
  | false, false => none

/-- Tries ever finer grids, down to `grid - steps`. -/
def Rounding.search (r : Rounding) : Nat → Int → Nat × Int
  | 0, grid => (r.value / r.den, grid)
  | steps + 1, grid =>
    match r.onGrid grid with
    | some digits => (digits, grid)
    | none => r.search steps (grid - 1)

/-- A grid coarser than the value: its unit has one digit more than the value's whole part. -/
def Rounding.coarse (r : Rounding) : Int :=
  (Nat.toDigits 10 (r.value / r.den)).length

/-- More grids than lie between the largest number and the last digit of the least. -/
def gridCount : Nat := 660

/-- The shortest decimal of a positive number, as `digits * 10 ^ grid`. -/
def shortest (significand : Nat) (exponent : Int) : Nat × Int :=
  let r := Rounding.of significand exponent
  r.search gridCount r.coarse

end Catena.Decimal.Shortest
