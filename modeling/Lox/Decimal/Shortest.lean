/-
The shortest decimal that reads back. The reals that round to a double
form an interval around it, half a step to either side, the ends
included exactly when the significand is even. A decimal of `n` digits
lies on a grid; the two neighbours of the double on that grid are the
only ones worth trying, since any other point of the grid in the
interval has one of them between itself and the double. So the first
count of digits at which a neighbour falls into the interval is the
least, and of two such neighbours the nearer is taken, the even one if
both are equally near. All of it is exact arithmetic on whole numbers.
-/
import Lox.Decimal.Binary64

namespace Lox.Decimal

/-- A decimal `digits · 10 ^ exponent`. -/
structure Scaled where
  /-- The whole number that is scaled. -/
  digits : Nat
  /-- The power of ten that scales it. -/
  exponent : Int
deriving Repr, DecidableEq

/-- How many decimal digits a whole number has, one for nought. -/
def digitCount (n : Nat) : Nat := (Nat.toDigits 10 n).length

namespace Magnitude

-- ============================================ the interval, in quarters

/-- The numerator of the magnitude counted in quarters of its last
place. -/
def quarters (v : Magnitude) : Nat :=
  4 * v.significand * twos v.exponent.toNat

/-- The denominator that goes with `quarters`. -/
def quarterScale (v : Magnitude) : Nat :=
  4 * twos (-v.exponent).toNat

/-- Whether the double below is only half a step away, which it is just
above a power of two. -/
def narrowBelow (v : Magnitude) : Bool :=
  v.significand == twos 52 && decide (leastExponent < v.exponent)

/-- Half the step to the double below, in the same unit as `quarters`. -/
def halfBelow (v : Magnitude) : Nat :=
  (if v.narrowBelow then 1 else 2) * twos v.exponent.toNat

/-- Half the step to the double above, in the same unit as `quarters`. -/
def halfAbove (v : Magnitude) : Nat :=
  2 * twos v.exponent.toNat

-- ================================================ the points of a grid

/-- The numerator of a decimal and of the magnitude over one common
denominator. -/
def compared (v : Magnitude) (d : Scaled) : Nat × Nat :=
  (d.digits * tens d.exponent.toNat * v.quarterScale,
    v.quarters * tens (-d.exponent).toNat)

/-- Whether the decimal lies in the interval of reals that round to the
magnitude. -/
def readsBack (v : Magnitude) (d : Scaled) : Bool :=
  let unit := tens (-d.exponent).toNat
  let (point, centre) := v.compared d
  let low := centre - v.halfBelow * unit
  let high := centre + v.halfAbove * unit
  if v.significand % 2 = 0 then decide (low ≤ point) && decide (point ≤ high)
  else decide (low < point) && decide (point < high)

/-- The power of ten of the leading digit. No double is so small that
324 more places leave nothing before the point. -/
def leadingPlace (v : Magnitude) : Int :=
  digitCount (v.quarters * tens 324 / v.quarterScale) - 325

/-- The greatest point of the grid `10 ^ place` not above the
magnitude. -/
def below (v : Magnitude) (place : Int) : Nat :=
  v.quarters * tens (-place).toNat / (tens place.toNat * v.quarterScale)

/-- Of a point of the grid and the next one, the nearer to the
magnitude; the even one if they are equally near. -/
def nearer (v : Magnitude) (low : Scaled) : Scaled :=
  let high : Scaled := { low with digits := low.digits + 1 }
  let shortfall := (v.compared low).2 - (v.compared low).1
  let excess := (v.compared high).1 - (v.compared high).2
  if shortfall < excess then low
  else if excess < shortfall then high
  else if low.digits % 2 = 0 then low
  else high

/-- The decimal of `count` digits that reads back, if there is one. -/
def decimal? (v : Magnitude) (count : Nat) : Option Scaled :=
  let place := v.leadingPlace - count + 1
  let low : Scaled := ⟨v.below place, place⟩
  let high : Scaled := { low with digits := low.digits + 1 }
  match v.readsBack low, v.readsBack high with
  | true, true => some (v.nearer low)
  | true, false => some low
  | false, true => some high
  | false, false => none

/-- The decimal of the fewest digits that reads back. Seventeen always
suffice. -/
def shortest (v : Magnitude) : Scaled :=
  ((List.range' 1 16).findSome? v.decimal?).getD
    (v.nearer ⟨v.below (v.leadingPlace - 16), v.leadingPlace - 16⟩)

end Magnitude

end Lox.Decimal
