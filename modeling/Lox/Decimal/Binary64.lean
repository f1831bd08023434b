/-
A double taken apart: what its sixty-four bits say, as whole numbers. A
finite double is a significand times a power of two, and everything
that is written about its decimal text is arithmetic on these two.
-/

namespace Lox.Decimal

/-- A power of two. -/
def twos (n : Nat) : Nat := Nat.pow 2 n

/-- A power of ten. -/
def tens (n : Nat) : Nat := Nat.pow 10 n

/-- A magnitude `significand · 2 ^ exponent`. -/
structure Magnitude where
  /-- The whole number that is scaled. -/
  significand : Nat
  /-- The power of two that scales it. -/
  exponent : Int
deriving Repr, DecidableEq

/-- What a double stands for. -/
inductive Reading where
  | nan
  | infinite (negative : Bool)
  | finite (negative : Bool) (magnitude : Magnitude)
deriving Repr, DecidableEq

/-- The least exponent of a double, which the subnormals share. -/
def leastExponent : Int := -1074

/-- What the bit pattern says: one sign bit, eleven bits of exponent and
fifty-two of fraction. -/
def Reading.ofBits (bits : Nat) : Reading :=
  let negative := decide (bits / twos 63 = 1)
  let field : Nat := bits / twos 52 % twos 11
  let fraction := bits % twos 52
  if field = twos 11 - 1 then
    if fraction = 0 then .infinite negative else .nan
  else if field = 0 then .finite negative ⟨fraction, leastExponent⟩
  else .finite negative ⟨twos 52 + fraction, leastExponent + (field : Int) - 1⟩

/-- What a double stands for. -/
def Reading.ofFloat (x : Float) : Reading :=
  .ofBits x.toBits.toNat

namespace Magnitude

/-- The whole number equal to the magnitude, if it is one. -/
def whole? (v : Magnitude) : Option Nat :=
  if 0 ≤ v.exponent then some (v.significand * twos v.exponent.toNat)
  else
    let divisor := twos (-v.exponent).toNat
    if v.significand % divisor = 0 then some (v.significand / divisor)
    else none

end Magnitude

end Lox.Decimal
