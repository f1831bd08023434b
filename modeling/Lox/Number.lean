/-
Numbers as text. A whole number is written with all its digits and
nothing else; any other number with the fewest digits that read back to
the same double, positionally as long as at most three noughts follow
the point, and with a power of ten below that.
-/
import Lox.Decimal.Shortest
import Lox.Text.Numeral

namespace Lox.Number

open Decimal

-- ==================================================== writing a number

/-- The least power of ten of a leading digit that is still written
positionally. -/
def leastPlace : Int := -4

/-- How many digits the power of ten has at least. -/
def exponentWidth : Nat := 2

/-- The digits of a number, with noughts in front up to a width. -/
def padded (width n : Nat) : List Char :=
  let digits := Nat.toDigits 10 n
  List.replicate (width - digits.length) '0' ++ digits

/-- The digits without the noughts at their end. -/
def significant (n : Nat) : List Char :=
  ((Nat.toDigits 10 n).reverse.dropWhile (· == '0')).reverse

/-- A point and digits after it, or nothing if there are none. -/
def fraction : List Char → List Char
  | [] => []
  | digits => '.' :: digits

/-- The digits with the leading one at a power of ten. -/
def positional (digits : List Char) (place : Int) : List Char :=
  if 0 ≤ place then
    let units := place.toNat + 1
    digits.take units ++ List.replicate (units - digits.length) '0'
      ++ fraction (digits.drop units)
  else
    ['0'] ++ fraction (List.replicate (-place - 1).toNat '0' ++ digits)

/-- The digits with a point after the first, and the power of ten. -/
def scientific (digits : List Char) (place : Int) : List Char :=
  digits.take 1 ++ fraction (digits.drop 1)
    ++ ['e', if place < 0 then '-' else '+']
    ++ padded exponentWidth place.natAbs

/-- A decimal as text. -/
def layout (d : Scaled) : List Char :=
  let place := d.exponent + (digitCount d.digits - 1)
  let digits := significant d.digits
  if leastPlace ≤ place then positional digits place
  else scientific digits place

/-- A magnitude as text. -/
def magnitudeText (v : Magnitude) : List Char :=
  match v.whole? with
  | some n => Nat.toDigits 10 n
  | none => layout v.shortest

/-- A minus sign, or nothing. -/
def sign (negative : Bool) : List Char :=
  if negative then ['-'] else []

/-- A number as text. The sign of nought is kept, that of a NaN is
not. -/
def text (x : Float) : String :=
  match Reading.ofFloat x with
  | .nan => "nan"
  | .infinite negative => String.ofList (sign negative ++ ['i', 'n', 'f'])
  | .finite negative v =>
      String.ofList (sign negative ++ magnitudeText v)

-- ==================================================== reading a number

/-- The whole number that a run of digits spells. -/
def ofDigits (digits : List Char) : Nat :=
  digits.foldl (fun n c => 10 * n + (c.toNat - '0'.toNat)) 0

/-- A run of digits, perhaps a point and more digits, and what is left:
the digits before the point, those behind it and the rest. -/
def splitDecimal (cs : List Char) : List Char × List Char × List Char :=
  let units := cs.takeWhile Text.isDigit
  match cs.dropWhile Text.isDigit with
  | '.' :: rest =>
      (units, rest.takeWhile Text.isDigit, rest.dropWhile Text.isDigit)
  | rest => (units, [], rest)

/-- The number that a literal spells. -/
def ofLiteral (spelling : String) : Float :=
  let (units, places, _) := splitDecimal spelling.toList
  Float.ofScientific (ofDigits (units ++ places)) true places.length

/-- A sign, or none, and what is left. -/
def splitSign : List Char → Bool × List Char
  | '-' :: rest => (true, rest)
  | '+' :: rest => (false, rest)
  | rest => (false, rest)

/-- The double nearest to `digits · 10 ^ exponent`. Beyond some hundred
powers of ten more than the digits there is nothing but infinity and
nought, so no greater power need be computed. -/
def ofScaled (digits : List Char) (exponent : Int) : Float :=
  let least : Int := -(digits.length + 400)
  let exponent := max least (min 400 exponent)
  Float.ofScientific (ofDigits digits) (decide (exponent < 0))
    exponent.natAbs

/-- The number that a text stands for: whatever `text` writes, with a
power of ten if there is one. -/
def ofText (spelling : String) : Float :=
  let (negative, cs) := splitSign spelling.toList
  let magnitude :=
    if cs = ['i', 'n', 'f'] then 1.0 / 0.0
    else if cs = ['n', 'a', 'n'] then 0.0 / 0.0
    else
      let (units, places, rest) := splitDecimal cs
      let (below, power) := splitSign (rest.drop 1)
      let power : Int := ofDigits (power.takeWhile Text.isDigit)
      ofScaled (units ++ places)
        ((if below then -power else power) - places.length)
  if negative then -magnitude else magnitude

end Lox.Number
