/-
Numbers of double precision.

A finite number is a sign and a magnitude.  The magnitudes stand in ascending order with zero
first, and a number keeps the place of its own among them, so each number has one form, apart from
zero, which has either sign.  A decimal is read as the magnitude nearest to it; of two that are
equally near the one with the even place is taken.

Everything here is exact arithmetic on natural numbers.  A quotient stands for a positive rational
number.
-/
import Workflow.Width

namespace Workflow

/-- A decimal: `digits` times ten to the `exponent`. -/
structure Scientific where
  /-- The digits, as a number. -/
  digits : Nat
  /-- The power of ten. -/
  exponent : Int
deriving DecidableEq, Inhabited

/-- A quotient of natural numbers. -/
structure Quotient where
  /-- The number above the line. -/
  above : Nat
  /-- The number below it. -/
  below : Nat
deriving DecidableEq, Inhabited

namespace Quotient

/-- A number times a power of a base. -/
def scaled (number base : Nat) (exponent : Int) : Quotient :=
  ⟨number * Nat.pow base exponent.toNat, Nat.pow base (-exponent).toNat⟩

/-- The quotient divided by a power of two. -/
def shiftDown (q : Quotient) (exponent : Int) : Quotient :=
  ⟨q.above * Nat.pow 2 (-exponent).toNat, q.below * Nat.pow 2 exponent.toNat⟩

/-- Whether one quotient is less than another. -/
def less (p q : Quotient) : Bool := decide (p.above * q.below < q.above * p.below)

/-- The nearest natural number; of two that are equally near, the even one. -/
def rounded (q : Quotient) : Nat :=
  let whole := q.above / q.below
  let twice := 2 * (q.above % q.below)
  if twice < q.below ∨ (twice = q.below ∧ whole % 2 = 0) then whole else whole + 1

/-- The largest power of two that is not above the quotient, which is positive. -/
def binaryScale (q : Quotient) : Int :=
  let estimate : Int := q.above.log2 - q.below.log2
  if q.less (scaled 1 2 estimate) then estimate - 1 else estimate

end Quotient

/-- A decimal as a quotient. -/
def Scientific.quotient (d : Scientific) : Quotient := .scaled d.digits 10 d.exponent

/-- A finite number of double precision. -/
structure Binary64 where
  /-- Whether the number has a minus sign. -/
  negative : Bool
  /-- The place of the magnitude among all of them, in ascending order. -/
  place : Nat
  /-- The magnitude is finite. -/
  place_lt : place < 2047 * wordCount 52
deriving DecidableEq

namespace Binary64

/-- Zero, with either sign. -/
def zero (negative : Bool) : Binary64 := ⟨negative, 0, by decide⟩

instance : Inhabited Binary64 := ⟨zero false⟩

/-- The exponent of the smallest magnitude above zero, and of the gaps between the smallest. -/
def leastExponent : Int := -1074

/-- The place of the magnitude that is nearest to a quotient. -/
def nearestPlace (q : Quotient) : Nat :=
  if q.above = 0 then 0
  else
    let exponent := max (q.binaryScale - 52) leastExponent
    (exponent - leastExponent).toNat * wordCount 52 + (q.shiftDown exponent).rounded

/-- The magnitude, as a significand and the power of two that it is multiplied by. -/
def magnitude (x : Binary64) : Nat × Int :=
  let binade := x.place / wordCount 52
  let fraction := x.place % wordCount 52
  if binade = 0 then (fraction, leastExponent)
  else (wordCount 52 + fraction, leastExponent + (binade - 1))

/-- The magnitude as a quotient. -/
def quotient (x : Binary64) : Quotient := .scaled x.magnitude.1 2 x.magnitude.2

/-- A power of ten that is above all magnitudes, while its inverse is below half the least one. -/
def farExponent : Int := 400

/-- The number nearest to a decimal, unless the decimal is too large. -/
def ofScientific? (negative : Bool) (d : Scientific) : Option Binary64 :=
  if d.digits = 0 then some (zero negative)
  else if d.exponent > farExponent then none
  else if d.exponent + d.digits.log2 + 1 < -farExponent then some (zero negative)
  else
    let place := nearestPlace d.quotient
    if h : place < 2047 * wordCount 52 then some ⟨negative, place, h⟩ else none

/-- The number with the plain sign in place of the minus sign if it is zero. -/
def plainZero (x : Binary64) : Binary64 := if x.place = 0 then zero false else x

end Binary64

end Workflow
