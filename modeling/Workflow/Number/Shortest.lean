/-
The shortest text of a number of double precision.

A number is written with the fewest digits that read back as the same number, and of the decimals
with that many digits with the nearest one.  A decimal of a given length that reads back is one of
the two neighbours of the number on the grid of that length, so only those are tried.  The text
always has a fraction or an exponent, which tells it from that of an integer.
-/
import Workflow.Number.Binary64
import Workflow.Text.Decimal

namespace Workflow

/-- The least power of ten that is above a positive quotient. -/
def Quotient.decimalScale (q : Quotient) : Int :=
  let estimate := q.binaryScale * 30103 / 100000
  if q.less (.scaled 1 10 estimate) then estimate
  else if q.less (.scaled 1 10 (estimate + 1)) then estimate + 1
  else estimate + 2

namespace Binary64

/-- Whether a decimal reads back as a magnitude. -/
def readsAs (x : Binary64) (d : Scientific) : Bool := nearestPlace d.quotient == x.place

/-- The decimal with `length` digits that reads back as the number, if there is one. -/
def ofLength? (x : Binary64) (scale : Int) (length : Nat) : Option Scientific :=
  let exponent := scale - length
  let grid := Quotient.scaled 1 10 (-exponent)
  let steps : Quotient := ⟨x.quotient.above * grid.above, x.quotient.below * grid.below⟩
  let low : Scientific := ⟨steps.above / steps.below, exponent⟩
  let high : Scientific := ⟨steps.above / steps.below + 1, exponent⟩
  let nearest : Scientific := ⟨steps.rounded, exponent⟩
  if x.readsAs nearest then some nearest
  else if x.readsAs low then some low
  else if x.readsAs high then some high
  else none

/-- The magnitude as a decimal, exactly. -/
def exactDecimal (x : Binary64) : Scientific :=
  let (significand, exponent) := x.magnitude
  if 0 ≤ exponent then ⟨significand * Nat.pow 2 exponent.toNat, 0⟩
  else ⟨significand * Nat.pow 5 (-exponent).toNat, exponent⟩

/-- How many digits are always enough. -/
def enoughDigits : Nat := 17

/-- The shortest decimal that reads back as the number, which is not zero. -/
def shortest (x : Binary64) : Scientific :=
  let scale := x.quotient.decimalScale
  ((List.range enoughDigits).findSome? fun n => x.ofLength? scale (n + 1)).getD x.exactDecimal

/-- The point is within or next to the digits up to this many digits before it. -/
def longestWhole : Int := 16

/-- The point is in front of the digits, with fewer zeros than this between them. -/
def longestGap : Int := 5

/-- Digits with a point after the first `point` of them, or with an exponent. -/
def layout (digits : List Char) (point : Int) : List Char :=
  if 0 < point ∧ point ≤ longestWhole then
    let whole := digits.take point.toNat
    let zeros := List.replicate (point.toNat - whole.length) '0'
    let fraction := digits.drop point.toNat
    whole ++ zeros ++ '.' :: if fraction.isEmpty then ['0'] else fraction
  else if -longestGap < point ∧ point ≤ 0 then
    '0' :: '.' :: List.replicate (-point).toNat '0' ++ digits
  else
    let fraction := digits.drop 1
    let exponent := point - 1
    digits.take 1 ++ (if fraction.isEmpty then [] else '.' :: fraction) ++
      'e' :: (if exponent < 0 then ['-'] else []) ++ Decimal.digits exponent.natAbs

/-- The number in its shortest text. -/
def text (x : Binary64) : String :=
  let written :=
    if x.place = 0 then ['0', '.', '0']
    else
      let d := x.shortest
      let digits := Decimal.digits d.digits
      let last := (digits.reverse.dropWhile fun c => c == '0').reverse
      layout last (digits.length + d.exponent)
  String.ofList (if x.negative then '-' :: written else written)

end Binary64

end Workflow
