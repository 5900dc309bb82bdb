/-
Durations in ISO 8601 notation.

A duration is written `PnW`, `PnDTnHnMnS` or a part of these in this order, with at least one
component, and with at least one component after a `T`.  Seconds may have a fraction, of which
three digits count.  Years and months are refused with a cause of their own, since their length
depends on the calendar.  A total above 64 bits of milliseconds is refused.

The reader goes through the text once, from left to right, so of several faults the first one
decides the cause.
-/
import Workflow.Text.Decimal
import Workflow.Time.Duration

namespace Workflow

/-- Why a text is not a duration. -/
inductive DurationTextError where
  /-- The text is not of the form, or the total is too large. -/
  | invalid
  /-- The text has a component of years or months. -/
  | calendar
deriving DecidableEq, Inhabited

namespace IsoDuration

/-- A component that counts: its place in the order, and its length in milliseconds. -/
structure Component where
  /-- The place in the order of components, from 1. -/
  rank : Nat
  /-- Milliseconds in one unit. -/
  unit : Nat
deriving DecidableEq, Inhabited

/-- The place of seconds, the only component that may have a fraction. -/
def secondsRank : Nat := 5

/-- The component with a designator, before or after the `T`. -/
def component? (inTime : Bool) (designator : Char) : Except DurationTextError Component :=
  match inTime, designator with
  | false, 'Y' => .error .calendar
  | false, 'M' => .error .calendar
  | false, 'W' => .ok ⟨1, 604800000⟩
  | false, 'D' => .ok ⟨2, 86400000⟩
  | true, 'H' => .ok ⟨3, 3600000⟩
  | true, 'M' => .ok ⟨4, 60000⟩
  | true, 'S' => .ok ⟨secondsRank, 1000⟩
  | _, _ => .error .invalid

/-- A number of milliseconds that fits into 64 bits. -/
def fitting? (millis : Nat) : Option Nat := if millis ≤ maxWord64 then some millis else none

/-- Whole units in milliseconds. -/
def wholeMillis? (unit : Nat) (number : List Char) : Option Nat :=
  (Decimal.digitsUpTo? maxWord64 number).bind fun n => fitting? (n * unit)

/-- The milliseconds of a fraction of a second; digits after the third are dropped. -/
def fractionMillis (fraction : List Char) : Nat :=
  Decimal.value ((fraction ++ ['0', '0', '0']).take 3)

/-- Seconds with an optional fraction in milliseconds. -/
def secondsMillis? (number : List Char) : Option Nat := do
  let whole := number.takeWhile (· ≠ '.')
  let fraction := (number.dropWhile (· ≠ '.')).drop 1
  guard (whole ≠ [] ∧ '.' ∉ fraction)
  let millis ← wholeMillis? 1000 whole
  fitting? (millis + fractionMillis fraction)

/-- How far the reader has come. -/
structure Reading where
  /-- The digits and points since the last designator. -/
  number : List Char := []
  /-- Whether the `T` was passed. -/
  inTime : Bool := false
  /-- The place of the last component, 0 before the first. -/
  rank : Nat := 0
  /-- The total so far. -/
  millis : Nat := 0
  /-- Whether a component followed the `T`. -/
  hasTime : Bool := false
deriving DecidableEq, Inhabited

/-- Takes a designator, which ends the component whose number was read. -/
def Reading.close (r : Reading) (designator : Char) : Except DurationTextError Reading := do
  if r.number = [] then .error .invalid
  let c ← component? r.inTime designator
  if c.rank ≤ r.rank then .error .invalid
  let amount :=
    if c.rank = secondsRank then secondsMillis? r.number else wholeMillis? c.unit r.number
  match amount.bind fun n => fitting? (r.millis + n) with
  | none => .error .invalid
  | some total => .ok ⟨[], r.inTime, c.rank, total, r.hasTime || r.inTime⟩

/-- Takes one character. -/
def Reading.step (r : Reading) (c : Char) : Except DurationTextError Reading :=
  if c.isDigit ∨ c = '.' then .ok { r with number := r.number ++ [c] }
  else if c = 'T' ∧ r.inTime = false ∧ r.number = [] then .ok { r with inTime := true }
  else r.close c

/-- The total at the end of the text. -/
def Reading.finish (r : Reading) : Except DurationTextError Duration :=
  if r.number ≠ [] ∨ r.rank = 0 ∨ (r.inTime = true ∧ r.hasTime = false) then .error .invalid
  else .ok (Duration.ofMillis r.millis)

/-- Reads a duration from characters. -/
def parseChars : List Char → Except DurationTextError Duration
  | 'P' :: body => (body.foldlM Reading.step {}).bind Reading.finish
  | _ => .error .invalid

/-- Reads a duration. -/
def parse (text : String) : Except DurationTextError Duration := parseChars text.toList

/-! ### Writing -/

/-- One component, which is left out when it is zero. -/
def componentText (amount : Nat) (designator : Char) : List Char :=
  if amount = 0 then [] else Decimal.digits amount ++ [designator]

/-- The digits without the zeros at the end. -/
def trimZeros (digits : List Char) : List Char := (digits.reverse.dropWhile (· = '0')).reverse

/-- Seconds and milliseconds, the latter as a fraction without zeros at its end. -/
def secondsText (seconds millis : Nat) : List Char :=
  if millis = 0 then componentText seconds 'S'
  else Decimal.digits seconds ++ '.' :: trimZeros (Decimal.padded 3 millis) ++ ['S']

/-- The characters of a number of milliseconds. -/
def millisText (millis : Nat) : List Char :=
  if millis = 0 then "PT0S".toList
  else
    let seconds := millis / 1000
    let time := componentText (seconds % 86400 / 3600) 'H' ++
      componentText (seconds % 3600 / 60) 'M' ++ secondsText (seconds % 60) (millis % 1000)
    'P' :: componentText (seconds / 86400) 'D' ++ (if time = [] then [] else 'T' :: time)

/-- A duration in days, hours, minutes and seconds; its milliseconds are taken modulo 64 bits. -/
def text (d : Duration) : String := String.ofList (millisText (d.millis % wordCount 64))

end IsoDuration

end Workflow
