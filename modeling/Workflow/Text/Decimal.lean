/-
Decimal numerals, read within a limit and written.

A numeral is a run of ASCII digits; a reader of unsigned numbers also takes one leading `+`, a
reader of signed ones a leading `+` or `-`.  Leading zeros are allowed, and a number outside the
limits is refused rather than wrapped.
-/

namespace Workflow.Decimal

/-- The value of an ASCII digit. -/
def digitValue (c : Char) : Nat := c.toNat - '0'.toNat

/-- The number that a run of digits stands for, the most significant digit first. -/
def value (digits : List Char) : Nat := digits.foldl (fun n c => 10 * n + digitValue c) 0

/-- Reads a run of one or more ASCII digits, and nothing else. -/
def digits? (text : List Char) : Option Nat :=
  if text ≠ [] ∧ text.all Char.isDigit = true then some (value text) else none

/-- Reads a run of digits whose value is at most `limit`. -/
def digitsUpTo? (limit : Nat) (text : List Char) : Option Nat :=
  (digits? text).filter (fun n => decide (n ≤ limit))

/-- Reads an unsigned number of at most `limit`; one `+` may stand in front. -/
def unsigned? (limit : Nat) : List Char → Option Nat
  | '+' :: rest => digitsUpTo? limit rest
  | text => digitsUpTo? limit text

/-- Reads a number from `-bound` to `bound - 1`; one sign may stand in front. -/
def signed? (bound : Nat) : List Char → Option Int
  | '-' :: rest => (digitsUpTo? bound rest).map fun n => -(n : Int)
  | '+' :: rest => (digitsUpTo? (bound - 1) rest).map Int.ofNat
  | text => (digitsUpTo? (bound - 1) text).map Int.ofNat

/-- The decimal digits of a number, without leading zeros. -/
def digits (n : Nat) : List Char := Nat.toDigits 10 n

/-- The decimal digits of a number, with zeros in front up to `width` digits. -/
def padded (width n : Nat) : List Char :=
  let written := digits n
  List.replicate (width - written.length) '0' ++ written

/-- The number in decimal digits, as text. -/
def text (n : Nat) : String := String.ofList (digits n)

end Workflow.Decimal
