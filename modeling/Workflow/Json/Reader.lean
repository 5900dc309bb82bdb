/-
Reading JSON text.

An integer that fits into 64 bits, signed or unsigned, is read exactly.  Any other number is read
as the nearest one of double precision, and one that is too large for that is refused.  The
integer zero with a minus sign is a number of double precision, because only there zero has a
sign.  The members of an object are put in ascending order of their names, and of two with the
same name the later one counts.

A reader takes characters from the front of a list and returns the rest.
-/
import Workflow.Json.Basic
import Workflow.Number.Binary64
import Workflow.Text.Decimal
import Workflow.Text.Hex

namespace Workflow

namespace Json

namespace Reader

/-- Whether a character may stand between the parts of a text. -/
def isSpace (c : Char) : Bool := c == ' ' || c == '\t' || c == '\n' || c == '\r'

/-- The text after the spaces in front of it. -/
def skipSpaces (text : List Char) : List Char := text.dropWhile isSpace

/-! ### Texts -/

/-- What a character after a backslash stands for. -/
def escape? : Char → Option Char
  | '"' => some '"'
  | '\\' => some '\\'
  | '/' => some '/'
  | 'b' => some '\x08'
  | 'f' => some '\x0c'
  | 'n' => some '\n'
  | 'r' => some '\r'
  | 't' => some '\t'
  | _ => none

/-- The character of a number that is no half of a pair. -/
def single? (unit : Nat) : Option Char :=
  if h : unit.isValidChar then some (Char.ofNatAux unit h) else none

/-- The character of two numbers that are the halves of a pair. -/
def paired? (high low : Nat) : Option Char :=
  if 0xd800 ≤ high ∧ high < 0xdc00 ∧ 0xdc00 ≤ low ∧ low < 0xe000 then
    single? (0x10000 + (high - 0xd800) * 0x400 + (low - 0xdc00))
  else none

/-- The rest of a text up to its closing quote; `read` holds what was read, in reverse. -/
def string? (read : List Char) : List Char → Option (String × List Char)
  | [] => none
  | '"' :: rest => some (String.ofList read.reverse, rest)
  | '\\' :: 'u' :: a :: b :: c :: d :: rest =>
      match Hex.number? [a, b, c, d] with
      | none => none
      | some unit =>
          match single? unit with
          | some x => string? (x :: read) rest
          | none =>
              match rest with
              | '\\' :: 'u' :: e :: f :: g :: h :: rest =>
                  match (Hex.number? [e, f, g, h]).bind (paired? unit) with
                  | some x => string? (x :: read) rest
                  | none => none
              | _ => none
  | '\\' :: c :: rest =>
      match escape? c with
      | some x => string? (x :: read) rest
      | none => none
  | c :: rest => if c.toNat < 32 then none else string? (c :: read) rest

/-! ### Numbers -/

/-- Takes the digits in front of a text. -/
def takeDigits (text : List Char) : List Char × List Char := text.span Char.isDigit

/-- Takes digits of which there must be one. -/
def digits? (text : List Char) : Option (List Char × List Char) :=
  match takeDigits text with
  | ([], _) => none
  | taken => some taken

/-- Takes the digits before the point; only a zero that stands alone begins with zero. -/
def whole? : List Char → Option (List Char × List Char)
  | '0' :: rest => some (['0'], rest)
  | text => digits? text

/-- Takes the digits after the point, if there is one. -/
def fraction? : List Char → Option (List Char × List Char)
  | '.' :: rest => digits? rest
  | text => some ([], text)

/-- Takes the digits of an exponent, after its sign. -/
def power? : List Char → Option (Int × List Char)
  | '-' :: rest => (digits? rest).map fun (digits, rest) => (-(Decimal.value digits : Int), rest)
  | '+' :: rest => (digits? rest).map fun (digits, rest) => ((Decimal.value digits : Int), rest)
  | text => (digits? text).map fun (digits, rest) => ((Decimal.value digits : Int), rest)

/-- Takes an exponent, if there is one. -/
def exponent? : List Char → Option (Option Int × List Char)
  | 'e' :: rest => (power? rest).map fun (n, rest) => (some n, rest)
  | 'E' :: rest => (power? rest).map fun (n, rest) => (some n, rest)
  | text => some (none, text)

/-- A number without a fraction or an exponent. -/
def integer? (negative : Bool) (n : Nat) : Option Json :=
  if negative then
    if 0 < n ∧ n ≤ signedBound64 then some (.int (-(n : Int)))
    else (Binary64.ofScientific? true ⟨n, 0⟩).map .real
  else if n ≤ maxWord64 then some (.int n)
  else (Binary64.ofScientific? false ⟨n, 0⟩).map .real

/-- A number after its sign. -/
def unsigned? (negative : Bool) (text : List Char) : Option (Json × List Char) := do
  let (whole, rest) ← whole? text
  let (fraction, rest) ← fraction? rest
  let (exponent, rest) ← exponent? rest
  let number ←
    if fraction.isEmpty ∧ exponent.isNone then integer? negative (Decimal.value whole)
    else
      (Binary64.ofScientific? negative
        ⟨Decimal.value (whole ++ fraction), exponent.getD 0 - fraction.length⟩).map .real
  some (number, rest)

/-- A number. -/
def number? : List Char → Option (Json × List Char)
  | '-' :: rest => unsigned? true rest
  | text => unsigned? false text

/-! ### Values -/

mutual

/-- A value, which is read in at most `depth` steps. -/
def value? : Nat → List Char → Option (Json × List Char)
  | 0, _ => none
  | depth + 1, text =>
      match skipSpaces text with
      | 'n' :: 'u' :: 'l' :: 'l' :: rest => some (.null, rest)
      | 't' :: 'r' :: 'u' :: 'e' :: rest => some (.bool true, rest)
      | 'f' :: 'a' :: 'l' :: 's' :: 'e' :: rest => some (.bool false, rest)
      | '"' :: rest => (string? [] rest).map fun (text, rest) => (.str text, rest)
      | '[' :: rest =>
          match skipSpaces rest with
          | ']' :: rest => some (.arr [], rest)
          | rest => (items? depth rest).map fun (items, rest) => (.arr items, rest)
      | '\x7b' :: rest =>
          match skipSpaces rest with
          | '\x7d' :: rest => some (.obj [], rest)
          | rest => (members? depth [] rest).map fun (members, rest) => (.obj members, rest)
      | rest => number? rest

/-- The items of a list up to its closing bracket. -/
def items? : Nat → List Char → Option (List Json × List Char)
  | 0, _ => none
  | depth + 1, text =>
      match value? depth text with
      | none => none
      | some (item, rest) =>
          match skipSpaces rest with
          | ']' :: rest => some ([item], rest)
          | ',' :: rest => (items? depth rest).map fun (items, rest) => (item :: items, rest)
          | _ => none

/-- The members of an object up to its closing bracket, beside those that came before. -/
def members? :
    Nat → List (String × Json) → List Char → Option (List (String × Json) × List Char)
  | 0, _, _ => none
  | depth + 1, before, text =>
      match skipSpaces text with
      | '"' :: rest =>
          match string? [] rest with
          | none => none
          | some (name, rest) =>
              match skipSpaces rest with
              | ':' :: rest =>
                  match value? depth rest with
                  | none => none
                  | some (value, rest) =>
                      let members := putMember name value before
                      match skipSpaces rest with
                      | '\x7d' :: rest => some (members, rest)
                      | ',' :: rest => members? depth members rest
                      | _ => none
              | _ => none
      | _ => none

end

end Reader

/--
The value that a text is.  Each step either takes a character or is followed by one that does, so
two steps for every character are enough.
-/
def parse? (text : String) : Option Json :=
  let chars := text.toList
  match Reader.value? (2 * chars.length + 2) chars with
  | some (json, rest) => if (Reader.skipSpaces rest).isEmpty then some json else none
  | none => none

end Json

end Workflow
