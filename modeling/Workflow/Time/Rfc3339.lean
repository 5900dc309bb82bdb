/-
Instants as text: the RFC 3339 form, a strict reader, and a lenient one.

The strict reader takes exactly `dddd-dd-ddTdd:dd:dd`, an optional fraction and an offset, and
tells why it refuses a text; the causes are looked for from left to right.  The lenient reader is
the one for stored instants: it also takes fewer digits in a component, years with a sign, blanks
between the components and `UTC` for the offset, and only tells whether it succeeds.

A second `:60` is a leap second, at any minute.
-/
import Workflow.Text.Blank
import Workflow.Text.Decimal
import Workflow.Time.Calendar
import Workflow.Time.Instant

namespace Workflow

/-- Why a text is not an RFC 3339 instant. -/
inductive InstantTextError where
  /-- The text ended too early. -/
  | tooShort
  /-- A character stands where it may not. -/
  | invalid
  /-- A component has a value that no instant has. -/
  | outOfRange
  /-- The text goes on after the instant. -/
  | trailing
deriving DecidableEq, Inhabited

/-- The wording of the cause. -/
def InstantTextError.message : InstantTextError → String
  | .tooShort => "premature end of input"
  | .invalid => "input contains invalid characters"
  | .outOfRange => "input is out of range"
  | .trailing => "trailing input"

namespace Rfc3339

/-! ### Writing -/

/-- A year: four digits from 0 to 9999, else a sign and at least four digits. -/
def yearText (year : Int) : List Char :=
  if 0 ≤ year ∧ year ≤ 9999 then Decimal.padded 4 year.toNat
  else (if year < 0 then '-' else '+') :: Decimal.padded 4 year.natAbs

/-- The shortest exact fraction of a second of 3, 6 or 9 digits; none if it is zero. -/
def fractionText (nanos : Nat) : List Char :=
  if nanos = 0 then []
  else if nanos % 1000000 = 0 then '.' :: Decimal.padded 3 (nanos / 1000000)
  else if nanos % 1000 = 0 then '.' :: Decimal.padded 6 (nanos / 1000)
  else '.' :: Decimal.padded 9 nanos

/-- The date of an instant. -/
def dateText (i : Instant) : List Char :=
  let date := Calendar.Date.ofDayNumber (i.seconds / 86400)
  yearText date.year ++ '-' :: Decimal.padded 2 date.month ++ '-' :: Decimal.padded 2 date.day

/-- The time of day of an instant; inside a leap second the seconds are 60. -/
def timeText (i : Instant) : List Char :=
  let secondOfDay := (i.seconds % 86400).toNat
  let leap := Duration.nanosPerSecond ≤ i.nanos
  let second := secondOfDay % 60 + (if leap then 1 else 0)
  let nanos := if leap then i.nanos - Duration.nanosPerSecond else i.nanos
  Decimal.padded 2 (secondOfDay / 3600) ++ ':' :: Decimal.padded 2 (secondOfDay / 60 % 60) ++
    ':' :: Decimal.padded 2 second ++ fractionText nanos

/-- The instant with `Z` for the offset. -/
def text (i : Instant) : String := String.ofList (dateText i ++ 'T' :: timeText i ++ ['Z'])

/-- The instant with the offset in digits. -/
def offsetText (i : Instant) : String :=
  String.ofList (dateText i ++ 'T' :: timeText i ++ "+00:00".toList)

/-- The instant as it is shown in messages. -/
def displayText (i : Instant) : String :=
  String.ofList (dateText i ++ ' ' :: timeText i ++ " UTC".toList)

/-! ### Assembling an instant from its components -/

/-- The largest offset from UTC, less than a day. -/
def offsetLimit : Int := 86400

/-- The components of an instant as they are written. -/
structure Components where
  /-- The day, which is known to exist. -/
  date : Calendar.Date
  /-- The hour, 0 to 23. -/
  hour : Nat
  /-- The minute, 0 to 59. -/
  minute : Nat
  /-- The second, 0 to 60. -/
  second : Nat
  /-- The nanoseconds into the second. -/
  nanos : Nat
deriving DecidableEq, Inhabited

/--
The instant of the components at an offset from UTC.  The calendar must have both the second as it
is written and the second it is in UTC, and the nanoseconds must be less than a second.
-/
def Components.toInstant? (c : Components) (offset : Int) : Option Instant :=
  let leap := c.second = 60
  let secondOfDay : Int := c.hour * 3600 + c.minute * 60 + (if leap then 59 else c.second)
  let seconds := c.date.dayNumber * 86400 + secondOfDay
  if Calendar.firstSecond ≤ seconds ∧ seconds ≤ Calendar.lastSecond ∧
      c.nanos < Duration.nanosPerSecond then
    Instant.ofParts? (seconds - offset) (c.nanos + if leap then Duration.nanosPerSecond else 0)
  else none

/-- Nanoseconds from the digits of a fraction; digits after the ninth are dropped. -/
def fractionNanos (digits : List Char) : Nat :=
  let kept := digits.take 9
  Decimal.value kept * Nat.pow 10 (9 - kept.length)

/-! ### The strict reader -/

/-- A reader takes characters from the front of a text. -/
abbrev Reader (α : Type) := List Char → Except InstantTextError (α × List Char)

/-- Takes exactly two digits. -/
def twoDigits : Reader Nat
  | a :: b :: rest =>
      if a.isDigit ∧ b.isDigit then .ok (Decimal.value [a, b], rest) else .error .invalid
  | _ => .error .invalid

/-- Takes one character of a set. -/
def oneOf (allowed : List Char) : Reader Unit
  | c :: rest => if c ∈ allowed then .ok ((), rest) else .error .invalid
  | [] => .error .invalid

/-- Takes the day: four digits, two and two, with hyphens, that name a day of the calendar. -/
def date : Reader Calendar.Date := fun cs => do
  let (century, cs) ← twoDigits cs
  let (yearOfCentury, cs) ← twoDigits cs
  let (_, cs) ← oneOf ['-'] cs
  let (month, cs) ← twoDigits cs
  let (_, cs) ← oneOf ['-'] cs
  let (day, cs) ← twoDigits cs
  let date : Calendar.Date := ⟨(century * 100 + yearOfCentury : Nat), month, day⟩
  if date.isValid then .ok (date, cs) else .error .outOfRange

/-- Takes a fraction, if a point begins one: at least one digit must follow the point. -/
def fraction : Reader Nat
  | '.' :: rest =>
      match rest with
      | [] => .error .tooShort
      | c :: _ =>
          if c.isDigit then
            .ok (fractionNanos (rest.takeWhile Char.isDigit), rest.dropWhile Char.isDigit)
          else .error .invalid
  | cs => .ok (0, cs)

/--
Takes two digits near the end of the text.  A text that ends within them is too short; what counts
is its length in bytes, so that a single wider character is invalid.
-/
def offsetDigits : Reader (Nat × Nat)
  | [] => .error .tooShort
  | [c] => if c.utf8Size < 2 then .error .tooShort else .error .invalid
  | a :: b :: rest =>
      if a.isDigit ∧ b.isDigit then .ok ((Decimal.digitValue a, Decimal.digitValue b), rest)
      else .error .invalid

/-- Takes hours and minutes of an offset, in seconds, with a separator between them. -/
def offsetSize (separator : Reader Unit) : Reader Int := fun cs => do
  let ((h1, h2), cs) ← offsetDigits cs
  let (_, cs) ← separator cs
  let ((m1, m2), cs) ← offsetDigits cs
  if 6 ≤ m1 then .error .outOfRange
  else .ok ((((h1 * 10 + h2) * 3600 + (m1 * 10 + m2) * 60 : Nat) : Int), cs)

/-- Takes an offset from UTC, in seconds: `Z`, or a sign with hours and minutes. -/
def offset (separator : Reader Unit) : Reader Int
  | [] => .error .tooShort
  | c :: rest =>
      if c = 'Z' ∨ c = 'z' then .ok (0, rest)
      else if c = '+' then offsetSize separator rest
      else if c = '-' ∨ c = '\u2212' then do
        let (size, cs) ← offsetSize separator rest
        .ok (-size, cs)
      else .error .invalid

/-- Takes the colon between the hours and the minutes of an offset. -/
def colon : Reader Unit
  | [] => .error .tooShort
  | c :: rest => if c = ':' then .ok ((), rest) else .error .invalid

/-- Reads an instant; the first fault from the left is the cause that is given. -/
def parse (text : String) : Except InstantTextError Instant := do
  if text.utf8ByteSize < 19 then .error .tooShort
  let (date, cs) ← date text.toList
  let (_, cs) ← oneOf ['T', 't', ' '] cs
  let (hour, cs) ← twoDigits cs
  let (_, cs) ← oneOf [':'] cs
  let (minute, cs) ← twoDigits cs
  let (_, cs) ← oneOf [':'] cs
  let (second, cs) ← twoDigits cs
  let (nanos, cs) ← fraction cs
  if 23 < hour ∨ 59 < minute ∨ 60 < second then .error .outOfRange
  let (offset, cs) ← offset colon cs
  if cs ≠ [] then .error .trailing
  if offsetLimit ≤ offset.natAbs then .error .outOfRange
  match Components.toInstant? ⟨date, hour, minute, second, nanos⟩ offset with
  | some instant => .ok instant
  | none => .error .outOfRange

/-! ### The lenient reader -/

/-- Takes at least one digit and at most `width`, after blanks. -/
def number? (width : Nat) (text : List Char) : Option (Nat × List Char) :=
  let cs := trimBlankStart text
  let digits := (cs.take width).takeWhile Char.isDigit
  if digits = [] then none else some (Decimal.value digits, cs.drop digits.length)

/-- Takes a year: with a sign any number of digits, without one at most four. -/
def year? (text : List Char) : Option (Int × List Char) :=
  match trimBlankStart text with
  | '-' :: rest => (signed rest).map fun (n, cs) => (-(n : Int), cs)
  | '+' :: rest => (signed rest).map fun (n, cs) => ((n : Int), cs)
  | cs => (number? 4 cs).map fun (n, cs) => ((n : Int), cs)
where
  /-- The digits after the sign; no blank may precede them. -/
  signed (rest : List Char) : Option (Nat × List Char) :=
    let digits := rest.takeWhile Char.isDigit
    if digits = [] then none else some (Decimal.value digits, rest.dropWhile Char.isDigit)

/-- Takes one character. -/
def literal? (c : Char) (text : List Char) : Option (List Char) :=
  match text with
  | [] => none
  | x :: rest => if x = c then some rest else none

/-- Takes any number of colons and blanks. -/
def colonsAndBlanks : Reader Unit := fun cs => .ok ((), cs.dropWhile fun c => c = ':' || isBlank c)

/-- Takes an offset; `UTC` in any case is one. -/
def lenientOffset? (text : List Char) : Option (Int × List Char) :=
  if (text.take 3).map Char.toUpper = ['U', 'T', 'C'] then some (0, text.drop 3)
  else (offset colonsAndBlanks text).toOption

/-- Reads a stored instant. -/
def parseLenient? (text : String) : Option Instant := do
  let (year, cs) ← year? text.toList
  let cs ← literal? '-' (trimBlankStart cs)
  let (month, cs) ← number? 2 cs
  let cs ← literal? '-' (trimBlankStart cs)
  let (day, cs) ← number? 2 cs
  let cs ← match cs with
    | 'T' :: rest | 't' :: rest | ' ' :: rest => some rest
    | _ => none
  let (hour, cs) ← number? 2 cs
  let cs ← literal? ':' (trimBlankStart cs)
  let (minute, cs) ← number? 2 cs
  let cs ← literal? ':' (trimBlankStart cs)
  let (second, cs) ← number? 2 cs
  let (nanos, cs) ← (fraction cs).toOption
  let (offset, cs) ← lenientOffset? (trimBlankStart cs)
  guard (trimBlankStart cs = [])
  let date : Calendar.Date := ⟨year, month, day⟩
  guard (date.isValid && hour ≤ 23 && minute ≤ 59 && second ≤ 60)
  guard (offset.natAbs < offsetLimit.natAbs)
  Components.toInstant? ⟨date, hour, minute, second, nanos⟩ offset

end Rfc3339

end Workflow
