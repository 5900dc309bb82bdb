/-
The proleptic Gregorian calendar.

Days are numbered from 1970-01-01.  Years run on below 1 without a gap, so year 0 precedes year 1.
Both directions count in eras of 400 years, each of 146097 days, with the year taken to begin on
the first of March so that a leap day comes last.
-/

namespace Workflow.Calendar

/-- A day named by year, month and day of the month. -/
structure Date where
  /-- The year; 0 precedes 1. -/
  year : Int
  /-- The month, 1 to 12. -/
  month : Nat
  /-- The day of the month, from 1. -/
  day : Nat
deriving DecidableEq, Inhabited

/-- Whether a year has a leap day. -/
def isLeapYear (year : Int) : Bool :=
  year % 4 == 0 && (year % 100 != 0 || year % 400 == 0)

/-- How many days a month has. -/
def daysInMonth (year : Int) (month : Nat) : Nat :=
  match month with
  | 2 => if isLeapYear year then 29 else 28
  | 4 | 6 | 9 | 11 => 30
  | _ => 31

/-- Whether the month exists and has such a day. -/
def Date.isValid (d : Date) : Bool :=
  1 ≤ d.month && d.month ≤ 12 && 1 ≤ d.day && d.day ≤ daysInMonth d.year d.month

/-- The number of a day. -/
def Date.dayNumber (d : Date) : Int :=
  let year : Int := if d.month ≤ 2 then d.year - 1 else d.year
  let era := year / 400
  let yearOfEra := year % 400
  let dayOfYear : Int := (153 * ((d.month + 9) % 12) + 2) / 5 + d.day - 1
  let dayOfEra := yearOfEra * 365 + yearOfEra / 4 - yearOfEra / 100 + dayOfYear
  era * 146097 + dayOfEra - 719468

/-- The day with a number. -/
def Date.ofDayNumber (n : Int) : Date :=
  let shifted := n + 719468
  let era := shifted / 146097
  let dayOfEra := shifted % 146097
  let yearOfEra :=
    (dayOfEra - dayOfEra / 1460 + dayOfEra / 36524 - dayOfEra / 146096) / 365
  let dayOfYear := dayOfEra - (365 * yearOfEra + yearOfEra / 4 - yearOfEra / 100)
  let shiftedMonth := ((5 * dayOfYear + 2) / 153).toNat
  let day := (dayOfYear - (153 * shiftedMonth + 2) / 5 + 1).toNat
  let month := if shiftedMonth < 10 then shiftedMonth + 3 else shiftedMonth - 9
  let year := yearOfEra + era * 400
  ⟨if month ≤ 2 then year + 1 else year, month, day⟩

/-! ### The days that instants can be on -/

/-- The first second of the year -262143, counted from 1970-01-01. -/
def firstSecond : Int := -8334601228800

/-- The last second of the year 262142, counted from 1970-01-01. -/
def lastSecond : Int := 8210266876799

example : firstSecond = Date.dayNumber ⟨-262143, 1, 1⟩ * 86400 := by decide

example : lastSecond = (Date.dayNumber ⟨262142, 12, 31⟩ + 1) * 86400 - 1 := by decide

end Workflow.Calendar
