/-
Instants, their order, and adding a duration to one.

An instant is a second, counted from 1970-01-01T00:00:00Z, and a number of nanoseconds into it.  A
leap second is kept as the second before it with between one and two thousand million nanoseconds,
so it follows everything in that second and precedes the next one.  The second is one that the
calendar has, and a leap second follows the last second of a minute only.

Adding a duration saturates: a duration above the millisecond limit, or a sum after the last day
of the calendar, gives the latest instant.  A sum that stays inside a leap second stays written as
one; any other sum leaves it first.
-/
import Workflow.Sorted.Order
import Workflow.Time.Calendar
import Workflow.Time.Duration

namespace Workflow

/-- A point in time. -/
structure Instant where
  /-- Seconds since 1970-01-01T00:00:00Z, leap seconds not counted. -/
  seconds : Int
  /-- Nanoseconds into the second; a thousand million or more inside a leap second. -/
  nanos : Nat
  /-- The calendar has begun. -/
  first_le : Calendar.firstSecond ≤ seconds
  /-- The calendar has not ended. -/
  le_last : seconds ≤ Calendar.lastSecond
  /-- A second and the leap second after it last two seconds together. -/
  nanos_lt : nanos < 2 * Duration.nanosPerSecond
  /-- A leap second follows the last second of a minute. -/
  leap_last : Duration.nanosPerSecond ≤ nanos → seconds % 60 = 59
deriving DecidableEq

namespace Instant

instance : LT Instant where
  lt a b := a.seconds < b.seconds ∨ (a.seconds = b.seconds ∧ a.nanos < b.nanos)

instance : LE Instant where
  le a b := a.seconds < b.seconds ∨ (a.seconds = b.seconds ∧ a.nanos ≤ b.nanos)

theorem lt_iff (a b : Instant) :
    a < b ↔ a.seconds < b.seconds ∨ (a.seconds = b.seconds ∧ a.nanos < b.nanos) := Iff.rfl

theorem le_iff (a b : Instant) :
    a ≤ b ↔ a.seconds < b.seconds ∨ (a.seconds = b.seconds ∧ a.nanos ≤ b.nanos) := Iff.rfl

instance : DecidableLT Instant := fun a b => decidable_of_iff _ (lt_iff a b).symm

instance : DecidableLE Instant := fun a b => decidable_of_iff _ (le_iff a b).symm

theorem ext_iff (a b : Instant) : a = b ↔ a.seconds = b.seconds ∧ a.nanos = b.nanos := by
  cases a; cases b; simp

theorem not_lt (a b : Instant) : ¬ a < b ↔ b ≤ a := by
  rw [lt_iff, le_iff]; omega

theorem not_le (a b : Instant) : ¬ a ≤ b ↔ b < a := by
  rw [lt_iff, le_iff]; omega

instance : StrictOrder Instant where
  irrefl a := by rw [lt_iff]; omega
  trans {a b c} := by simp only [lt_iff]; omega
  connected a b := by simp only [lt_iff, ext_iff]; omega

instance : Max Instant where
  max a b := if a ≤ b then b else a

instance : Min Instant where
  min a b := if a ≤ b then a else b

/-- 1970-01-01T00:00:00Z. -/
def epoch : Instant := ⟨0, 0, by decide, by decide, by decide, by decide⟩

instance : Inhabited Instant := ⟨epoch⟩

/-- The latest instant outside a leap second, +262142-12-31T23:59:59.999999999Z. -/
def latest : Instant :=
  ⟨Calendar.lastSecond, 999999999, by decide, by decide, by decide, by decide⟩

/-- The instant with these parts, if they are parts of one. -/
def ofParts? (seconds : Int) (nanos : Nat) : Option Instant :=
  if h : Calendar.firstSecond ≤ seconds ∧ seconds ≤ Calendar.lastSecond ∧
      nanos < 2 * Duration.nanosPerSecond ∧
      (Duration.nanosPerSecond ≤ nanos → seconds % 60 = 59) then
    some ⟨seconds, nanos, h.1, h.2.1, h.2.2.1, h.2.2.2⟩
  else none

/-- The longest duration that can be added without saturating, in nanoseconds. -/
def longestShift : Nat := (signedBound64 - 1) * Duration.nanosPerMilli

/-- The second a duration later and the nanoseconds into it, as if the calendar had no end. -/
def shift (i : Instant) (d : Duration) : Int × Nat :=
  let whole := d.nanos / Duration.nanosPerSecond
  let rest := d.nanos % Duration.nanosPerSecond
  if Duration.nanosPerSecond ≤ i.nanos ∧ whole = 0 ∧
      i.nanos + rest < 2 * Duration.nanosPerSecond then
    (i.seconds, i.nanos + rest)
  else
    let sum := i.nanos % Duration.nanosPerSecond + rest
    (i.seconds + ((whole + sum / Duration.nanosPerSecond : Nat) : Int),
      sum % Duration.nanosPerSecond)

/-- The instant a duration later, or the latest instant if there is none. -/
def add (i : Instant) (d : Duration) : Instant :=
  if longestShift < d.nanos then latest
  else (ofParts? (i.shift d).1 (i.shift d).2).getD latest

end Instant

end Workflow
