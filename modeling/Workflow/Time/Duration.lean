/-
Lengths of time.

A duration is an exact count of nanoseconds.  Where it is stored in a record it is a whole number
of milliseconds: what is left below a millisecond is dropped, and a count beyond the largest
64-bit number is written as that number.
-/
import Workflow.Width

namespace Workflow

/-- A length of time, counted in nanoseconds. -/
structure Duration where
  /-- The number of nanoseconds. -/
  nanos : Nat
deriving DecidableEq, Inhabited

namespace Duration

/-- Nanoseconds in a second. -/
def nanosPerSecond : Nat := 1000000000

/-- Nanoseconds in a millisecond. -/
def nanosPerMilli : Nat := 1000000

/-- The duration of a number of seconds and nanoseconds. -/
def ofParts (seconds nanos : Nat) : Duration := ⟨seconds * nanosPerSecond + nanos⟩

/-- The duration of a number of milliseconds. -/
def ofMillis (millis : Nat) : Duration := ⟨millis * nanosPerMilli⟩

/-- The whole milliseconds in a duration. -/
def millis (d : Duration) : Nat := d.nanos / nanosPerMilli

/-- The whole milliseconds of a duration as they are stored, capped at 64 bits. -/
def storedMillis (d : Duration) : Nat := min d.millis maxWord64

/-- Whether the duration is zero. -/
def isZero (d : Duration) : Bool := d.nanos == 0

@[simp] theorem millis_ofMillis (n : Nat) : (ofMillis n).millis = n := by
  simp [millis, ofMillis, nanosPerMilli]

end Duration

end Workflow
