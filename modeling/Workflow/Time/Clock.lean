/-
A clock that only moves when it is told to, and never backwards.
-/
import Workflow.Time.Instant

namespace Workflow

/-- A clock under control: it shows an instant until it is moved. -/
structure Clock where
  /-- The instant the clock shows. -/
  now : Instant := ⟨1704067200, 0, by decide, by decide, by decide, by decide⟩
deriving DecidableEq, Inhabited

namespace Clock

/-- Moves the clock forward by a duration. -/
def advance (clock : Clock) (d : Duration) : Clock := ⟨clock.now.add d⟩

/-- Moves the clock to an instant; an instant in the past is ignored. -/
def set (clock : Clock) (instant : Instant) : Clock :=
  if clock.now < instant then ⟨instant⟩ else clock

end Clock

end Workflow
