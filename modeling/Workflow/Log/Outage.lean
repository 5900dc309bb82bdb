/-
Outages: which of the calls on a resource are refused.

An outage numbers the calls from zero and may refuse any set of them, so it stands for every
course that failures can take.
-/

namespace Workflow

/-- Which calls are refused, and how many there were. -/
structure Outage where
  /-- Whether the call with a number is refused. -/
  refuses : Nat → Bool
  /-- The number of the next call. -/
  calls : Nat := 0

namespace Outage

/-- No call is refused. -/
def none : Outage := { refuses := fun _ => false }

instance : Inhabited Outage := ⟨none⟩

/-- Lets `skip` calls pass and refuses the `count` calls after them. -/
def window (skip count : Nat) : Outage :=
  { refuses := fun call => decide (skip ≤ call ∧ call < skip + count) }

/-- Whether the next call is refused. -/
def next (outage : Outage) : Bool × Outage :=
  (outage.refuses outage.calls, { outage with calls := outage.calls + 1 })

end Outage

end Workflow
