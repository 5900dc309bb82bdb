/-
When the firings of a repeating timer are due.

A timer that repeats is due one period after the timer before it, so the due date of its k-th firing
is found by k additions.  Additions add up (`Instant.add_add`), so the k-th firing is due k periods
after the creation of the first timer, however late the firings themselves are
(`TimerCycle.firing`), and later firings are not due earlier.

A timer that is pending awaits one of the firings (`TimerPayload.Awaits`).  Its successor awaits the
next one, and it has none if that firing was the last.
-/
import Workflow.Proofs.Time.Instant
import Workflow.Proofs.Timer.Life

namespace Workflow

/-! ### Firings -/

/-- Whether a k-th firing follows, the first one counted as 1. -/
def Repetition.Reaches : Repetition → Nat → Prop
  | .once, k => k ≤ 1
  | .finite n, k => k ≤ n
  | .infinite, _ => True

namespace Repetition

variable {repetition next : Repetition}

/-- The repetition that follows has one firing less. -/
theorem reaches_next (h : repetition.next? = some next) {k : Nat} :
    next.Reaches k ↔ repetition.Reaches (k + 1) := by
  cases repetition with
  | once => cases h
  | infinite =>
      cases h
      exact Iff.rfl
  | finite n =>
      obtain ⟨hmore, heq⟩ := Option.ite_none_left_eq_some.mp h
      cases heq
      unfold Reaches
      dsimp only
      omega

/-- If none follows then there is no second firing. -/
theorem not_reaches_of_next (h : repetition.next? = none) : ¬ repetition.Reaches 2 := by
  cases repetition with
  | once => exact Nat.not_succ_le_self 1
  | infinite => cases h
  | finite n =>
      intro hreaches
      have hsmall : ¬ n ≤ 1 := Nat.not_le.mpr hreaches
      unfold next? at h
      dsimp only at h
      rw [if_neg hsmall] at h
      cases h

/-- If one follows then there is a second firing. -/
theorem reaches_of_next (h : repetition.next? = some next) : repetition.Reaches 2 := by
  cases repetition with
  | once => cases h
  | infinite => exact trivial
  | finite n => exact Nat.not_le.mp (Option.ite_none_left_eq_some.mp h).1

/-- Whatever comes before a firing that is reached is reached. -/
theorem Reaches.earlier {j k : Nat} (h : repetition.Reaches k) (hle : j ≤ k) :
    repetition.Reaches j := by
  cases repetition with
  | once => exact Nat.le_trans hle h
  | finite n => exact Nat.le_trans hle h
  | infinite => exact trivial

end Repetition

namespace TimerCycle

variable {start : Instant}

/-- When the k-th firing is due, for a timer that is created at an instant. -/
def firing (cycle : TimerCycle) (start : Instant) (k : Nat) : Instant :=
  start.add ⟨k * cycle.period.nanos⟩

/-- **A firing is due one period after the one before it**, whenever that one took place. -/
theorem firing_succ (cycle : TimerCycle) (start : Instant) (k : Nat) :
    (cycle.firing start k).add cycle.period = cycle.firing start (k + 1) := by
  unfold firing
  rw [Instant.add_add, Nat.succ_mul]

theorem firing_one (cycle : TimerCycle) (start : Instant) :
    cycle.firing start 1 = start.add cycle.period := by
  unfold firing
  rw [Nat.one_mul]

theorem firing_mono (cycle : TimerCycle) (h : start ≤ Instant.latest) {j k : Nat} (hle : j ≤ k) :
    cycle.firing start j ≤ cycle.firing start k :=
  Instant.add_mono h (Nat.mul_le_mul_right _ hle)

end TimerCycle

/-! ### The timer that awaits a firing -/

/-- After so many firings of a cycle, the timer awaits the next one. -/
structure TimerPayload.Awaits (timer : TimerPayload) (cycle : TimerCycle) (start : Instant)
    (fired : Nat) : Prop where
  /-- There is a next one. -/
  reached : cycle.repetition.Reaches (fired + 1)
  due : timer.dueDate = some (cycle.firing start (fired + 1))
  period : timer.period = some cycle.period
  /-- The timer has as many firings as are left of the cycle. -/
  left : ∀ k, timer.repetition.Reaches (k + 1) ↔ cycle.repetition.Reaches (fired + k + 1)

namespace TimerPayload.Awaits

variable {timer : TimerPayload} {cycle : TimerCycle} {start : Instant} {fired : Nat}

/-- **The successor awaits the next firing**; without one there is no other firing. -/
theorem successor (h : timer.Awaits cycle start fired) :
    (∃ next, timer.successor? = some next ∧ next.Awaits cycle start (fired + 1)) ∨
      (timer.successor? = none ∧ ¬ cycle.repetition.Reaches (fired + 2)) := by
  unfold successor?
  rw [h.due, h.period]
  cases hnext : timer.repetition.next? with
  | none =>
      exact .inr ⟨rfl, fun hreached =>
        Repetition.not_reaches_of_next hnext ((h.left 1).mpr hreached)⟩
  | some repetition =>
      refine .inl ⟨_, rfl, (h.left 1).mp (Repetition.reaches_of_next hnext),
        congrArg some (cycle.firing_succ start (fired + 1)), rfl, fun k => ?_⟩
      rw [Repetition.reaches_next hnext, h.left (k + 1), ← Nat.add_assoc, Nat.add_right_comm fired]

/-- A timer that is created for a cycle awaits its first firing. -/
theorem first (key position definitionKey instanceKey elementInstanceKey : Nat)
    (request : TimerPayload) (hrepeats : cycle.repetition.Reaches 1) :
    (Decide.elementTimer key position definitionKey instanceKey elementInstanceKey request
      ((TimerPlan.every cycle).resolve start)).toPayload.Awaits cycle start 0 where
  reached := hrepeats
  due := congrArg some (cycle.firing_one start).symm
  period := rfl
  left := fun k => by rw [Nat.zero_add]; exact Iff.rfl

end TimerPayload.Awaits

end Workflow
