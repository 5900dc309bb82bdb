/-
A clock that is moved in any way.

A clock is moved by durations and to instants, in any order.  The move to an instant that has passed
is ignored, and up to the end of the calendar no sum is earlier than the instant it starts from, so
a clock that is set to instants of the calendar never goes back (`Clock.shown_of_calendar`).

A clock can be set to the leap second that follows the latest instant.  A sum that leaves this
second saturates at the latest instant, which is earlier: there, and only there, a move leads back
(`Clock.le_move_iff`, `Clock.pairwise_shown_iff`).  Even then the clock does not go back behind an
instant of the calendar that it has shown (`Clock.le_moveAll`).

Since additions add up, moving the clock in several steps is moving it by their sum
(`Clock.moveAll_advance`).
-/
import Mathlib.Algebra.GroupWithZero.Nat
import Workflow.Proofs.Time.Instant
import Workflow.Time.Clock

namespace Workflow

/-- One move of a clock. -/
inductive ClockMove where
  /-- Forward by a duration. -/
  | advance (d : Duration)
  /-- To an instant. -/
  | set (instant : Instant)
deriving DecidableEq, Inhabited

namespace Clock

/-- Moves the clock. -/
def move (clock : Clock) : ClockMove → Clock
  | .advance d => clock.advance d
  | .set instant => clock.set instant

/-- Makes one move after the other. -/
def moveAll (clock : Clock) (moves : List ClockMove) : Clock := moves.foldl move clock

/-- The instants that the clock shows, the first one before it is moved. -/
def shown (clock : Clock) : List ClockMove → List Instant
  | [] => [clock.now]
  | step :: rest => clock.now :: (clock.move step).shown rest

/-- The clock shows the leap second after the latest instant, and is advanced out of it. -/
def Overruns (clock : Clock) (step : ClockMove) : Prop :=
  Instant.latest < clock.now ∧ ∃ d, step = .advance d ∧ 2000000000 ≤ clock.now.nanos + d.nanos

variable {clock : Clock} {i : Instant}

/-! ### One move -/

theorem le_move (hi : i ≤ .latest) (h : i ≤ clock.now) (step : ClockMove) :
    i ≤ (clock.move step).now := by
  cases step with
  | advance d => exact Instant.le_add_of_le hi h d
  | set instant =>
      show i ≤ (if clock.now < instant then (⟨instant⟩ : Clock) else clock).now
      split
      · rename_i hlater
        exact Instant.le_trans h (Instant.le_of_lt hlater)
      · exact h

/-- The move to an instant that has passed is ignored. -/
theorem le_set (clock : Clock) (instant : Instant) : clock.now ≤ (clock.set instant).now := by
  show clock.now ≤ (if clock.now < instant then (⟨instant⟩ : Clock) else clock).now
  split
  · rename_i hlater
    exact Instant.le_of_lt hlater
  · exact Instant.le_refl _

/-- **When a move leads back.** -/
theorem le_move_iff (clock : Clock) (step : ClockMove) :
    clock.now ≤ (clock.move step).now ↔ ¬ clock.Overruns step := by
  cases step with
  | advance d =>
      refine (Instant.le_add_iff clock.now d).trans ⟨?_, fun hstays => ?_⟩
      · rintro (hin | hshort) ⟨hlate, d', heq, hlong⟩
        · exact (Instant.not_lt _ _).mpr hin hlate
        · cases heq
          exact Nat.not_le.mpr hshort hlong
      · by_cases hin : clock.now ≤ .latest
        · exact .inl hin
        · refine .inr (Nat.not_le.mp fun hlong => hstays ?_)
          exact ⟨(Instant.not_le _ _).mp hin, d, rfl, hlong⟩
  | set instant => exact iff_of_true (clock.le_set instant) nofun

theorem move_le_latest (h : clock.now ≤ .latest) {step : ClockMove}
    (hset : ∀ instant, step = .set instant → instant ≤ .latest) :
    (clock.move step).now ≤ .latest := by
  cases step with
  | advance d => exact Instant.add_le_latest h d
  | set instant =>
      show (if clock.now < instant then (⟨instant⟩ : Clock) else clock).now ≤ .latest
      split
      · exact hset instant rfl
      · exact h

/-! ### A run -/

/-- The first instant that the clock shows is the one that it showed. -/
theorem now_mem_shown (clock : Clock) (moves : List ClockMove) : clock.now ∈ clock.shown moves := by
  cases moves with
  | nil => exact List.mem_singleton_self _
  | cons step rest => exact List.mem_cons_self

/-- **The clock shows one instant after the other** unless a move leads back. -/
theorem pairwise_shown_iff (moves : List ClockMove) :
    ∀ clock : Clock, (clock.shown moves).Pairwise (· ≤ ·) ↔
      ∀ before step after, moves = before ++ step :: after →
        ¬ (clock.moveAll before).Overruns step := by
  induction moves with
  | nil =>
      intro clock
      refine iff_of_true (List.pairwise_singleton _ _) fun before step after heq => ?_
      exact absurd heq.symm (List.append_ne_nil_of_right_ne_nil _ (List.cons_ne_nil _ _))
  | cons first rest ih =>
      intro clock
      unfold shown
      rw [List.pairwise_cons, ih (clock.move first)]
      constructor
      · rintro ⟨hfirst, hrest⟩ before step after heq
        cases before with
        | nil =>
            cases heq
            exact (clock.le_move_iff first).mp (hfirst _ (now_mem_shown _ _))
        | cons other others =>
            cases heq
            exact hrest others step after rfl
      · intro hall
        have hrest : ∀ before step after, rest = before ++ step :: after →
            ¬ ((clock.move first).moveAll before).Overruns step :=
          fun before step after heq => hall (first :: before) step after (heq ▸ rfl)
        have hfirst := (clock.le_move_iff first).mpr (hall [] first rest rfl)
        refine ⟨fun instant hmem => Instant.le_trans hfirst ?_, hrest⟩
        -- What follows is in order, so it is not before its first instant.
        have hsorted := (ih (clock.move first)).mpr hrest
        cases rest with
        | nil => rw [List.mem_singleton.mp hmem]; exact Instant.le_refl _
        | cons next others =>
            rcases List.mem_cons.mp hmem with rfl | hin
            · exact Instant.le_refl _
            · exact (List.pairwise_cons.mp hsorted).1 instant hin

/-- **The clock does not go back behind an instant of the calendar**, however it is moved. -/
theorem le_moveAll (hi : i ≤ .latest) (moves : List ClockMove) :
    ∀ clock : Clock, i ≤ clock.now → i ≤ (clock.moveAll moves).now := by
  induction moves with
  | nil => intro clock h; exact h
  | cons step rest ih => intro clock h; exact ih (clock.move step) (le_move hi h step)

/-- A clock that is set to instants of the calendar shows instants of the calendar. -/
theorem moveAll_le_latest (moves : List ClockMove) :
    ∀ clock : Clock, clock.now ≤ .latest →
      (∀ instant, ClockMove.set instant ∈ moves → instant ≤ .latest) →
      (clock.moveAll moves).now ≤ .latest := by
  induction moves with
  | nil => intro clock h _; exact h
  | cons step rest ih =>
      intro clock h hset
      refine ih (clock.move step) (move_le_latest h fun instant heq => ?_) fun instant hmem =>
        hset instant (List.mem_cons_of_mem _ hmem)
      exact hset instant (heq ▸ List.mem_cons_self)

/-- **A clock that is set to instants of the calendar never goes back.** -/
theorem shown_of_calendar (h : clock.now ≤ .latest) {moves : List ClockMove}
    (hset : ∀ instant, ClockMove.set instant ∈ moves → instant ≤ .latest) :
    (clock.shown moves).Pairwise (· ≤ ·) := by
  refine (pairwise_shown_iff moves clock).mpr fun before step after heq hoverruns => ?_
  refine (Instant.not_lt _ _).mpr (moveAll_le_latest before clock h fun instant hmem => ?_)
    hoverruns.1
  exact hset instant (by rw [heq]; exact List.mem_append_left _ hmem)

/-- **Steps add up**: the clock is where their sum leads. -/
theorem moveAll_advance (durations : List Duration) :
    ∀ clock : Clock, clock.moveAll (durations.map .advance) =
      clock.advance ⟨(durations.map Duration.nanos).sum⟩ := by
  induction durations with
  | nil => intro clock; exact congrArg Clock.mk clock.now.add_zero.symm
  | cons d rest ih =>
      intro clock
      calc (clock.advance d).moveAll (rest.map .advance)
        _ = (clock.advance d).advance ⟨(rest.map Duration.nanos).sum⟩ := ih (clock.advance d)
        _ = clock.advance ⟨d.nanos + (rest.map Duration.nanos).sum⟩ :=
          congrArg Clock.mk (clock.now.add_add d _)

/-- **Time that saturates is still time.**  Up to the end of the calendar, leap seconds included,
a sum is exact (less the leap second that it leaves) or the latest instant; it is never earlier than
where it starts, and later if anything is added; a sum of more is not earlier; and additions add up.

Hence the instants that a clock shows are in order exactly if it is never advanced out of the leap
second after the latest instant.  A clock that is set to instants of the calendar is not, and it
shows instants of the calendar only; a clock that is shows none earlier than one of the calendar
that it has shown.  It does not matter in how many steps a clock is advanced. -/
theorem moves_forward (i : Instant) (a b : Duration) (clock : Clock) (moves : List ClockMove)
    (durations : List Duration) :
    (i ≤ .latest →
      i ≤ i.add a ∧ i.add a ≤ .latest ∧
      (0 < a.nanos → i < .latest → i < i.add a) ∧
      (a.nanos ≤ b.nanos → i.add a ≤ i.add b) ∧
      (i.add a).add b = i.add ⟨a.nanos + b.nanos⟩ ∧
      (i.add a).count =
        min ((if 1000000000 ≤ i.nanos ∧ 2000000000 ≤ i.nanos + a.nanos then i.count - 1000000000
          else i.count) + a.nanos) Instant.latest.count) ∧
    ((clock.shown moves).Pairwise (· ≤ ·) ↔
      ∀ before step after, moves = before ++ step :: after →
        ¬ (clock.moveAll before).Overruns step) ∧
    (clock.now ≤ .latest →
      clock.now ≤ (clock.moveAll moves).now ∧
      ((∀ instant, ClockMove.set instant ∈ moves → instant ≤ .latest) →
        (clock.shown moves).Pairwise (· ≤ ·) ∧ (clock.moveAll moves).now ≤ .latest)) ∧
    clock.moveAll (durations.map .advance) =
      clock.advance ⟨(durations.map Duration.nanos).sum⟩ := by
  refine ⟨fun hi => ⟨Instant.le_add hi a, Instant.add_le_latest hi a, fun hpos hlt => ?_,
    Instant.add_mono hi, i.add_add a b, Instant.count_add hi a⟩,
    pairwise_shown_iff moves clock, fun hnow => ?_, moveAll_advance durations clock⟩
  · exact Instant.lt_add hlt (by simpa [Duration.isZero] using Nat.ne_of_gt hpos)
  · exact ⟨le_moveAll hnow moves clock (Instant.le_refl _),
      fun hset => ⟨shown_of_calendar hnow hset, moveAll_le_latest moves clock hnow hset⟩⟩

/-- **A clock can go back.**  It is set to the leap second after the latest instant, and then it is
advanced by a second: it shows the latest instant. -/
theorem advance_leads_back :
    let moves : List ClockMove := [.set (.overtime 500000000), .advance ⟨1000000000⟩]
    (⟨.epoch⟩ : Clock).shown moves = [.epoch, .overtime 500000000, .latest] ∧
      Instant.latest < .overtime 500000000 ∧
      ¬ ∀ (clock : Clock) (moves : List ClockMove), (clock.shown moves).Pairwise (· ≤ ·) := by
  intro moves
  have hshown : (⟨.epoch⟩ : Clock).shown moves = [.epoch, .overtime 500000000, .latest] := by
    decide
  refine ⟨hshown, by decide, fun hforward => ?_⟩
  have hsorted := hforward ⟨.epoch⟩ moves
  rw [hshown] at hsorted
  revert hsorted
  decide

/-- The middle of the leap second at the end of 2016. -/
def midLeap : Instant := ⟨1483228799, 1500000000, by decide, by decide, by decide, by decide⟩

/-- Half a second after the middle of a leap second the next minute begins.  A clock that shows the
middle ignores an instant that has passed, leaves the leap second, and stops at the end of the
calendar. -/
theorem moves_forward_midLeap :
    let clock : Clock := ⟨midLeap⟩
    let moves : List ClockMove := [.set .epoch, .advance ⟨500000000⟩, .set .latest, .advance ⟨1⟩]
    (midLeap ≤ .latest ∧ midLeap < midLeap.add ⟨400000000⟩ ∧
      midLeap.add ⟨400000000⟩ ≤ midLeap.add ⟨500000000⟩ ∧
      (midLeap.add ⟨400000000⟩).add ⟨100000000⟩ = midLeap.add ⟨500000000⟩ ∧
      (midLeap.add ⟨500000000⟩).count = 1483228800000000000) ∧
    midLeap ≤ (clock.moveAll moves).now ∧ (clock.moveAll moves).now ≤ .latest ∧
    (clock.shown moves).Pairwise (· ≤ ·) := by
  intro clock moves
  have hleap : midLeap ≤ .latest := by decide
  obtain ⟨hsums, -, hrun, -⟩ := moves_forward midLeap ⟨400000000⟩ ⟨100000000⟩ clock moves []
  obtain ⟨-, -, hlater, -, hadds, -⟩ := hsums hleap
  obtain ⟨-, -, -, hmono, -, -⟩ :=
    (moves_forward midLeap ⟨400000000⟩ ⟨500000000⟩ clock moves []).1 hleap
  obtain ⟨-, -, -, -, -, hcount⟩ :=
    (moves_forward midLeap ⟨500000000⟩ ⟨0⟩ clock moves []).1 hleap
  obtain ⟨hback, hcalendar⟩ := hrun hleap
  obtain ⟨hshown, hend⟩ := hcalendar fun instant hmem => by
    simp only [moves, List.mem_cons, ClockMove.set.injEq, reduceCtorEq, List.not_mem_nil, or_false,
      false_or] at hmem
    rcases hmem with rfl | rfl <;> decide
  exact ⟨⟨hleap, hlater (by decide) (by decide), hmono (by decide), hadds,
    hcount.trans (by decide)⟩, hback, hend, hshown⟩

end Clock

end Workflow
