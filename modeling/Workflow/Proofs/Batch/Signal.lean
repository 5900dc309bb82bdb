/-
What the signal of a scheduler says.

`Course` is what can happen to a scheduler: a round is carried out, or something is changed that is
no round.  Whoever asks for the rounds, by hand or by waiting while the loop runs, goes through a
course (`course_calls`), so that the signal counts the outcomes of a course (`Course.tells`) is one
induction for all of them.
-/
import Workflow.Batch.Scheduler

namespace Workflow

/-! ### Counting outcomes -/

/-- The signal says of rounds how many there were, how many of them settled, and the last ones. -/
structure RoundSignal.Tells (signal : RoundSignal) (outcomes : List RoundOutcome) : Prop where
  /-- Every round is counted. -/
  rounds : signal.rounds = outcomes.length
  /-- Those that were idle or failed are counted. -/
  settledRounds : signal.settledRounds = (outcomes.filter RoundOutcome.backsOff).length
  /-- The last outcome is known. -/
  lastOutcome : signal.lastOutcome = outcomes.getLast?
  /-- The last one of a round that was idle or failed is known. -/
  lastSettled : signal.lastSettled = (outcomes.filter RoundOutcome.backsOff).getLast?

/-- Before the first round nothing is told. -/
theorem RoundSignal.tells_nil : Tells {} [] := ⟨rfl, rfl, rfl, rfl⟩

/-- One more round is published. -/
theorem RoundSignal.Tells.publish {signal : RoundSignal} {outcomes : List RoundOutcome}
    (h : signal.Tells outcomes) (outcome : RoundOutcome) :
    (signal.publish outcome).Tells (outcomes ++ [outcome]) := by
  obtain ⟨hrounds, hsettled, -, hlast⟩ := h
  unfold RoundSignal.publish
  cases hbacks : outcome.backsOff with
  | true => constructor <;> simp [hbacks, hrounds, hsettled]
  | false => constructor <;> simp [hbacks, hrounds, hsettled, hlast]

/-! ### The course of a scheduler -/

namespace Scheduler

variable {σ υ : Type}

/-- How a scheduler gets from one state to another, and the outcomes of the rounds between them. -/
inductive Course (s : Scheduler σ υ) : List RoundOutcome → Scheduler σ υ → Prop where
  /-- Nothing happens. -/
  | refl : Course s [] s
  /-- A round is carried out. -/
  | round {outcomes : List RoundOutcome} {t : Scheduler σ υ} (h : Course s outcomes t) :
      Course s (outcomes ++ [t.executeRound.1]) t.executeRound.2
  /-- The work is changed from outside, time passes, or the loop is started or stopped. -/
  | aside {outcomes : List RoundOutcome} {t : Scheduler σ υ} (work : σ) (loop : LoopState)
      (now : Nat) (stopped : Bool) (h : Course s outcomes t) :
      Course s outcomes { t with work, loop, now, signal := { t.signal with stopped } }

variable {s t u : Scheduler σ υ} {outcomes later : List RoundOutcome}

/-- **The signal counts the rounds of a course.** -/
theorem Course.tells (h : Course s outcomes t) (hfresh : s.signal.Tells []) :
    t.signal.Tells outcomes := by
  induction h with
  | refl => exact hfresh
  | round _ ih => exact ih.publish _
  | aside work loop now stopped _ ih => exact { ih with }

theorem Course.trans (h : Course s outcomes t) (hlater : Course t later u) :
    Course s (outcomes ++ later) u := by
  induction hlater with
  | refl => rwa [List.append_nil]
  | round _ ih => rw [← List.append_assoc]; exact ih.round
  | aside work loop now stopped _ ih => exact ih.aside work loop now stopped

/-- A round by hand is one round, or none if the loop was started or stopped. -/
theorem course_runRound (s : Scheduler σ υ) : ∃ outcomes, Course s outcomes s.runRound.2 := by
  unfold runRound
  cases s.loop with
  | resting => exact ⟨_, .round .refl⟩
  | waiting wake => exact ⟨[], .refl⟩
  | stopped => exact ⟨[], .refl⟩

/-- Starting the loop is no round. -/
theorem course_start (s : Scheduler σ υ) : Course s [] s.start.2 := by
  unfold start
  cases s.loop with
  | resting => exact .aside _ _ _ _ .refl
  | waiting wake => exact .refl
  | stopped => exact .refl

/-- The loop wakes up for one round. -/
theorem course_wakeUp (s : Scheduler σ υ) (wake : Nat) :
    Course s [(s.wakeUp wake).1] (s.wakeUp wake).2 :=
  .aside _ _ _ _ (.round (.aside s.work s.loop (max s.now wake) s.signal.stopped .refl))

theorem course_runBefore (rounds deadline : Nat) :
    ∀ s : Scheduler σ υ, ∃ outcomes, Course s outcomes (runBefore rounds deadline s) := by
  induction rounds with
  | zero => intro s; exact ⟨[], .refl⟩
  | succ rounds ih =>
      intro s
      unfold runBefore
      cases s.loop with
      | waiting wake =>
          dsimp only
          by_cases hwake : wake < deadline
          · obtain ⟨outcomes, hrest⟩ := ih (s.wakeUp wake).2
            rw [if_pos hwake]
            exact ⟨_, (course_wakeUp s wake).trans hrest⟩
          · rw [if_neg hwake]
            exact ⟨[], .refl⟩
      | resting => exact ⟨[], .refl⟩
      | stopped => exact ⟨[], .refl⟩

/-- While someone sleeps the loop runs its rounds. -/
theorem course_sleep (s : Scheduler σ υ) (rounds millis : Nat) :
    ∃ outcomes, Course s outcomes (s.sleep rounds millis) := by
  obtain ⟨outcomes, h⟩ := course_runBefore rounds (s.now + millis) s
  exact ⟨outcomes, h.aside _ _ (s.now + millis) _⟩

/-- The rounds up to one that settles; that one is the last. -/
theorem course_runUntilSettled (rounds deadline : Nat) :
    ∀ s : Scheduler σ υ, ∃ outcomes, Course s outcomes (runUntilSettled rounds deadline s).2 ∧
      ∀ outcome, (runUntilSettled rounds deadline s).1 = some outcome →
        outcomes.getLast? = some outcome ∧ outcome.backsOff := by
  induction rounds with
  | zero => intro s; exact ⟨[], .refl, fun _ h => by cases h⟩
  | succ rounds ih =>
      intro s
      unfold runUntilSettled
      cases s.loop with
      | waiting wake =>
          dsimp only
          by_cases hwake : wake < deadline
          · rw [if_pos hwake]
            cases hbacks : (s.wakeUp wake).1.backsOff with
            | true =>
                refine ⟨_, course_wakeUp s wake, fun outcome h => ?_⟩
                cases h
                exact ⟨rfl, hbacks⟩
            | false =>
                obtain ⟨outcomes, hrest, hlast⟩ := ih (s.wakeUp wake).2
                refine ⟨_, (course_wakeUp s wake).trans hrest, fun outcome h => ?_⟩
                obtain ⟨hget, hsettles⟩ := hlast outcome h
                exact ⟨by rw [List.getLast?_append, hget]; rfl, hsettles⟩
          · rw [if_neg hwake]
            exact ⟨[], .refl, fun _ h => by cases h⟩
      | resting => exact ⟨[], .refl, fun _ h => by cases h⟩
      | stopped => exact ⟨[], .refl, fun _ h => by cases h⟩

/-- Who waits for a round that settles is told its outcome, as the signal tells it afterwards. -/
theorem course_waitIdle (s : Scheduler σ υ) (rounds : Nat) :
    ∃ outcomes, Course s outcomes (s.waitIdle rounds).2 ∧
      ∀ outcome, (s.waitIdle rounds).1 = .ok (some outcome) →
        (outcomes.filter RoundOutcome.backsOff).getLast? = some outcome := by
  unfold waitIdle
  cases s.signal.stopped with
  | true => exact ⟨[], .refl, fun _ h => by cases h⟩
  | false =>
      obtain ⟨outcomes, hcourse, hlast⟩ := course_runUntilSettled rounds (s.now + patience) s
      rw [if_neg Bool.false_ne_true]
      rcases hrun : runUntilSettled rounds (s.now + patience) s with ⟨_ | outcome, t⟩
      · rw [hrun] at hcourse
        dsimp only
        rw [hrun]
        exact ⟨outcomes, hcourse.aside _ _ (s.now + patience) _, fun _ h => by cases h⟩
      · rw [hrun] at hcourse hlast
        dsimp only
        rw [hrun]
        refine ⟨outcomes, hcourse, fun told h => ?_⟩
        cases h
        obtain ⟨hget, hbacks⟩ := hlast outcome rfl
        obtain ⟨before, rfl⟩ := List.getLast?_eq_some_iff.mp hget
        rw [List.filter_append, List.filter_cons_of_pos hbacks, List.filter_nil,
          List.getLast?_concat]

/-! ### Calls -/

/-- A call on a scheduler, or a change of its work from outside. -/
inductive Call (σ : Type) where
  /-- The work is changed. -/
  | change (work : σ)
  /-- Starts the loop. -/
  | start
  /-- Stops the scheduler. -/
  | stop
  /-- Runs a round by hand. -/
  | runRound
  /-- Lets time pass. -/
  | sleep (rounds millis : Nat)
  /-- Waits for a round that settles. -/
  | waitIdle (rounds : Nat)

/-- The scheduler after a call. -/
def call (s : Scheduler σ υ) : Call σ → Scheduler σ υ
  | .change work => { s with work }
  | .start => s.start.2
  | .stop => s.stop
  | .runRound => s.runRound.2
  | .sleep rounds millis => s.sleep rounds millis
  | .waitIdle rounds => (s.waitIdle rounds).2

theorem course_call (s : Scheduler σ υ) (call : Call σ) :
    ∃ outcomes, Course s outcomes (s.call call) := by
  cases call with
  | change work => exact ⟨[], .aside work _ _ _ .refl⟩
  | start => exact ⟨[], s.course_start⟩
  | stop => exact ⟨[], .aside _ _ _ true .refl⟩
  | runRound => exact s.course_runRound
  | sleep rounds millis => exact s.course_sleep rounds millis
  | waitIdle rounds =>
      obtain ⟨outcomes, hcourse, -⟩ := s.course_waitIdle rounds
      exact ⟨outcomes, hcourse⟩

/-- **Whatever is called, a scheduler goes through a course.** -/
theorem course_calls (calls : List (Call σ)) :
    ∀ s : Scheduler σ υ, ∃ outcomes, Course s outcomes (calls.foldl call s) := by
  induction calls with
  | nil => intro s; exact ⟨[], .refl⟩
  | cons first rest ih =>
      intro s
      obtain ⟨outcomes, hfirst⟩ := s.course_call first
      obtain ⟨later, hrest⟩ := ih (s.call first)
      exact ⟨outcomes ++ later, hfirst.trans hrest⟩

/-- **Who waits for a round that settles is told what the signal tells afterwards.** -/
theorem Course.lastSettled_waitIdle (h : Course s outcomes t) (hfresh : s.signal.Tells [])
    {rounds : Nat} {outcome : RoundOutcome} (htold : (t.waitIdle rounds).1 = .ok (some outcome)) :
    (t.waitIdle rounds).2.signal.lastSettled = some outcome := by
  obtain ⟨later, hwaits, hlast⟩ := t.course_waitIdle rounds
  rw [((h.trans hwaits).tells hfresh).lastSettled, List.filter_append, List.getLast?_append,
    hlast outcome htold]
  rfl

end Scheduler

end Workflow
