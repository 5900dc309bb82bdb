/-
A scheduler: rounds in a loop, with a pause after every round that found nothing to do.

Time is counted in milliseconds from the beginning, and only waiting lets it pass.  A round takes
no time.  While someone waits, the loop runs every round that begins before the wait is over; at
one and the same time the wait ends first.  Stopping runs no further round.
-/
import Workflow.Batch.Round

namespace Workflow

/-- What the loop of a scheduler does. -/
inductive LoopState where
  /-- It was not started. -/
  | resting
  /-- Its next round begins at this time. -/
  | waiting (wake : Nat)
  /-- It was stopped. -/
  | stopped
deriving DecidableEq, Inhabited

/-- A scheduler over a source of work. -/
structure Scheduler (σ υ : Type) where
  /-- The name of the scheduler. -/
  name : String
  /-- The settings. -/
  config : BatchConfig
  /-- Where the work comes from. -/
  source : WorkSource σ υ
  /-- The state of the work. -/
  work : σ
  /-- What is known of the rounds so far. -/
  signal : RoundSignal := {}
  /-- What the loop does. -/
  loop : LoopState := .resting
  /-- The time. -/
  now : Nat := 0

namespace Scheduler

variable {σ υ : Type}

/-- Runs a round and makes its outcome known. -/
def executeRound (s : Scheduler σ υ) : RoundOutcome × Scheduler σ υ :=
  let (outcome, work) := s.source.round s.config.maxBatchSize s.work
  (outcome, { s with work, signal := s.signal.publish outcome })

/-- Runs a round by hand, as long as the loop was not started. -/
def runRound (s : Scheduler σ υ) : Except BatchError RoundOutcome × Scheduler σ υ :=
  match s.loop with
  | .resting =>
      let (outcome, s) := s.executeRound
      (.ok outcome, s)
  | .waiting _ => (.error (.alreadyRunning s.name), s)
  | .stopped => (.error (.stopped s.name), s)

/-- Starts the loop. -/
def start (s : Scheduler σ υ) : Except BatchError Unit × Scheduler σ υ :=
  match s.loop with
  | .resting => (.ok (), { s with loop := .waiting s.now })
  | .waiting _ => (.error (.alreadyRunning s.name), s)
  | .stopped => (.error (.stopped s.name), s)

/-- Whether the loop was started and not stopped. -/
def isRunning (s : Scheduler σ υ) : Bool :=
  match s.loop with
  | .waiting _ => true
  | _ => false

/-- Stops the scheduler for good. -/
def stop (s : Scheduler σ υ) : Scheduler σ υ :=
  { s with loop := .stopped, signal := { s.signal with stopped := true } }

/-- Runs the round that the loop waits for. -/
def wakeUp (s : Scheduler σ υ) (wake : Nat) : RoundOutcome × Scheduler σ υ :=
  let now := max s.now wake
  let (outcome, s) := executeRound { s with now }
  let pause := if outcome.backsOff then s.config.idleBackoff.millis else 0
  (outcome, { s with loop := .waiting (now + pause) })

/-- Runs the rounds of the loop that begin before a time, at most `rounds`. -/
def runBefore : Nat → Nat → Scheduler σ υ → Scheduler σ υ
  | 0, _, s => s
  | rounds + 1, deadline, s =>
      match s.loop with
      | .waiting wake => if wake < deadline then runBefore rounds deadline (s.wakeUp wake).2 else s
      | _ => s

/-- Waits a number of milliseconds, in which the loop runs at most `rounds`. -/
def sleep (s : Scheduler σ υ) (rounds millis : Nat) : Scheduler σ υ :=
  let deadline := s.now + millis
  { s.runBefore rounds deadline with now := deadline }

/-- Runs the rounds of the loop up to the first one that is idle or failed. -/
def runUntilSettled : Nat → Nat → Scheduler σ υ → Option RoundOutcome × Scheduler σ υ
  | 0, _, s => (none, s)
  | rounds + 1, deadline, s =>
      match s.loop with
      | .waiting wake =>
          if wake < deadline then
            let (outcome, s) := s.wakeUp wake
            if outcome.backsOff then (some outcome, s) else runUntilSettled rounds deadline s
          else (none, s)
      | _ => (none, s)

/-- How long to wait for a round that settles, in milliseconds. -/
def patience : Nat := 1000000000

/--
Waits for the next round that is idle or failed, while the loop runs at most `rounds`.  Nothing is
told when patience runs out first.
-/
def waitIdle (s : Scheduler σ υ) (rounds : Nat) :
    Except BatchError (Option RoundOutcome) × Scheduler σ υ :=
  if s.signal.stopped then (.error (.stopped s.name), s)
  else
    let deadline := s.now + patience
    match s.runUntilSettled rounds deadline with
    | (some outcome, s) => (.ok (some outcome), s)
    | (none, s) => (.ok none, { s with now := deadline })

end Scheduler

end Workflow
