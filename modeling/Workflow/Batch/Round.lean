/-
Rounds of batch work.

A work source hands out batches and processes them.  A round pulls one batch and processes it; it
is idle when there was nothing to do, and failed when pulling or processing failed.  An error ends
the round, never the work.
-/
import Workflow.Json.Form
import Workflow.Time.Duration

namespace Workflow

/-- The settings of batch work. -/
structure BatchConfig where
  /-- How many units a round pulls at most. -/
  maxBatchSize : Nat := 100
  /-- The pause after a round that was idle or failed. -/
  idleBackoff : Duration := .ofMillis 2000
deriving DecidableEq, Inhabited

namespace BatchConfig

/-- The settings with another size; a round pulls at least one unit. -/
def withMaxBatchSize (config : BatchConfig) (size : Nat) : BatchConfig :=
  { config with maxBatchSize := max size 1 }

/-- The settings with another pause. -/
def withIdleBackoff (config : BatchConfig) (idleBackoff : Duration) : BatchConfig :=
  { config with idleBackoff }

/-- The settings with one of them changed, by its name. -/
def change? (config : BatchConfig) (name : String) (value : Json) : Option BatchConfig :=
  match name with
  | "max_batch_size" => value.word64?.map config.withMaxBatchSize
  | "idle_backoff" => value.span?.map config.withIdleBackoff
  | _ => none

/-- The stored form of the settings. -/
def toJson (config : BatchConfig) : Json :=
  .obj [("max_batch_size", .nat config.maxBatchSize), ("idle_backoff", .millis config.idleBackoff)]

/-- Reads settings from their stored form. -/
def ofJson? (json : Json) : Option BatchConfig := do
  let members ← json.fields? ["max_batch_size", "idle_backoff"] []
  let maxBatchSize ← members.required? "max_batch_size" Json.word64?
  let idleBackoff ← members.required? "idle_backoff" Json.millis?
  some { maxBatchSize, idleBackoff }

end BatchConfig

/-- Why batch work does not go on. -/
inductive BatchError where
  /-- Work could not be pulled. -/
  | source (reason : String)
  /-- A batch could not be processed. -/
  | processing (reason : String)
  /-- The loop of this scheduler runs already. -/
  | alreadyRunning (scheduler : String)
  /-- This scheduler was stopped. -/
  | stopped (scheduler : String)
deriving DecidableEq, Inhabited

/-- The name of the cause. -/
def BatchError.name : BatchError → String
  | .source _ => "Source"
  | .processing _ => "Processing"
  | .alreadyRunning _ => "AlreadyRunning"
  | .stopped _ => "Stopped"

/-- The wording of the cause. -/
def BatchError.message : BatchError → String
  | .source reason => s!"failed to pull work: {reason}"
  | .processing reason => s!"failed to process batch: {reason}"
  | .alreadyRunning scheduler => s!"scheduler '{scheduler}' is already running"
  | .stopped scheduler => s!"scheduler '{scheduler}' is stopped"

/-- How a round ends. -/
inductive RoundOutcome where
  /-- So many units were processed. -/
  | processed (count : Nat)
  /-- There was nothing to do. -/
  | idle
  /-- Pulling or processing failed. -/
  | failed (reason : String)
deriving DecidableEq, Inhabited

/-- Whether a pause follows the round. -/
def RoundOutcome.backsOff : RoundOutcome → Bool
  | .processed _ => false
  | _ => true

/-- Where work comes from and how it is done, over a state that both can change. -/
structure WorkSource (σ υ : Type) where
  /-- Pulls at most so many units. -/
  pull : Nat → σ → Except BatchError (List υ) × σ
  /-- Processes a batch, and counts the units. -/
  process : List υ → σ → Except BatchError Nat × σ

/-- Runs a round. -/
def WorkSource.round {σ υ : Type} (source : WorkSource σ υ) (size : Nat) (work : σ) :
    RoundOutcome × σ :=
  match source.pull size work with
  | (.error e, work) => (.failed e.message, work)
  | (.ok [], work) => (.idle, work)
  | (.ok batch, work) =>
      match source.process batch work with
      | (.error e, work) => (.failed e.message, work)
      | (.ok 0, work) => (.idle, work)
      | (.ok count, work) => (.processed count, work)

/-- What is known of the rounds so far. -/
structure RoundSignal where
  /-- How many rounds there were. -/
  rounds : Nat := 0
  /-- How many of them were idle or failed. -/
  settledRounds : Nat := 0
  /-- How the last one ended. -/
  lastOutcome : Option RoundOutcome := none
  /-- How the last one ended that was idle or failed. -/
  lastSettled : Option RoundOutcome := none
  /-- Whether no round will follow. -/
  stopped : Bool := false
deriving DecidableEq, Inhabited

/-- The signal after one more round. -/
def RoundSignal.publish (signal : RoundSignal) (outcome : RoundOutcome) : RoundSignal :=
  let counted := { signal with rounds := signal.rounds + 1, lastOutcome := some outcome }
  if outcome.backsOff then
    { counted with settledRounds := signal.settledRounds + 1, lastSettled := some outcome }
  else counted

end Workflow
