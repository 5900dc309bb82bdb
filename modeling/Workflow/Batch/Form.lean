/-
The written form of rounds and their outcomes.
-/
import Workflow.Batch.Script

namespace Workflow

/-- How a round ended. -/
def RoundOutcome.toJson (outcome : RoundOutcome) : Json :=
  let shown : String × Json := match outcome with
    | .processed count => ("processed", .nat count)
    | .idle => ("idle", .bool true)
    | .failed reason => ("failed", .str reason)
  .obj [shown, ("backs_off", .bool outcome.backsOff)]

/-- What is known of the rounds so far. -/
def RoundSignal.toJson (signal : RoundSignal) : Json :=
  .obj [("rounds", .nat signal.rounds), ("settled_rounds", .nat signal.settledRounds),
    ("stopped", .bool signal.stopped),
    ("last_outcome", .nullable RoundOutcome.toJson signal.lastOutcome),
    ("last_settled", .nullable RoundOutcome.toJson signal.lastSettled)]

/-- How the processing of a batch ends. -/
def ScriptedResult.ofJson? : Json → Option ScriptedResult
  | .null => some .whole
  | .str reason => some (.failure reason)
  | json => json.word64?.map .count

end Workflow
