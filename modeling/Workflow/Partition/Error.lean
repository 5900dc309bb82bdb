/-
Why a partition does not do what it is asked to.
-/
import Workflow.Log.Basic

namespace Workflow

/-- Why an operation of a partition fails. -/
inductive PartitionError where
  /-- The log does not answer. -/
  | log (cause : LogError)
  /-- A command that is applied again has other follow-ups than the log holds. -/
  | replay (position : Nat) (details : String)
  /-- Commands are being applied. -/
  | roundInProgress (partitionId : Nat)
  /-- The partition id does not fit into a key. -/
  | invalidPartitionId (partitionId limit : Nat)
  /-- A request with the same number waits already. -/
  | duplicateRequest (correlation : Correlation)
deriving DecidableEq, Inhabited

/-- The name of the cause. -/
def PartitionError.name : PartitionError → String
  | .log cause => cause.name
  | .replay _ _ => "Replay"
  | .roundInProgress _ => "RoundInProgress"
  | .invalidPartitionId _ _ => "InvalidPartitionId"
  | .duplicateRequest _ => "DuplicateRequest"

/-- The wording of the cause. -/
def PartitionError.message : PartitionError → String
  | .log cause => cause.message
  | .replay position details =>
      s!"non-deterministic processing of command at position {position}: {details}"
  | .roundInProgress partitionId => s!"partition {partitionId} is already processing"
  | .invalidPartitionId partitionId limit =>
      s!"partition id {partitionId} does not fit in a key, the maximum is {limit}"
  | .duplicateRequest correlation =>
      s!"request {correlation.requestId} on stream {correlation.streamId} is already pending"

end Workflow
