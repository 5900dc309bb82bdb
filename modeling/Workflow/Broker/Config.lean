/-
The settings of a broker process, read from variables.

A variable is trimmed and read as a number of the width of its setting.  One that is not set, or
is no such number, leaves the setting as it is.
-/
import Workflow.Batch.Round
import Workflow.Operation.Form
import Workflow.Partition.Config
import Workflow.Text.Blank
import Workflow.Text.Decimal

namespace Workflow

/-- The settings of a broker process. -/
structure BrokerConfig where
  /-- The settings of the partition. -/
  partition : PartitionConfig := {}
  /-- The settings of operations. -/
  operations : OperationsConfig := {}
  /-- The settings of batch work. -/
  scheduler : BatchConfig := {}
  /-- The stream of requests that operations use. -/
  requestStreamId : Int := 1
deriving DecidableEq, Inhabited

namespace BrokerConfig

/-- The value of a variable, if it is set and can be read. -/
def reading {α : Type} (lookup? : String → Option String) (name : String)
    (read? : List Char → Option α) : Option α :=
  (lookup? name).bind fun text => read? (trimBlank text.toList)

/-- An unsigned number of 64 bits. -/
def count? : List Char → Option Nat := Decimal.unsigned? maxWord64

/-- A setting that a value changes, if there is one. -/
def given {α β : Type} (value : Option α) (change : β → α → β) (setting : β) : β :=
  match value with
  | some value => change setting value
  | none => setting

/-- The settings that the variables give. -/
def ofVariables (lookup? : String → Option String) : BrokerConfig where
  partition :=
    given (reading lookup? "CONDUCTOR_MAX_COMMANDS_PER_ROUND" count?)
      PartitionConfig.withMaxCommandsPerRound
      (given (reading lookup? "CONDUCTOR_PARTITION_ID" (Decimal.unsigned? maxWord16))
        PartitionConfig.withPartitionId {})
  operations :=
    given (reading lookup? "CONDUCTOR_OPERATION_RETRIES" (Decimal.unsigned? maxWord32))
      OperationsConfig.withUpdateRetriesValue
      (given (reading lookup? "CONDUCTOR_BATCH_OPERATION_MAX_SIZE" count?)
        OperationsConfig.withBatchOperationMaxSize {})
  scheduler :=
    given ((reading lookup? "CONDUCTOR_IDLE_BACKOFF_MS" count?).map Duration.ofMillis)
      BatchConfig.withIdleBackoff
      (given (reading lookup? "CONDUCTOR_MAX_BATCH_SIZE" count?) BatchConfig.withMaxBatchSize {})
  requestStreamId :=
    (reading lookup? "CONDUCTOR_REQUEST_STREAM_ID" (Decimal.signed? signedBound32)).getD 1

/-- The stored form of the settings. -/
def toJson (config : BrokerConfig) : Json :=
  .obj [("partition", config.partition.toJson), ("operations", config.operations.toJson),
    ("scheduler", config.scheduler.toJson), ("request_stream_id", .int config.requestStreamId)]

/-- Reads settings from their stored form. -/
def ofJson? (json : Json) : Option BrokerConfig := do
  let members ← json.fields? ["partition", "operations", "scheduler", "request_stream_id"] []
  let partition ← members.required? "partition" PartitionConfig.ofJson?
  let operations ← members.required? "operations" OperationsConfig.ofJson?
  let scheduler ← members.required? "scheduler" BatchConfig.ofJson?
  let requestStreamId ← members.required? "request_stream_id" (Json.int? signedBound32)
  some { partition, operations, scheduler, requestStreamId }

end BrokerConfig

end Workflow
