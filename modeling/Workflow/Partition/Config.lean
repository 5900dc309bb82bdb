/-
The settings of a partition.
-/
import Workflow.Json.Form
import Workflow.Engine.State

namespace Workflow

/-- The settings of a partition. -/
structure PartitionConfig where
  /-- The partition id, which every key of the partition holds. -/
  partitionId : Nat := 1
  /-- How many commands one round applies at most. -/
  maxCommandsPerRound : Nat := 100
deriving DecidableEq, Inhabited

namespace PartitionConfig

/-- The settings with another partition id. -/
def withPartitionId (config : PartitionConfig) (partitionId : Nat) : PartitionConfig :=
  { config with partitionId }

/-- The settings with another limit; a round applies at least one command. -/
def withMaxCommandsPerRound (config : PartitionConfig) (count : Nat) : PartitionConfig :=
  { config with maxCommandsPerRound := max count 1 }

/-- The settings with one of them changed, by its name. -/
def change? (config : PartitionConfig) (name : String) (value : Json) : Option PartitionConfig :=
  match name with
  | "partition_id" => (value.nat? maxWord16).map config.withPartitionId
  | "max_commands_per_round" => value.word64?.map config.withMaxCommandsPerRound
  | _ => none

/-- The stored form of the settings. -/
def toJson (config : PartitionConfig) : Json :=
  .obj [("partition_id", .nat config.partitionId),
    ("max_commands_per_round", .nat config.maxCommandsPerRound)]

/-- Reads settings from their stored form. -/
def ofJson? (json : Json) : Option PartitionConfig := do
  let members ← json.fields? ["partition_id", "max_commands_per_round"] []
  let partitionId ← members.required? "partition_id" (Json.nat? maxWord16)
  let maxCommandsPerRound ← members.required? "max_commands_per_round" Json.word64?
  some { partitionId, maxCommandsPerRound }

end PartitionConfig

end Workflow
