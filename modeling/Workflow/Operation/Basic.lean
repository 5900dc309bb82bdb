/-
Operations: actions that an operator asked for on process instances.

An operation is scheduled, and is sent when its commands are in the log of the partition.  It ends
completed or failed, and nothing follows then.  All operations of one request share a batch.
-/
import Workflow.Text.Uuid
import Workflow.Time.Instant

namespace Workflow

/-- What is done to an instance. -/
inductive OperationType where
  /-- Every job of the instance that has an open incident gets new retries. -/
  | updateRetries
deriving DecidableEq, Inhabited

/-- The name of the type. -/
def OperationType.name : OperationType → String
  | .updateRetries => "UPDATE_RETRIES"

/-- The types of operations. -/
def OperationType.all : List OperationType := [.updateRetries]

/-- How far an operation is. -/
inductive OperationState where
  /-- Nothing was done yet. -/
  | scheduled
  /-- Its commands were sent. -/
  | sent
  /-- Every command was accepted. -/
  | completed
  /-- It was not carried out. -/
  | failed
deriving DecidableEq, Inhabited

namespace OperationState

/-- The name of the state. -/
def name : OperationState → String
  | .scheduled => "SCHEDULED"
  | .sent => "SENT"
  | .completed => "COMPLETED"
  | .failed => "FAILED"

/-- The states of operations. -/
def all : List OperationState := [.scheduled, .sent, .completed, .failed]

/-- Whether nothing follows the state. -/
def isTerminal : OperationState → Bool
  | .completed => true
  | .failed => true
  | _ => false

/-- Whether one state may follow another. -/
def canBecome : OperationState → OperationState → Bool
  | .scheduled, .sent => true
  | .scheduled, .failed => true
  | .sent, .completed => true
  | .sent, .failed => true
  | _, _ => false

end OperationState

/-- An operation on one process instance. -/
structure Operation where
  /-- The operation. -/
  id : Uuid
  /-- What is done. -/
  type : OperationType
  /-- How far it is. -/
  state : OperationState
  /-- The process instance. -/
  targetKey : Nat
  /-- The batch it belongs to. -/
  batchId : Uuid
  /-- The jobs that commands were sent for. -/
  jobKeys : List Nat := []
  /-- Why it failed. -/
  errorMessage : Option String := none
  /-- When it was scheduled. -/
  startDate : Instant
  /-- When it ended. -/
  endDate : Option Instant := none
deriving DecidableEq, Inhabited

namespace Operation

/-- The operation after its commands were sent. -/
def sent (operation : Operation) (jobKeys : List Nat) : Operation :=
  { operation with state := .sent, jobKeys }

/-- The operation after its commands were accepted. -/
def completed (operation : Operation) (now : Instant) : Operation :=
  { operation with state := .completed, endDate := some now }

/-- The operation after it failed. -/
def failed (operation : Operation) (message : String) (now : Instant) : Operation :=
  { operation with state := .failed, errorMessage := some message, endDate := some now }

end Operation

/-- The settings of operations. -/
structure OperationsConfig where
  /-- How many instances one request may select. -/
  batchOperationMaxSize : Nat := 1000
  /-- The retries that a job is given. -/
  updateRetriesValue : Nat := 1
deriving DecidableEq, Inhabited

namespace OperationsConfig

/-- The settings with another limit. -/
def withBatchOperationMaxSize (config : OperationsConfig) (limit : Nat) : OperationsConfig :=
  { config with batchOperationMaxSize := limit }

/-- The settings with other retries; with less than one the incident of a job would stay open. -/
def withUpdateRetriesValue (config : OperationsConfig) (retries : Nat) : OperationsConfig :=
  { config with updateRetriesValue := max retries 1 }

end OperationsConfig

end Workflow
