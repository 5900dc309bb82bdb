/-
Payloads of records.

Each value type has one payload.  A payload serves both the command that asks for something and
the event that reports it, so the fields that the engine assigns are absent or zero on commands.

Throughout the library a key is a natural number that names an entity; it is unique within a
partition and never used twice.  A position is the number of a record in its log, from 1 and
without gaps.
-/
import Workflow.Record.Intent
import Workflow.Timer.Definition

namespace Workflow

/-- A start event of a process that fires on a timer. -/
structure TimerStart where
  /-- The element of the process. -/
  elementId : String
  /-- When it fires. -/
  timer : TimerDefinition
deriving DecidableEq, Inhabited

/-- A process that is deployed, or was. -/
structure DeploymentPayload where
  /-- The process id. -/
  processId : String
  /-- The version, assigned by the engine. -/
  version : Nat := 0
  /-- The key of the definition, assigned by the engine. -/
  definitionKey : Option Nat := none
  /-- The start events that fire on a timer. -/
  timerStarts : List TimerStart := []
deriving DecidableEq, Inhabited

/-- An instance of a process. -/
structure ProcessInstancePayload where
  /-- The process id. -/
  processId : String
  /-- The version of the process. -/
  version : Nat := 0
  /-- The definition that the instance runs. -/
  definitionKey : Option Nat := none
  /-- The instance itself. -/
  instanceKey : Option Nat := none
  /-- The start element that created the instance. -/
  elementId : Option String := none
  /-- The variables of the instance. -/
  vars : Json := .null
deriving DecidableEq, Inhabited

/-- A timer. -/
structure TimerPayload where
  /-- How to compute the due date; only on commands that create a timer. -/
  definition : Option TimerDefinition := none
  /-- The due date; on events and on commands that trigger a timer. -/
  dueDate : Option Instant := none
  /-- How many more times the timer fires. -/
  repetition : Repetition := .once
  /-- The time between two firings. -/
  period : Option Duration := none
  /-- The element that the timer acts on. -/
  targetElementId : String
  /-- The definition of the process. -/
  definitionKey : Option Nat := none
  /-- The instance of the process. -/
  instanceKey : Option Nat := none
  /-- The instance of the element; absent for timers of start events. -/
  elementInstanceKey : Option Nat := none
  /-- The variables that expressions are evaluated over. -/
  vars : Json := .null
deriving DecidableEq, Inhabited

/-- A job. -/
structure JobPayload where
  /-- The type by which workers ask for the job. -/
  jobType : String
  /-- How many more failures the job survives. -/
  retries : Nat := 0
  /-- The worker that holds the lease. -/
  worker : Option String := none
  /-- The end of the lease; on commands that time a job out, the end that was seen to pass. -/
  deadline : Option Instant := none
  /-- The pause before a failed job can be activated again. -/
  retryBackoff : Option Duration := none
  /-- What the worker reported. -/
  errorMessage : Option String := none
  /-- The instance of the process. -/
  instanceKey : Option Nat := none
  /-- The element that the job belongs to. -/
  elementId : Option String := none
  /-- The variables of the job. -/
  vars : Json := .null
deriving DecidableEq, Inhabited

/-- A request to activate jobs of one type, and what became of it. -/
structure JobBatchPayload where
  /-- The type of the jobs. -/
  jobType : String
  /-- The worker that asks. -/
  worker : String
  /-- How long the leases last. -/
  timeout : Duration
  /-- The largest number of jobs. -/
  maxJobs : Nat
  /-- The keys of the jobs that were activated. -/
  jobKeys : List Nat := []
  /-- The jobs that were activated. -/
  jobs : List JobPayload := []
deriving DecidableEq, Inhabited

/-- What an incident is about. -/
inductive IncidentCause where
  /-- A job has no retries left. -/
  | jobNoRetries
  /-- A timer definition could not be resolved. -/
  | expressionEvaluation
deriving DecidableEq, Inhabited

/-- The name of the cause. -/
def IncidentCause.name : IncidentCause → String
  | .jobNoRetries => "JOB_NO_RETRIES"
  | .expressionEvaluation => "EXPRESSION_EVALUATION"

/-- The causes of incidents. -/
def IncidentCause.all : List IncidentCause := [.jobNoRetries, .expressionEvaluation]

/-- Whether an incident is open; a resolved incident is deleted. -/
inductive IncidentState where
  | active
  | deleted
deriving DecidableEq, Inhabited

/-- The name of the state. -/
def IncidentState.name : IncidentState → String
  | .active => "ACTIVE"
  | .deleted => "DELETED"

/-- The states of incidents. -/
def IncidentState.all : List IncidentState := [.active, .deleted]

/-- An incident. -/
structure IncidentPayload where
  /-- What the incident is about. -/
  cause : IncidentCause
  /-- What happened. -/
  errorMessage : String
  /-- Whether it is open. -/
  state : IncidentState := .active
  /-- The job it concerns. -/
  jobKey : Option Nat := none
  /-- The instance of the process. -/
  instanceKey : Option Nat := none
  /-- The instance of the element. -/
  elementInstanceKey : Option Nat := none
  /-- The element. -/
  elementId : Option String := none
deriving DecidableEq, Inhabited

/-- The payload of a record. -/
inductive Payload where
  | deployment (value : DeploymentPayload)
  | processInstance (value : ProcessInstancePayload)
  | timer (value : TimerPayload)
  | job (value : JobPayload)
  | jobBatch (value : JobBatchPayload)
  | incident (value : IncidentPayload)
deriving DecidableEq, Inhabited

namespace Payload

/-- The value type of the payload. -/
def valueType : Payload → ValueType
  | .deployment _ => .deployment
  | .processInstance _ => .processInstance
  | .timer _ => .timer
  | .job _ => .job
  | .jobBatch _ => .jobBatch
  | .incident _ => .incident

/-- The deployment that the payload is, if it is one. -/
def deployment? : Payload → Option DeploymentPayload
  | .deployment value => some value
  | _ => none

/-- The process instance that the payload is, if it is one. -/
def processInstance? : Payload → Option ProcessInstancePayload
  | .processInstance value => some value
  | _ => none

/-- The timer that the payload is, if it is one. -/
def timer? : Payload → Option TimerPayload
  | .timer value => some value
  | _ => none

/-- The job that the payload is, if it is one. -/
def job? : Payload → Option JobPayload
  | .job value => some value
  | _ => none

/-- The job batch that the payload is, if it is one. -/
def jobBatch? : Payload → Option JobBatchPayload
  | .jobBatch value => some value
  | _ => none

/-- The incident that the payload is, if it is one. -/
def incident? : Payload → Option IncidentPayload
  | .incident value => some value
  | _ => none

/-- The payload with its variables changed, those of its jobs too. -/
def mapVars (f : Json → Json) : Payload → Payload
  | .processInstance value => .processInstance { value with vars := f value.vars }
  | .timer value => .timer { value with vars := f value.vars }
  | .job value => .job { value with vars := f value.vars }
  | .jobBatch value =>
      .jobBatch { value with jobs := value.jobs.map fun job => { job with vars := f job.vars } }
  | payload => payload

end Payload

end Workflow
