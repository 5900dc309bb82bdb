/-
Jobs, their states, and why a transition of one is refused.

A job is created, becomes activatable, and is leased to a worker when it is activated.  The lease
ends with the completion of the job, with its failure, or with the lease being reclaimed after its
deadline.  A failure uses up a retry; a job without retries has failed until it is given new ones.
A completed or canceled job is at its end.
-/
import Workflow.Record.Basic

namespace Workflow

/-- The state of a job. -/
inductive JobState where
  | created
  | activatable
  | activated
  | completed
  | failed
  | canceled
deriving DecidableEq, Inhabited

namespace JobState

/-- The name of the state. -/
def name : JobState → String
  | .created => "CREATED"
  | .activatable => "ACTIVATABLE"
  | .activated => "ACTIVATED"
  | .completed => "COMPLETED"
  | .failed => "FAILED"
  | .canceled => "CANCELED"

/-- The states of jobs. -/
def all : List JobState := [.created, .activatable, .activated, .completed, .failed, .canceled]

/-- Whether nothing follows the state. -/
def isTerminal : JobState → Bool
  | .completed => true
  | .canceled => true
  | _ => false

end JobState

/-- A job. -/
structure Job where
  /-- The key of the job. -/
  key : Nat
  /-- The type by which workers ask for it. -/
  jobType : String
  /-- How many more failures it survives. -/
  retries : Nat
  /-- Where it is in its life. -/
  state : JobState
  /-- The worker that holds the lease. -/
  worker : Option String
  /-- The end of the lease. -/
  deadline : Option Instant
  /-- When it may be activated again after a failure. -/
  eligibleAt : Option Instant
  /-- What the worker reported with the last failure. -/
  errorMessage : Option String
  /-- The instance of the process. -/
  instanceKey : Option Nat
  /-- The element it belongs to. -/
  elementId : Option String
  /-- Its variables. -/
  vars : Json
deriving DecidableEq, Inhabited

namespace Job

/-- The job that a payload describes. -/
def ofPayload (key : Nat) (value : JobPayload) : Job :=
  { key, jobType := value.jobType, retries := value.retries, state := .created, worker := none,
    deadline := none, eligibleAt := none, errorMessage := none, instanceKey := value.instanceKey,
    elementId := value.elementId, vars := value.vars }

/-- The job as a payload. -/
def toPayload (job : Job) : JobPayload :=
  { jobType := job.jobType, retries := job.retries, worker := job.worker, deadline := job.deadline,
    errorMessage := job.errorMessage, instanceKey := job.instanceKey, elementId := job.elementId,
    vars := job.vars }

/-- Whether a pause after a failure is over. -/
def isEligible (job : Job) (now : Instant) : Bool :=
  match job.eligibleAt with
  | none => true
  | some instant => decide (instant ≤ now)

/-- Whether a worker that asks for a type may have the job. -/
def isOffered (job : Job) (jobType : String) (now : Instant) : Bool :=
  job.state == .activatable && job.jobType == jobType && job.isEligible now

end Job

/-- What is done to a job, in the words of a refusal. -/
inductive JobOperation where
  | complete
  | fail
  | timeOut
  | updateRetries
  | cancel
deriving DecidableEq, Inhabited

/-- The operation in words. -/
def JobOperation.phrase : JobOperation → String
  | .complete => "complete"
  | .fail => "fail"
  | .timeOut => "time out"
  | .updateRetries => "update retries for"
  | .cancel => "cancel"

/-- Why a lease is not the expired one that was observed. -/
inductive StaleLease where
  /-- The job is not leased. -/
  | notActivated (state : JobState)
  /-- The job is leased until another deadline. -/
  | activatedAgain
  /-- The deadline has not passed. -/
  | notExpired
deriving DecidableEq, Inhabited

/-- The wording of the reason. -/
def StaleLease.message : StaleLease → String
  | .notActivated state => s!"it is in state '{state.name}'"
  | .activatedAgain => "it was activated again since"
  | .notExpired => "the lease has not expired yet"

/-- Why a transition of a job is refused. -/
inductive JobError where
  /-- There is no such job. -/
  | notFound (key : Nat) (operation : JobOperation)
  /-- The job is in a state that does not allow it. -/
  | invalidState (key : Nat) (state : JobState) (operation : JobOperation)
  /-- The lease is not the expired one that was observed. -/
  | staleTimeout (key : Nat) (observed : Instant) (reason : StaleLease)
deriving DecidableEq, Inhabited

namespace JobError

/-- The name of the refusal. -/
def name : JobError → String
  | .notFound _ _ => "NotFound"
  | .invalidState _ _ _ => "InvalidState"
  | .staleTimeout _ _ _ => "StaleTimeout"

/-- The wording of the refusal. -/
def message : JobError → String
  | .notFound key operation =>
      s!"Expected to {operation.phrase} job with key '{key}', but no such job was found"
  | .invalidState key state operation =>
      s!"Expected to {operation.phrase} job with key '{key}', but it is in state '{state.name}'"
  | .staleTimeout key observed reason =>
      s!"Expected to time out job with key '{key}' whose lease expired at " ++
        s!"{Rfc3339.displayText observed}, but {reason.message}"

/-- The type of the rejection that reports the refusal. -/
def rejectionType : JobError → RejectionType
  | .notFound _ _ => .notFound
  | .invalidState _ _ _ => .invalidState
  | .staleTimeout _ _ _ => .invalidState

end JobError

end Workflow
