/-
Why the built-in handlers refuse commands.

A refusal has a type, for programs, and a reason in words, for people.  What is wrong with a command
is found either by looking at it, or by looking for what it names, or by an operation that is not
allowed; the reasons below are in the order of the commands.
-/
import Workflow.Job.Ledger
import Workflow.Timer.Agenda
import Workflow.Timer.Definition

namespace Workflow

/-- Why a command is refused. -/
structure Refusal where
  /-- The type of the rejection. -/
  type : RejectionType
  /-- The reason in words. -/
  reason : String
deriving DecidableEq, Inhabited

namespace Refusal

/-! ### Deployments and instances -/

/-- A process is deployed without an id. -/
def blankProcessId : Refusal where
  type := .invalidArgument
  reason := "Expected to deploy a process with a non-empty process id, but it was empty"

/-- Two start events have the same id. -/
def repeatedElement (elementId : String) : Refusal where
  type := .invalidArgument
  reason := s!"Expected timer start event ids to be unique, but '{elementId}' " ++
    "appears more than once"

/-- The timer of a start event cannot be resolved. -/
def unresolvedStart (elementId : String) (cause : TimerDefinitionError) : Refusal where
  type := .invalidArgument
  reason := s!"Expected a valid timer definition for start event '{elementId}', " ++
    s!"but {cause.message}"

/-- No such process is deployed. -/
def unknownProcess (processId : String) : Refusal where
  type := .notFound
  reason := s!"Expected to find process definition with process ID '{processId}', " ++
    "but none found"

/-! ### Timers -/

/-- A timer is created without a definition. -/
def noDefinition : Refusal where
  type := .invalidArgument
  reason := "Expected to create a timer with a definition, but none was given"

/-- A timer is created for no element of an instance. -/
def noElementInstance : Refusal where
  type := .invalidArgument
  reason := "Expected to create a timer for an element instance, " ++
    "but no element instance was given"

/-- A timer is created for an instance that is not there. -/
def unknownInstance (instanceKey : Nat) : Refusal where
  type := .notFound
  reason := s!"Expected to create a timer for process instance with key '{instanceKey}', " ++
    "but no such process instance was found"

/-- A timer is triggered or canceled, and no key says which one. -/
def noTimerKey (operation : String) : Refusal where
  type := .invalidArgument
  reason := s!"Expected to {operation} a timer, but no timer key was given"

/-- A timer is triggered that is not pending. -/
def unknownTimer (key : Nat) : Refusal where
  type := .notFound
  reason := s!"Expected to trigger timer with key '{key}', but no such timer was found"

/-- A timer is triggered before it is due. -/
def notDue (key : Nat) (timer : Timer) : Refusal where
  type := .invalidState
  reason := s!"Expected to trigger timer with key '{key}', but it is not due until " ++
    Rfc3339.offsetText timer.dueDate

/-! ### Jobs -/

/-- A job is created without a type. -/
def blankJobType : Refusal where
  type := .invalidArgument
  reason := "Expected to create job with a non-empty type, but it was empty"

/-- A job is created without retries. -/
def noRetries : Refusal where
  type := .invalidArgument
  reason := "Expected to create job with a positive amount of retries, but got 0"

/-- Jobs are activated without a type. -/
def blankBatchType : Refusal where
  type := .invalidArgument
  reason := "Expected to activate jobs with a non-empty type, but it was empty"

/-- Jobs are activated for no time. -/
def zeroTimeout : Refusal where
  type := .invalidArgument
  reason := "Expected to activate jobs with a timeout greater than zero, but it was zero"

/-- No job is to be activated. -/
def zeroJobs : Refusal where
  type := .invalidArgument
  reason := "Expected to activate at least one job, but max jobs to activate was 0"

/-- No key says which job the command is about. -/
def noJobKey (operation : JobOperation) : Refusal where
  type := .invalidArgument
  reason := s!"Expected to {operation.phrase} a job, but no job key was given"

/-- A lease is reclaimed, and no deadline says which one. -/
def noDeadline (key : Nat) : Refusal where
  type := .invalidArgument
  reason := s!"Expected to time out job with key '{key}', but no observed deadline was given"

/-- A job is to have no retries. -/
def zeroRetries (key : Nat) : Refusal where
  type := .invalidArgument
  reason := s!"Expected to update retries for job with key '{key}' " ++
    "with a positive amount of retries, but got 0"

/-- The ledger does not allow the operation. -/
def transition (cause : JobError) : Refusal where
  type := cause.rejectionType
  reason := cause.message

end Refusal

end Workflow
