/-
Value types and intents.

An intent is what a record asks for or reports.  Every value type has intents of its own, and some
of their names are shared, so an intent is a value type together with one of its intents.  The
intents of commands and of events form one set, as they share one log.

Each type has a `name`, which is how it is shown and stored, and a list `all` of its members.
-/

namespace Workflow

/-- The kind of payload that a record carries. -/
inductive ValueType where
  | deployment
  | processInstance
  | timer
  | job
  | jobBatch
  | incident
deriving DecidableEq, Inhabited

/-- The name of a value type. -/
def ValueType.name : ValueType → String
  | .deployment => "DEPLOYMENT"
  | .processInstance => "PROCESS_INSTANCE"
  | .timer => "TIMER"
  | .job => "JOB"
  | .jobBatch => "JOB_BATCH"
  | .incident => "INCIDENT"

/-- The value types. -/
def ValueType.all : List ValueType :=
  [.deployment, .processInstance, .timer, .job, .jobBatch, .incident]

/-- What is asked for or reported of a deployment. -/
inductive DeploymentIntent where
  | create
  | created
deriving DecidableEq, Inhabited

/-- The name of an intent. -/
def DeploymentIntent.name : DeploymentIntent → String
  | .create => "CREATE"
  | .created => "CREATED"

/-- The intents of deployments. -/
def DeploymentIntent.all : List DeploymentIntent := [.create, .created]

/-- What is asked for or reported of a process instance. -/
inductive ProcessInstanceIntent where
  | create
  | created
deriving DecidableEq, Inhabited

/-- The name of an intent. -/
def ProcessInstanceIntent.name : ProcessInstanceIntent → String
  | .create => "CREATE"
  | .created => "CREATED"

/-- The intents of process instances. -/
def ProcessInstanceIntent.all : List ProcessInstanceIntent := [.create, .created]

/-- What is asked for or reported of a timer. -/
inductive TimerIntent where
  | create
  | trigger
  | cancel
  | created
  | triggered
  | canceled
deriving DecidableEq, Inhabited

/-- The name of an intent. -/
def TimerIntent.name : TimerIntent → String
  | .create => "CREATE"
  | .trigger => "TRIGGER"
  | .cancel => "CANCEL"
  | .created => "CREATED"
  | .triggered => "TRIGGERED"
  | .canceled => "CANCELED"

/-- The intents of timers. -/
def TimerIntent.all : List TimerIntent :=
  [.create, .trigger, .cancel, .created, .triggered, .canceled]

/-- What is asked for or reported of a job. -/
inductive JobIntent where
  | create
  | complete
  | fail
  | timeOut
  | updateRetries
  | cancel
  | created
  | activatable
  | completed
  | failed
  | timedOut
  | retriesUpdated
  | canceled
deriving DecidableEq, Inhabited

/-- The name of an intent. -/
def JobIntent.name : JobIntent → String
  | .create => "CREATE"
  | .complete => "COMPLETE"
  | .fail => "FAIL"
  | .timeOut => "TIME_OUT"
  | .updateRetries => "UPDATE_RETRIES"
  | .cancel => "CANCEL"
  | .created => "CREATED"
  | .activatable => "ACTIVATABLE"
  | .completed => "COMPLETED"
  | .failed => "FAILED"
  | .timedOut => "TIMED_OUT"
  | .retriesUpdated => "RETRIES_UPDATED"
  | .canceled => "CANCELED"

/-- The intents of jobs. -/
def JobIntent.all : List JobIntent :=
  [.create, .complete, .fail, .timeOut, .updateRetries, .cancel, .created, .activatable, .completed,
    .failed, .timedOut, .retriesUpdated, .canceled]

/-- What is asked for or reported of a batch of jobs. -/
inductive JobBatchIntent where
  | activate
  | activated
deriving DecidableEq, Inhabited

/-- The name of an intent. -/
def JobBatchIntent.name : JobBatchIntent → String
  | .activate => "ACTIVATE"
  | .activated => "ACTIVATED"

/-- The intents of job batches. -/
def JobBatchIntent.all : List JobBatchIntent := [.activate, .activated]

/-- What is reported of an incident. -/
inductive IncidentIntent where
  | created
  | resolved
deriving DecidableEq, Inhabited

/-- The name of an intent. -/
def IncidentIntent.name : IncidentIntent → String
  | .created => "CREATED"
  | .resolved => "RESOLVED"

/-- The intents of incidents. -/
def IncidentIntent.all : List IncidentIntent := [.created, .resolved]

/-- An intent together with the value type it belongs to. -/
inductive Intent where
  | deployment (intent : DeploymentIntent)
  | processInstance (intent : ProcessInstanceIntent)
  | timer (intent : TimerIntent)
  | job (intent : JobIntent)
  | jobBatch (intent : JobBatchIntent)
  | incident (intent : IncidentIntent)
deriving DecidableEq, Inhabited

namespace Intent

/-- The value type that the intent belongs to. -/
def valueType : Intent → ValueType
  | .deployment _ => .deployment
  | .processInstance _ => .processInstance
  | .timer _ => .timer
  | .job _ => .job
  | .jobBatch _ => .jobBatch
  | .incident _ => .incident

/-- The name of the intent within its value type. -/
def name : Intent → String
  | .deployment i => i.name
  | .processInstance i => i.name
  | .timer i => i.name
  | .job i => i.name
  | .jobBatch i => i.name
  | .incident i => i.name

/-- The intents of a value type. -/
def allOf : ValueType → List Intent
  | .deployment => DeploymentIntent.all.map .deployment
  | .processInstance => ProcessInstanceIntent.all.map .processInstance
  | .timer => TimerIntent.all.map .timer
  | .job => JobIntent.all.map .job
  | .jobBatch => JobBatchIntent.all.map .jobBatch
  | .incident => IncidentIntent.all.map .incident

/-- The intent of a value type that has a name. -/
def ofName? (type : ValueType) (name : String) : Option Intent :=
  (allOf type).find? fun intent => intent.name == name

end Intent

end Workflow
