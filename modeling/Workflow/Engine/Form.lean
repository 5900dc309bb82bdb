/-
The written form of the entities of a partition, with every field present.
-/
import Workflow.Engine.Processing
import Workflow.Record.Form

namespace Workflow

/-- A job. -/
def Job.toJson (job : Job) : Json :=
  .obj [("key", .nat job.key), ("job_type", .str job.jobType), ("retries", .nat job.retries),
    ("state", .str job.state.name), ("worker", .nullable Json.str job.worker),
    ("deadline", .nullable Json.instant job.deadline),
    ("eligible_at", .nullable Json.instant job.eligibleAt),
    ("error_message", .nullable Json.str job.errorMessage),
    ("process_instance_key", .nullable Json.nat job.instanceKey),
    ("element_id", .nullable Json.str job.elementId), ("variables", job.vars)]

/-- A state of a job, by its name. -/
def JobState.ofJson? : Json → Option JobState := Json.named? .inPlace JobState.all JobState.name

/-- An incident. -/
def Incident.toJson (incident : Incident) : Json :=
  .obj [("key", .nat incident.key), ("record", incident.value.toJson)]

/-- A process instance. -/
def ProcessInstance.toJson (i : ProcessInstance) : Json :=
  .obj [("key", .nat i.key), ("bpmn_process_id", .str i.processId),
    ("process_definition_key", .nat i.definitionKey), ("version", .nat i.version),
    ("element_id", .nullable Json.str i.elementId)]

/-- A deployed version of a process. -/
def ProcessDefinition.toJson (definition : ProcessDefinition) : Json :=
  .obj [("key", .nat definition.key), ("bpmn_process_id", .str definition.processId),
    ("version", .nat definition.version),
    ("timer_start_events", .list TimerStart.toJson definition.timerStarts)]

/-- The latest version of a process, and the keys of all its versions. -/
def ProcessCatalog.versionsJson (catalog : ProcessCatalog) (processId : String) : Json :=
  .obj [("latest", .nullable ProcessDefinition.toJson (catalog.latest? processId)),
    ("versions", .list Json.nat (catalog.versionsOf processId))]

namespace Timer

/-- A pending timer. -/
def toJson (timer : Timer) : Json :=
  .obj [("key", .nat timer.key), ("due_date", .instant timer.dueDate),
    ("repetition", timer.repetition.toJson), ("period", .nullable Json.millis timer.period),
    ("target_element_id", .str timer.targetElementId),
    ("process_definition_key", .nullable Json.nat timer.definitionKey),
    ("process_instance_key", .nullable Json.nat timer.instanceKey),
    ("element_instance_key", .nullable Json.nat timer.elementInstanceKey),
    ("creation_position", .nat timer.creationPosition)]

/-- A pending timer; it fires once and acts on the start element unless it says otherwise. -/
def ofJson? (json : Json) : Option Timer := do
  let members ← json.members?
  let key ← members.required? "key" Json.word64?
  let dueDate ← members.required? "due_date" Json.givenInstant?
  let creationPosition ← members.required? "creation_position" Json.word64?
  let repetition ← members.optional? "repetition" (Repetition.ofJson? .inPlace)
  let period ← members.optional? "period" Json.millis?
  let targetElementId ← members.optional? "target_element_id" Json.str?
  let definitionKey ← members.optional? "process_definition_key" Json.word64?
  let instanceKey ← members.optional? "process_instance_key" Json.word64?
  let elementInstanceKey ← members.optional? "element_instance_key" Json.word64?
  some { key, dueDate, creationPosition, repetition := repetition.getD .once, period,
         targetElementId := targetElementId.getD "start", definitionKey, instanceKey,
         elementInstanceKey }

end Timer

/-- A response. -/
def Response.toJson (response : Response) : Json :=
  .obj [("record_type", .str response.kind.name), ("key", .nullable Json.nat response.key),
    ("intent", response.intent.toJson), ("value_type", .str response.valueType.name),
    ("value", response.value.toJson),
    ("rejection_type", .nullable (fun type => .str type.name) response.rejectionType),
    ("rejection_reason", .str response.rejectionReason),
    ("request_id", .nat response.correlation.requestId),
    ("request_stream_id", .int response.correlation.streamId),
    ("is_rejection", .bool response.isRejection)]

/-- What a command left behind. -/
def Outcome.toJson (outcome : Outcome) : Json :=
  .obj [("follow_ups", .list Draft.toJson outcome.followUps),
    ("response", .nullable Response.toJson outcome.response),
    ("overwrites", .nat outcome.overwrites)]

/-- All entities of a partition. -/
def EngineState.toJson (state : EngineState) : Json :=
  .obj [("partition_id", .nat state.partitionId),
    ("instances", .list ProcessInstance.toJson state.processes.allInstances),
    ("timers", .list Timer.toJson state.timers.inOrder),
    ("jobs", .list Job.toJson state.jobs.all),
    ("incidents", .list Incident.toJson state.incidents.all)]

end Workflow
