/-
The stored form of records and their payloads.

An intent and a payload are stored with the value type beside them.  Absent fields of payloads are
left out; the absent fields of a record itself are written as null.
-/
import Workflow.Record.Basic
import Workflow.Timer.Form

namespace Workflow

/-- A value type, by its name. -/
def ValueType.ofJson? : Json → Option ValueType :=
  Json.named? .inPlace ValueType.all ValueType.name

/-- A kind of record, by its name. -/
def RecordKind.ofJson? : Json → Option RecordKind :=
  Json.named? .inPlace RecordKind.all RecordKind.name

/-- A type of rejection, by its name. -/
def RejectionType.ofJson? : Json → Option RejectionType :=
  Json.named? .inPlace RejectionType.all RejectionType.name

/-- A cause of incidents, by its name. -/
def IncidentCause.ofJson? (reading : Json.Reading) : Json → Option IncidentCause :=
  Json.named? reading IncidentCause.all IncidentCause.name

/-- A state of incidents, by its name. -/
def IncidentState.ofJson? (reading : Json.Reading) : Json → Option IncidentState :=
  Json.named? reading IncidentState.all IncidentState.name

/-- An intent, beside its value type. -/
def Intent.toJson (intent : Intent) : Json :=
  .obj [("value_type", .str intent.valueType.name), ("intent", .str intent.name)]

/-- An intent, beside its value type. -/
def Intent.ofJson? (json : Json) : Option Intent := do
  let given ← json.kinded? .inPlace "value_type" "intent" ValueType.all ValueType.name
  given.content?.bind (Json.named? given.reading (Intent.allOf given.kind) Intent.name)

namespace TimerStart

/-- A start event. -/
def toJson (start : TimerStart) : Json :=
  .obj [("element_id", .str start.elementId), ("timer", start.timer.toJson)]

/-- A start event. -/
def ofJson? (reading : Json.Reading) (json : Json) : Option TimerStart := do
  let members ← json.fields? ["element_id", "timer"] []
  let elementId ← members.required? "element_id" Json.str?
  let timer ← members.required? "timer" (TimerDefinition.ofJson? reading)
  some ⟨elementId, timer⟩

end TimerStart

namespace DeploymentPayload

/-- A deployment. -/
def toJson (value : DeploymentPayload) : Json :=
  .obj ([("bpmn_process_id", .str value.processId), ("version", .nat value.version)] ++
    Members.optional "process_definition_key" Json.nat value.definitionKey ++
    [("timer_start_events", .list TimerStart.toJson value.timerStarts)])

/-- A deployment. -/
def ofJson? (reading : Json.Reading) (json : Json) : Option DeploymentPayload := do
  let members ← json.fields? ["bpmn_process_id"]
    ["version", "process_definition_key", "timer_start_events"]
  let processId ← members.required? "bpmn_process_id" Json.str?
  let version ← members.orElse? "version" 0 (Json.nat? maxWord32)
  let definitionKey ← members.optional? "process_definition_key" Json.word64?
  let timerStarts ←
    members.orElse? "timer_start_events" [] (Json.list? (TimerStart.ofJson? reading))
  some { processId, version, definitionKey, timerStarts }

end DeploymentPayload

namespace ProcessInstancePayload

/-- A process instance. -/
def toJson (value : ProcessInstancePayload) : Json :=
  .obj ([("bpmn_process_id", .str value.processId), ("version", .nat value.version)] ++
    Members.optional "process_definition_key" Json.nat value.definitionKey ++
    Members.optional "process_instance_key" Json.nat value.instanceKey ++
    Members.optional "element_id" Json.str value.elementId ++
    [("variables", value.vars)])

/-- A process instance. -/
def ofJson? (json : Json) : Option ProcessInstancePayload := do
  let members ← json.fields? ["bpmn_process_id"]
    ["version", "process_definition_key", "process_instance_key", "element_id", "variables"]
  let processId ← members.required? "bpmn_process_id" Json.str?
  let version ← members.orElse? "version" 0 (Json.nat? maxWord32)
  let definitionKey ← members.optional? "process_definition_key" Json.word64?
  let instanceKey ← members.optional? "process_instance_key" Json.word64?
  let elementId ← members.optional? "element_id" Json.str?
  let vars ← members.orElse? "variables" .null some
  some { processId, version, definitionKey, instanceKey, elementId, vars }

end ProcessInstancePayload

namespace TimerPayload

/-- A timer. -/
def toJson (value : TimerPayload) : Json :=
  .obj (Members.optional "definition" TimerDefinition.toJson value.definition ++
    Members.optional "due_date" Json.instant value.dueDate ++
    [("repetition", value.repetition.toJson)] ++
    Members.optional "period" Json.millis value.period ++
    [("target_element_id", .str value.targetElementId)] ++
    Members.optional "process_definition_key" Json.nat value.definitionKey ++
    Members.optional "process_instance_key" Json.nat value.instanceKey ++
    Members.optional "element_instance_key" Json.nat value.elementInstanceKey ++
    [("variables", value.vars)])

/-- A timer. -/
def ofJson? (reading : Json.Reading) (json : Json) : Option TimerPayload := do
  let members ← json.fields?
    ["definition", "due_date", "repetition", "period", "target_element_id"]
    ["process_definition_key", "process_instance_key", "element_instance_key", "variables"]
  let definition ← members.optional? "definition" (TimerDefinition.ofJson? reading)
  let dueDate ← members.optional? "due_date" Json.instant?
  let repetition ← members.orElse? "repetition" .once (Repetition.ofJson? reading)
  let period ← members.optional? "period" Json.millis?
  let targetElementId ← members.required? "target_element_id" Json.str?
  let definitionKey ← members.optional? "process_definition_key" Json.word64?
  let instanceKey ← members.optional? "process_instance_key" Json.word64?
  let elementInstanceKey ← members.optional? "element_instance_key" Json.word64?
  let vars ← members.orElse? "variables" .null some
  some { definition, dueDate, repetition, period, targetElementId, definitionKey, instanceKey,
         elementInstanceKey, vars }

end TimerPayload

namespace JobPayload

/-- A job. -/
def toJson (value : JobPayload) : Json :=
  .obj ([("job_type", .str value.jobType), ("retries", .nat value.retries)] ++
    Members.optional "worker" Json.str value.worker ++
    Members.optional "deadline" Json.instant value.deadline ++
    Members.optional "retry_backoff" Json.millis value.retryBackoff ++
    Members.optional "error_message" Json.str value.errorMessage ++
    Members.optional "process_instance_key" Json.nat value.instanceKey ++
    Members.optional "element_id" Json.str value.elementId ++
    [("variables", value.vars)])

/-- A job. -/
def ofJson? (json : Json) : Option JobPayload := do
  let members ← json.fields? ["job_type"]
    ["retries", "worker", "deadline", "retry_backoff", "error_message", "process_instance_key",
      "element_id", "variables"]
  let jobType ← members.required? "job_type" Json.str?
  let retries ← members.orElse? "retries" 0 (Json.nat? maxWord32)
  let worker ← members.optional? "worker" Json.str?
  let deadline ← members.optional? "deadline" Json.instant?
  let retryBackoff ← members.optional? "retry_backoff" Json.millis?
  let errorMessage ← members.optional? "error_message" Json.str?
  let instanceKey ← members.optional? "process_instance_key" Json.word64?
  let elementId ← members.optional? "element_id" Json.str?
  let vars ← members.orElse? "variables" .null some
  some { jobType, retries, worker, deadline, retryBackoff, errorMessage, instanceKey, elementId,
         vars }

end JobPayload

namespace JobBatchPayload

/-- A job batch. -/
def toJson (value : JobBatchPayload) : Json :=
  .obj [("job_type", .str value.jobType), ("worker", .str value.worker),
    ("timeout", .millis value.timeout), ("max_jobs_to_activate", .nat value.maxJobs),
    ("job_keys", .list Json.nat value.jobKeys), ("jobs", .list JobPayload.toJson value.jobs)]

/-- A job batch. -/
def ofJson? (json : Json) : Option JobBatchPayload := do
  let members ← json.fields? ["job_type", "worker", "timeout", "max_jobs_to_activate"]
    ["job_keys", "jobs"]
  let jobType ← members.required? "job_type" Json.str?
  let worker ← members.required? "worker" Json.str?
  let timeout ← members.required? "timeout" Json.millis?
  let maxJobs ← members.required? "max_jobs_to_activate" (Json.nat? maxWord32)
  let jobKeys ← members.orElse? "job_keys" [] (Json.list? Json.word64?)
  let jobs ← members.orElse? "jobs" [] (Json.list? JobPayload.ofJson?)
  some { jobType, worker, timeout, maxJobs, jobKeys, jobs }

end JobBatchPayload

namespace IncidentPayload

/-- An incident. -/
def toJson (value : IncidentPayload) : Json :=
  .obj ([("error_type", .str value.cause.name), ("error_message", .str value.errorMessage),
      ("state", .str value.state.name)] ++
    Members.optional "job_key" Json.nat value.jobKey ++
    Members.optional "process_instance_key" Json.nat value.instanceKey ++
    Members.optional "element_instance_key" Json.nat value.elementInstanceKey ++
    Members.optional "element_id" Json.str value.elementId)

/-- An incident. -/
def ofJson? (reading : Json.Reading) (json : Json) : Option IncidentPayload := do
  let members ← json.fields? ["error_type", "error_message"]
    ["state", "job_key", "process_instance_key", "element_instance_key", "element_id"]
  let cause ← members.required? "error_type" (IncidentCause.ofJson? reading)
  let errorMessage ← members.required? "error_message" Json.str?
  let state ← members.orElse? "state" .active (IncidentState.ofJson? reading)
  let jobKey ← members.optional? "job_key" Json.word64?
  let instanceKey ← members.optional? "process_instance_key" Json.word64?
  let elementInstanceKey ← members.optional? "element_instance_key" Json.word64?
  let elementId ← members.optional? "element_id" Json.str?
  some { cause, errorMessage, state, jobKey, instanceKey, elementInstanceKey, elementId }

end IncidentPayload

namespace Payload

/-- The payload without its value type. -/
def content : Payload → Json
  | .deployment value => value.toJson
  | .processInstance value => value.toJson
  | .timer value => value.toJson
  | .job value => value.toJson
  | .jobBatch value => value.toJson
  | .incident value => value.toJson

/-- The payload of a value type. -/
def ofContent? (type : ValueType) (reading : Json.Reading) (json : Json) : Option Payload :=
  match type with
  | .deployment => (DeploymentPayload.ofJson? reading json).map .deployment
  | .processInstance => (ProcessInstancePayload.ofJson? json).map .processInstance
  | .timer => (TimerPayload.ofJson? reading json).map .timer
  | .job => (JobPayload.ofJson? json).map .job
  | .jobBatch => (JobBatchPayload.ofJson? json).map .jobBatch
  | .incident => (IncidentPayload.ofJson? reading json).map .incident

/-- A payload, beside its value type. -/
def toJson (value : Payload) : Json :=
  .obj [("value_type", .str value.valueType.name), ("value", value.content)]

/-- A payload, beside its value type. -/
def ofJson? (json : Json) : Option Payload := do
  let given ← json.kinded? .inPlace "value_type" "value" ValueType.all ValueType.name
  given.content?.bind (ofContent? given.kind given.reading)

end Payload

namespace Correlation

/-- A request of a client. -/
def toJson (c : Correlation) : Json :=
  .obj [("request_stream_id", .int c.streamId), ("request_id", .nat c.requestId)]

/-- A request of a client. -/
def ofJson? (json : Json) : Option Correlation := do
  let members ← json.fields? ["request_stream_id", "request_id"] []
  let streamId ← members.required? "request_stream_id" (Json.int? signedBound32)
  let requestId ← members.required? "request_id" Json.word64?
  some ⟨streamId, requestId⟩

end Correlation

namespace Draft

/-- The members of a draft. -/
def toMembers (draft : Draft) : Members :=
  [("source_position", .nullable Json.nat draft.sourcePosition),
    ("key", .nullable Json.nat draft.key), ("record_type", .str draft.kind.name),
    ("value_type", .str draft.valueType.name), ("intent", draft.intent.toJson),
    ("value", draft.value.toJson),
    ("rejection_type", .nullable (fun type => .str type.name) draft.rejectionType),
    ("rejection_reason", .str draft.rejectionReason),
    ("correlation", .nullable Correlation.toJson draft.correlation),
    ("timestamp", .instant draft.timestamp)]

/-- The names of the members of a draft. -/
def fieldNames : List String :=
  ["source_position", "key", "record_type", "value_type", "intent", "value", "rejection_type",
    "rejection_reason", "correlation", "timestamp"]

/-- A draft from its members, the reason of a rejection given. -/
def ofMembers? (members : Members) (rejectionReason : String) : Option Draft := do
  let sourcePosition ← members.optional? "source_position" Json.word64?
  let key ← members.optional? "key" Json.word64?
  let kind ← members.required? "record_type" RecordKind.ofJson?
  let valueType ← members.required? "value_type" ValueType.ofJson?
  let intent ← members.required? "intent" Intent.ofJson?
  let value ← members.required? "value" Payload.ofJson?
  let rejectionType ← members.optional? "rejection_type" RejectionType.ofJson?
  let correlation ← members.optional? "correlation" Correlation.ofJson?
  let timestamp ← members.required? "timestamp" Json.instant?
  some { sourcePosition, key, kind, valueType, intent, value, rejectionType, rejectionReason,
         correlation, timestamp }

/-- A draft. -/
def toJson (draft : Draft) : Json := .obj draft.toMembers

/-- A draft; the reason of a rejection is required, and empty on other records. -/
def ofJson? (json : Json) : Option Draft := do
  let members ← json.fields? fieldNames []
  let reason ← members.required? "rejection_reason" Json.str?
  ofMembers? members reason

end Draft

namespace Record

/-- A record. -/
def toJson (record : Record) : Json :=
  .obj (("position", .nat record.position) :: record.toDraft.toMembers)

/-- A record; an absent reason is the empty one. -/
def ofJson? (json : Json) : Option Record := do
  let members ← json.fields? ("position" :: Draft.fieldNames) []
  let position ← members.required? "position" Json.word64?
  let reason ← members.orElse? "rejection_reason" "" Json.str?
  let draft ← Draft.ofMembers? members reason
  some (ofDraft position draft)

end Record

end Workflow
