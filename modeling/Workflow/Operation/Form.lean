/-
The stored form of operations, queries and requests.
-/
import Workflow.Json.Form
import Workflow.Operation.Query
import Workflow.Timer.Cycle

namespace Workflow

/-- A type of operation, by its name. -/
def OperationType.ofJson? : Json → Option OperationType :=
  Json.named? .inPlace OperationType.all OperationType.name

/-- A state of an operation, by its name. -/
def OperationState.ofJson? : Json → Option OperationState :=
  Json.named? .inPlace OperationState.all OperationState.name

namespace Operation

/-- An operation. -/
def toJson (operation : Operation) : Json :=
  .obj [("id", .uuid operation.id), ("operation_type", .str operation.type.name),
    ("state", .str operation.state.name), ("target_key", .nat operation.targetKey),
    ("batch_id", .uuid operation.batchId), ("job_keys", .list Json.nat operation.jobKeys),
    ("error_message", .nullable Json.str operation.errorMessage),
    ("start_date", .instant operation.startDate),
    ("end_date", .nullable Json.instant operation.endDate)]

/-- An operation. -/
def ofJson? (json : Json) : Option Operation := do
  let members ← json.fields?
    ["id", "operation_type", "state", "target_key", "batch_id", "job_keys", "error_message",
      "start_date", "end_date"] []
  let id ← members.required? "id" Json.uuid?
  let type ← members.required? "operation_type" OperationType.ofJson?
  let state ← members.required? "state" OperationState.ofJson?
  let targetKey ← members.required? "target_key" Json.word64?
  let batchId ← members.required? "batch_id" Json.uuid?
  let jobKeys ← members.orElse? "job_keys" [] (Json.list? Json.word64?)
  let errorMessage ← members.optional? "error_message" Json.str?
  let startDate ← members.required? "start_date" Json.instant?
  let endDate ← members.optional? "end_date" Json.instant?
  some { id, type, state, targetKey, batchId, jobKeys, errorMessage, startDate, endDate }

end Operation

namespace InstanceQuery

/-- A query. -/
def toJson (query : InstanceQuery) : Json :=
  .obj (Members.optional "ids" (Json.list Json.nat) query.ids ++
    Members.optional "bpmn_process_id" Json.str query.processId ++
    [("incidents_only", .bool query.incidentsOnly)])

/-- A query. -/
def ofJson? (json : Json) : Option InstanceQuery := do
  let members ← json.fields? [] ["ids", "bpmn_process_id", "incidents_only"]
  let ids ← members.optional? "ids" (Json.list? Json.word64?)
  let processId ← members.optional? "bpmn_process_id" Json.str?
  let incidentsOnly ← members.orElse? "incidents_only" false Json.bool?
  some { ids, processId, incidentsOnly }

end InstanceQuery

namespace BatchRequest

/-- A request. -/
def toJson (request : BatchRequest) : Json :=
  .obj [("queries", .list InstanceQuery.toJson request.queries),
    ("operation_type", .str request.type.name)]

/-- A request. -/
def ofJson? (json : Json) : Option BatchRequest := do
  let members ← json.fields? ["queries", "operation_type"] []
  let queries ← members.required? "queries" (Json.list? InstanceQuery.ofJson?)
  let type ← members.required? "operation_type" OperationType.ofJson?
  some { queries, type }

end BatchRequest

namespace OperationsConfig

/-- The settings with one of them changed, by its name. -/
def change? (config : OperationsConfig) (name : String) (value : Json) : Option OperationsConfig :=
  match name with
  | "batch_operation_max_size" => value.word64?.map config.withBatchOperationMaxSize
  | "update_retries_value" => (value.nat? maxWord32).map config.withUpdateRetriesValue
  | _ => none

/-- The settings of operations. -/
def toJson (config : OperationsConfig) : Json :=
  .obj [("batch_operation_max_size", .nat config.batchOperationMaxSize),
    ("update_retries_value", .nat config.updateRetriesValue)]

/-- The settings of operations. -/
def ofJson? (json : Json) : Option OperationsConfig := do
  let members ← json.fields? ["batch_operation_max_size", "update_retries_value"] []
  let batchOperationMaxSize ← members.required? "batch_operation_max_size" Json.word64?
  let updateRetriesValue ← members.required? "update_retries_value" (Json.nat? maxWord32)
  some { batchOperationMaxSize, updateRetriesValue }

end OperationsConfig

end Workflow
