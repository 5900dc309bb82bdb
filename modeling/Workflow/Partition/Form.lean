/-
The written form of requests and of rebuilds.
-/
import Workflow.Partition.Client
import Workflow.Record.Form

namespace Workflow

/-- A command as a client gives it. -/
def CommandRequest.ofJson? (json : Json) : Option CommandRequest := do
  let members ← json.members?
  let key ← members.optional? "key" Json.word64?
  let intent ← members.required? "intent" Intent.ofJson?
  let value ← members.required? "value" Payload.ofJson?
  some { key, intent, value }

/-- A request that was sent. -/
def PendingResponse.toJson (pending : PendingResponse) : Json :=
  .obj [("position", .nat pending.position), ("correlation", pending.correlation.toJson)]

end Workflow
