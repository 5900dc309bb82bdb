/-
Reading scripts of handlers, and the registry that a set of scripts makes.
-/
import Workflow.Engine.Registry
import Workflow.Engine.Script
import Workflow.Record.Form

namespace Workflow

/-- A scripted event. -/
def ScriptedEvent.ofMembers? (members : Members) : Option ScriptedEvent := do
  let key ← members.optional? "key" Json.word64?
  let intent ← members.optional? "intent" Intent.ofJson?
  let value ← members.optional? "value" Payload.ofJson?
  some { key, intent, value }

/-- A step of a script, by what it does. -/
def ScriptStep.ofJson? (json : Json) : Option ScriptStep := do
  let members ← json.members?
  match ← members.required? "do" Json.str? with
  | "event" => (ScriptedEvent.ofMembers? members).map .event
  | "respond" => (ScriptedEvent.ofMembers? members).map .respond
  | "reject" =>
      let type ← members.optional? "type" RejectionType.ofJson?
      let reason ← members.optional? "reason" Json.str?
      some (.reject (type.getD .processingError) (reason.getD ""))
  | "unexpected" => some .rejectUnexpectedValue
  | "write" =>
      let event ← ScriptedEvent.ofMembers? members
      let streamId ← members.optional? "stream" (Json.int? signedBound32)
      let requestId ← members.optional? "request_id" Json.word64?
      some (.write event ⟨streamId.getD 0, requestId.getD 0⟩)
  | _ => none

/-- A script, and the command it is for. -/
structure ScriptedHandler where
  /-- The value type of the command. -/
  valueType : ValueType
  /-- The intent of the command. -/
  intent : Intent
  /-- The steps. -/
  steps : List ScriptStep
deriving DecidableEq, Inhabited

namespace ScriptedHandler

/-- A script, and the command it is for; without steps it does nothing. -/
def ofJson? (json : Json) : Option ScriptedHandler := do
  let members ← json.members?
  let valueType ← members.required? "value_type" ValueType.ofJson?
  let intent ← members.required? "intent" Intent.ofJson?
  let steps ← members.optional? "actions" (Json.list? ScriptStep.ofJson?)
  some { valueType, intent, steps := steps.getD [] }

/-- Registers a script. -/
def register (registry : Registry) (handler : ScriptedHandler) : Except RegistryError Registry :=
  registry.register handler.valueType handler.intent (.ofScript handler.steps)

end ScriptedHandler

/-- The handlers of an engine: the built-in ones or none, and scripts beside them. -/
structure HandlerSet where
  /-- Whether the built-in handlers are there. -/
  builtin : Bool := true
  /-- The scripts. -/
  scripts : List ScriptedHandler := []
deriving DecidableEq, Inhabited

namespace HandlerSet

/-- A set of handlers; without any description it is that of the built-in ones. -/
def ofJson? : Json → Option HandlerSet
  | .null => some {}
  | json => do
      let members ← json.members?
      let builtin ← members.optional? "defaults" Json.bool?
      let scripts ← members.optional? "extra" (Json.list? ScriptedHandler.ofJson?)
      some { builtin := builtin.getD true, scripts := scripts.getD [] }

/-- The registry of the handlers. -/
def registry (handlers : HandlerSet) : Except RegistryError Registry :=
  handlers.scripts.foldlM ScriptedHandler.register (if handlers.builtin then .builtin else .empty)

end HandlerSet

end Workflow
