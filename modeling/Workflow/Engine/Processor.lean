/-
Applying commands to the state.

Applying a command is a function of the state and the command alone: the same commands in the same
order give the same state, the same follow-up records and the same responses.  Records that are
not commands change nothing.
-/
import Workflow.Engine.Registry

namespace Workflow

/-- An engine: its state, its handlers, and the evaluator of its expressions. -/
structure Processor where
  /-- The partition. -/
  partitionId : Nat
  /-- The entities. -/
  state : EngineState
  /-- The handlers. -/
  registry : Registry
  /-- The evaluator of expressions. -/
  evaluator : Evaluator

namespace Processor

/-- The engine before the first command. -/
def start (partitionId : Nat) (registry : Registry) (evaluator : Evaluator) : Processor :=
  ⟨partitionId, .initial partitionId, registry, evaluator⟩

/-- Forgets all entities. -/
def reset (processor : Processor) : Processor :=
  { processor with state := .initial processor.partitionId }

/-- Whether the intent and the payload of a record are of its declared value type. -/
def isConsistent (command : Record) : Bool :=
  command.intent.valueType == command.valueType && command.value.valueType == command.valueType

/-- The reason for refusing a command that no handler is for. -/
def unhandled (command : Record) : String :=
  s!"Expected to process command {command.valueType.name} {command.intent.name}, " ++
    "but no handler is registered for it"

/-- Processes a command to the end. -/
def process (processor : Processor) (command : Record) : Processing :=
  let p := Processing.start processor.state command
  if !command.isCommand then p
  else if !isConsistent command then p.rejectUnexpectedValue
  else
    match processor.registry.get? command.valueType command.intent with
    | some handler => handler processor.evaluator p
    | none => p.reject .invalidArgument (unhandled command)

/-- Applies a command: what it leaves behind, and the engine after it. -/
def apply (processor : Processor) (command : Record) : Outcome × Processor :=
  let p := processor.process command
  (p.outcome, { processor with state := p.state })

end Processor

end Workflow
