/-
What the built-in handlers decide about a command.

A decision is one of three things: the command is refused, and the state stays as it is; it is
accepted, with a new state and at least one event, the first of which is the response; or it is
confirmed, when what it asks for is the case already, and neither the state nor the log changes.
That a refusal changes nothing is so by the form of a decision.  For handlers that change the state
step by step, and might refuse afterwards, it is a theorem (`Workflow.Proofs.Engine.InPlace`).
-/
import Workflow.Engine.Processing
import Workflow.Engine.Refusal

namespace Workflow

/-- Something that happened to an entity. -/
structure Event where
  /-- The entity. -/
  key : Nat
  /-- What happened. -/
  intent : Intent
  /-- The entity afterwards. -/
  value : Payload
deriving DecidableEq, Inhabited

/-- What is decided about a command. -/
inductive Decision where
  /-- It is refused. -/
  | reject (type : RejectionType) (reason : String)
  /-- It is accepted: the first event answers it, and the others follow. -/
  | accept (state : EngineState) (answer : Event) (others : List Event)
  /-- What it asks for is the case already. -/
  | confirm (key : Nat) (intent : Intent)
deriving Inhabited

namespace Decision

/-- Refuses a command. -/
def refuse (refusal : Refusal) : Decision := .reject refusal.type refusal.reason

/-- Refuses a command whose payload does not fit its intent. -/
def unexpectedValue (command : Record) : Decision :=
  .reject .invalidArgument (Processing.unexpectedValue command)

/-- Carries out a decision. -/
def perform (decision : Decision) (p : Processing) : Processing :=
  match decision with
  | .reject type reason => p.reject type reason
  | .accept state answer others =>
      others.foldl (fun q event => q.appendEvent event.key event.intent event.value)
        ({ p with state := state }.appendAndRespond answer.key answer.intent answer.value)
  | .confirm key intent =>
      match p.command.correlation with
      | none => p
      | some correlation =>
          { p with
            writer := p.writer.writeResponse (some key) intent intent.valueType p.command.value
              correlation }

end Decision

/-- A way of deciding about commands. -/
abbrev Policy := Evaluator → EngineState → Record → Decision

/-- The handler that carries out what a policy decides. -/
def Policy.handler (policy : Policy) : Handler := fun evaluator p =>
  (policy evaluator p.state p.command).perform p

end Workflow
