/-
Handlers given as data.

A script is a list of steps that a handler takes in order, whatever the command.  It can do what
any handler may do through a processing: append events, answer, refuse, or address a response of
its own.  Fields that a step leaves open are those of the command; an event without a key gets a
new one.
-/
import Workflow.Engine.Processing

namespace Workflow

/-- An event as a script describes it. -/
structure ScriptedEvent where
  /-- The entity; a new one if absent. -/
  key : Option Nat
  /-- What happened; that of the command if absent. -/
  intent : Option Intent
  /-- The payload; that of the command if absent. -/
  value : Option Payload
deriving DecidableEq, Inhabited

/-- One step of a script. -/
inductive ScriptStep where
  /-- Appends an event. -/
  | event (event : ScriptedEvent)
  /-- Appends an event and makes it the response. -/
  | respond (event : ScriptedEvent)
  /-- Refuses the command. -/
  | reject (type : RejectionType) (reason : String)
  /-- Refuses the command for its payload. -/
  | rejectUnexpectedValue
  /-- Writes a response with an address of its own. -/
  | write (event : ScriptedEvent) (correlation : Correlation)
deriving DecidableEq, Inhabited

namespace ScriptStep

/-- The key of a scripted event, and the processing after it was handed out. -/
def resolveKey (key : Option Nat) (p : Processing) : Nat × Processing :=
  match key with
  | some key => (key, p)
  | none =>
      let (key, state) := p.state.nextKey
      (key, { p with state := state })

/-- Takes a step. -/
def run (step : ScriptStep) (p : Processing) : Processing :=
  match step with
  | .event e =>
      let (key, p) := resolveKey e.key p
      p.appendEvent key (e.intent.getD p.command.intent) (e.value.getD p.command.value)
  | .respond e =>
      let (key, p) := resolveKey e.key p
      p.appendAndRespond key (e.intent.getD p.command.intent) (e.value.getD p.command.value)
  | .reject type reason => p.reject type reason
  | .rejectUnexpectedValue => p.rejectUnexpectedValue
  | .write e correlation =>
      let intent := e.intent.getD p.command.intent
      let value := e.value.getD p.command.value
      { p with
        writer := p.writer.writeResponse e.key intent value.valueType value correlation }

end ScriptStep

/-- The handler that follows a script. -/
def Handler.ofScript (steps : List ScriptStep) : Handler := fun _ p =>
  steps.foldl (fun p step => step.run p) p

end Workflow
