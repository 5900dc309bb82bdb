/-
A command while it is processed.

A handler changes the state, appends follow-up records and stages a response.  Nothing reaches the
log before the handler is done; what it leaves behind is the new state and an outcome.  The time
is the timestamp of the command, so a handler does the same whenever the command is applied again.
-/
import Workflow.Engine.Response
import Workflow.Engine.State

namespace Workflow

/-- What a command leaves behind, beside the new state. -/
structure Outcome where
  /-- The events and rejections to append, in order. -/
  followUps : List Draft
  /-- The response to the request of the command. -/
  response : Option Response
  /-- How many staged responses were replaced. -/
  overwrites : Nat
deriving DecidableEq, Inhabited

/-- A command in the course of being processed. -/
structure Processing where
  /-- The command. -/
  command : Record
  /-- The state as it is now. -/
  state : EngineState
  /-- The records that follow so far. -/
  followUps : List Draft
  /-- The response so far. -/
  writer : ResponseWriter
deriving Inhabited

namespace Processing

/-- The start of the processing of a command. -/
def start (state : EngineState) (command : Record) : Processing :=
  ⟨command, state, [], ResponseWriter.forCommand command⟩

/-- The time of the processing. -/
def now (p : Processing) : Instant := p.command.timestamp

/-- Appends an event. -/
def appendEvent (p : Processing) (key : Nat) (intent : Intent) (value : Payload) : Processing :=
  { p with followUps := p.followUps ++ [Draft.event p.command (some key) intent value] }

/-- Appends an event and makes it the response. -/
def appendAndRespond (p : Processing) (key : Nat) (intent : Intent) (value : Payload) :
    Processing :=
  let event := Draft.event p.command (some key) intent value
  { p with followUps := p.followUps ++ [event], writer := p.writer.writeEvent event }

/-- Refuses the command. -/
def reject (p : Processing) (type : RejectionType) (reason : String) : Processing :=
  { p with
    followUps := p.followUps ++ [Draft.rejection p.command type reason]
    writer := p.writer.writeRejection p.command type reason }

/-- The reason for refusing a command whose payload does not fit its intent. -/
def unexpectedValue (command : Record) : String :=
  s!"Expected a {command.intent.valueType.name} value for command {command.intent.name}, " ++
    s!"but got a {command.value.valueType.name} value"

/-- Refuses a command whose payload does not fit its intent. -/
def rejectUnexpectedValue (p : Processing) : Processing :=
  p.reject .invalidArgument (unexpectedValue p.command)

/-- What the processing leaves behind. -/
def outcome (p : Processing) : Outcome := ⟨p.followUps, p.writer.staged, p.writer.overwrites⟩

end Processing

/-- A handler of one kind of command. -/
abbrev Handler := Evaluator → Processing → Processing

end Workflow
