/-
Responses, and the writer that stages one for a command.

A command has at most one response, addressed to the request that it came from.  The writer is
bound to the command and takes the address from it, never from the event that is reported.  When
it is written to twice the last response counts, and it counts how often that happened.
-/
import Workflow.Record.Basic

namespace Workflow

/-- What a client is told about its request. -/
structure Response where
  /-- Whether an event or a rejection is reported. -/
  kind : RecordKind
  /-- The entity that it is about. -/
  key : Option Nat
  /-- What happened, or what was refused. -/
  intent : Intent
  /-- The declared type of the payload. -/
  valueType : ValueType
  /-- The payload. -/
  value : Payload
  /-- Why the command was refused. -/
  rejectionType : Option RejectionType := none
  /-- The reason in words. -/
  rejectionReason : String := ""
  /-- The request that it answers. -/
  correlation : Correlation
deriving DecidableEq, Inhabited

/-- Whether the response reports a rejection. -/
def Response.isRejection (response : Response) : Bool := response.kind == .rejection

/-- The response staged for a command. -/
structure ResponseWriter where
  /-- The request of the command; without one events get no response. -/
  correlation : Option Correlation
  /-- The response that was written last. -/
  staged : Option Response := none
  /-- How many staged responses were replaced. -/
  overwrites : Nat := 0
deriving DecidableEq, Inhabited

namespace ResponseWriter

/-- The writer for a command. -/
def forCommand (command : Record) : ResponseWriter := { correlation := command.correlation }

/-- Stages a response in place of the one that may be there. -/
def stage (writer : ResponseWriter) (response : Response) : ResponseWriter :=
  { writer with
    staged := some response
    overwrites := writer.overwrites + (if writer.staged.isSome then 1 else 0) }

/-- Stages an event as the response. -/
def writeEvent (writer : ResponseWriter) (event : Draft) : ResponseWriter :=
  match writer.correlation with
  | none => writer
  | some correlation =>
      writer.stage
        { kind := .event, key := event.key, intent := event.intent, valueType := event.valueType,
          value := event.value, correlation }

/-- Stages the rejection of a command, addressed to the request of that command. -/
def writeRejection (writer : ResponseWriter) (command : Record) (type : RejectionType)
    (reason : String) : ResponseWriter :=
  match command.correlation with
  | none => writer
  | some correlation =>
      writer.stage
        { kind := .rejection, key := command.key, intent := command.intent,
          valueType := command.valueType, value := command.value, rejectionType := some type,
          rejectionReason := reason, correlation }

/-- Stages a response with an address of its own. -/
def writeResponse (writer : ResponseWriter) (key : Option Nat) (intent : Intent)
    (valueType : ValueType) (value : Payload) (correlation : Correlation) : ResponseWriter :=
  writer.stage { kind := .event, key, intent, valueType, value, correlation }

/-- Takes the staged response out of the writer. -/
def flush (writer : ResponseWriter) : Option Response × ResponseWriter :=
  (writer.staged, { writer with staged := none })

end ResponseWriter

end Workflow
