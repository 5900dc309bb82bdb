/-
Records of a log.

All that a partition knows is in the records of its log: commands, the events that they produce,
and rejections.  A draft is a record that has no position yet; the log gives it one, and a record
never changes after that.
-/
import Workflow.Record.Payload

namespace Workflow

/-- Whether a record asks, reports or refuses. -/
inductive RecordKind where
  /-- Something is asked for. -/
  | command
  /-- Something happened. -/
  | event
  /-- A command was refused. -/
  | rejection
deriving DecidableEq, Inhabited

/-- The name of the kind. -/
def RecordKind.name : RecordKind → String
  | .command => "COMMAND"
  | .event => "EVENT"
  | .rejection => "COMMAND_REJECTION"

/-- The kinds of records. -/
def RecordKind.all : List RecordKind := [.command, .event, .rejection]

/-- Why a command was refused. -/
inductive RejectionType where
  | invalidArgument
  | notFound
  | alreadyExists
  | invalidState
  | processingError
deriving DecidableEq, Inhabited

/-- The name of the reason. -/
def RejectionType.name : RejectionType → String
  | .invalidArgument => "INVALID_ARGUMENT"
  | .notFound => "NOT_FOUND"
  | .alreadyExists => "ALREADY_EXISTS"
  | .invalidState => "INVALID_STATE"
  | .processingError => "PROCESSING_ERROR"

/-- The reasons for refusing a command. -/
def RejectionType.all : List RejectionType :=
  [.invalidArgument, .notFound, .alreadyExists, .invalidState, .processingError]

/-- The request of a client that a command came from. -/
structure Correlation where
  /-- The stream of requests. -/
  streamId : Int
  /-- The number of the request in its stream. -/
  requestId : Nat
deriving DecidableEq, Inhabited

/-- A record without a position. -/
structure Draft where
  /-- The position of the command that the record follows from. -/
  sourcePosition : Option Nat := none
  /-- The entity that the record is about. -/
  key : Option Nat := none
  /-- Whether the record asks, reports or refuses. -/
  kind : RecordKind
  /-- The declared type of the payload. -/
  valueType : ValueType
  /-- What is asked for or reported. -/
  intent : Intent
  /-- The payload. -/
  value : Payload
  /-- On rejections, why the command was refused. -/
  rejectionType : Option RejectionType := none
  /-- On rejections, the reason in words. -/
  rejectionReason : String := ""
  /-- The request that the command came from. -/
  correlation : Option Correlation := none
  /-- When the record was made. -/
  timestamp : Instant
deriving DecidableEq, Inhabited

/-- A record of a log. -/
structure Record extends Draft where
  /-- The position in the log. -/
  position : Nat
deriving DecidableEq, Inhabited

namespace Record

/-- The record that a draft becomes at a position. -/
def ofDraft (position : Nat) (draft : Draft) : Record := { draft with position := position }

/-- Whether the record is a command. -/
def isCommand (record : Record) : Bool := record.kind == .command

/-- Whether the record is an event. -/
def isEvent (record : Record) : Bool := record.kind == .event

/-- Whether the record is a rejection. -/
def isRejection (record : Record) : Bool := record.kind == .rejection

/-- The record in one line: what it is, where it stands, and its key if it has one. -/
def text (record : Record) : String :=
  s!"{record.kind.name} {record.valueType.name} {record.intent.name} @{record.position}" ++
    match record.key with
    | some key => s!" key={key}"
    | none => ""

@[simp] theorem toDraft_ofDraft (position : Nat) (draft : Draft) :
    (ofDraft position draft).toDraft = draft := rfl

end Record

namespace Draft

/-- A command; its timestamp is set when it is appended. -/
def command (key : Option Nat) (intent : Intent) (value : Payload) : Draft :=
  { key, kind := .command, valueType := value.valueType, intent, value, timestamp := Instant.epoch }

/-- An event that follows from a command. -/
def event (source : Record) (key : Option Nat) (intent : Intent) (value : Payload) : Draft :=
  { sourcePosition := some source.position, key, kind := .event, valueType := value.valueType,
    intent, value, timestamp := source.timestamp }

/-- The rejection of a command, which repeats its key, intent and payload. -/
def rejection (source : Record) (type : RejectionType) (reason : String) : Draft :=
  { sourcePosition := some source.position, key := source.key, kind := .rejection,
    valueType := source.valueType, intent := source.intent, value := source.value,
    rejectionType := some type, rejectionReason := reason, correlation := source.correlation,
    timestamp := source.timestamp }

/-- The draft as the command of a request. -/
def withCorrelation (draft : Draft) (correlation : Correlation) : Draft :=
  { draft with correlation := some correlation }

/-- The draft at another time. -/
def withTimestamp (draft : Draft) (timestamp : Instant) : Draft :=
  { draft with timestamp := timestamp }

/-- The draft with plain zeros in its variables in place of those with a minus sign. -/
def plainZeros (draft : Draft) : Draft :=
  { draft with value := draft.value.mapVars Json.plainZeros }

/-- What the draft is, in one line. -/
def summary (draft : Draft) : String :=
  s!"{draft.kind.name} {draft.valueType.name} {draft.intent.name}"

end Draft

end Workflow
