/-
The log of a partition.

A log is an ordered list of records.  Appending gives the drafts of a batch the positions that
follow the last one, all of them or none, so positions run from 1 without gaps, and what was
appended stays as it is.  A log can be told to refuse its next appends; a refused append writes
nothing.
-/
import Workflow.Record.Basic

namespace Workflow

/-- Why a log does not answer. -/
inductive LogError where
  /-- The storage is not there; nothing was written. -/
  | storageUnavailable (reason : String)
deriving DecidableEq, Inhabited

/-- The name of the cause. -/
def LogError.name : LogError → String
  | .storageUnavailable _ => "StorageUnavailable"

/-- The wording of the cause. -/
def LogError.message : LogError → String
  | .storageUnavailable reason => s!"record log unavailable: {reason}"

/-- The records of a partition. -/
structure Log where
  /-- The records, in the order of their positions. -/
  records : List Record := []
  /-- How many of the coming appends are refused. -/
  refusals : Nat := 0
deriving DecidableEq, Inhabited

namespace Log

/-- How many records there are. -/
def size (log : Log) : Nat := log.records.length

/-- The position of the last record. -/
def lastPosition? (log : Log) : Option Nat := log.records.getLast?.map Record.position

/-- The records that drafts become when the first of them gets a position. -/
def numbered (position : Nat) : List Draft → List Record
  | [] => []
  | draft :: drafts => Record.ofDraft position draft :: numbered (position + 1) drafts

/-- The reason for an append that the log was told to refuse. -/
def refusal : LogError := .storageUnavailable "injected append failure"

/-- Appends a batch, and tells the positions it got. -/
def appendBatch (log : Log) (drafts : List Draft) : Except LogError (List Nat) × Log :=
  match log.refusals with
  | 0 =>
      let records := numbered (log.size + 1) drafts
      (.ok (records.map Record.position), { log with records := log.records ++ records })
  | left + 1 => (.error refusal, { log with refusals := left })

/-- Appends one record, and tells its position. -/
def append (log : Log) (draft : Draft) : Except LogError Nat × Log :=
  let (result, appended) := log.appendBatch [draft]
  (result.map fun _ => log.size + 1, appended)

/-- The records after a position, at most `limit`; without a position from the beginning. -/
def readAfter (log : Log) (after : Option Nat) (limit : Nat) : List Record :=
  (log.records.drop (after.getD 0)).take limit

/-- Tells the log to refuse its next `count` appends. -/
def refuseNext (log : Log) (count : Nat) : Log := { log with refusals := count }

end Log

end Workflow
