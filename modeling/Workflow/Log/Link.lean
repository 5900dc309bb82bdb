/-
The connection of a partition to its log.

Appends and reads go through the connection, and each kind of call has its own outages.  A refused
call does not reach the log.  The storage may also ask for a rebuild: before it takes the next
batch, the partition is to read the log again.
-/
import Workflow.Log.Basic
import Workflow.Log.Outage

namespace Workflow

/-- A log behind a connection that can fail. -/
structure LogLink where
  /-- The log. -/
  log : Log := {}
  /-- The outages of appends. -/
  appends : Outage := .none
  /-- The outages of reads. -/
  reads : Outage := .none
  /-- Whether the next batch waits for a rebuild of the state. -/
  rebuildDue : Bool := false

namespace LogLink

instance : Inhabited LogLink := ⟨{}⟩

/-- Sends an append to the log, unless it is refused on the way. -/
def guardAppend {α : Type} (link : LogLink) (action : Log → Except LogError α × Log) :
    Except LogError α × LogLink :=
  let (refused, appends) := link.appends.next
  let link := { link with appends }
  if refused then (.error (.storageUnavailable "append refused"), link)
  else
    let (result, log) := action link.log
    (result, { link with log })

/-- Appends one record, and tells its position. -/
def append (link : LogLink) (draft : Draft) : Except LogError Nat × LogLink :=
  link.guardAppend fun log => log.append draft

/-- Appends a batch, and tells the positions it got. -/
def appendBatch (link : LogLink) (drafts : List Draft) : Except LogError (List Nat) × LogLink :=
  link.guardAppend fun log => log.appendBatch drafts

/-- The records after a position, at most `limit`. -/
def readAfter (link : LogLink) (after : Option Nat) (limit : Nat) :
    Except LogError (List Record) × LogLink :=
  let (refused, reads) := link.reads.next
  let link := { link with reads }
  if refused then (.error (.storageUnavailable "read refused"), link)
  else (.ok (link.log.readAfter after limit), link)

/-- How many records one read asks for. -/
def chunkSize : Nat := 256

/-- Reads to the end of the log in at most `reads` chunks. -/
def readRest : Nat → LogLink → Option Nat → Except LogError (List Record) × LogLink
  | 0, link, _ => (.ok [], link)
  | reads + 1, link, after =>
      match link.readAfter after chunkSize with
      | (.error e, link) => (.error e, link)
      | (.ok chunk, link) =>
          match chunk.getLast? with
          | none => (.ok [], link)
          | some last =>
              let (rest, link) := readRest reads link (some last.position)
              (rest.map (chunk ++ ·), link)

/-- Reads the whole log.  Every read but the last one finds at least one record. -/
def readAll (link : LogLink) : Except LogError (List Record) × LogLink :=
  readRest (link.log.size + 1) link none

/-- Reads commands after a position until there are `max`, in at most `reads` chunks. -/
def readCommandsFrom : Nat → LogLink → Option Nat → Nat → Except LogError (List Record) × LogLink
  | 0, link, _, _ => (.ok [], link)
  | _ + 1, link, _, 0 => (.ok [], link)
  | reads + 1, link, after, max + 1 =>
      match link.readAfter after chunkSize with
      | (.error e, link) => (.error e, link)
      | (.ok chunk, link) =>
          match chunk.getLast? with
          | none => (.ok [], link)
          | some last =>
              let found := (chunk.filter Record.isCommand).take (max + 1)
              let (rest, link) :=
                readCommandsFrom reads link (some last.position) (max + 1 - found.length)
              (rest.map (found ++ ·), link)

/-- Reads the first commands after a position, at most `max`. -/
def readCommands (link : LogLink) (after : Option Nat) (max : Nat) :
    Except LogError (List Record) × LogLink :=
  readCommandsFrom (link.log.size + 1) link after max

end LogLink

end Workflow
