/-
Rebuilding the state from the log.

All commands up to the last one that has follow-ups in the log are applied again, from the empty
state and in order.  What they produce is compared with what the log holds, where the two zeros
count as one; a difference ends the rebuild with an error.  The cursor is moved only when the
rebuild succeeds.
-/
import Workflow.Partition.Basic

namespace Workflow

namespace Recovery

/-- The last command that has follow-ups among the records. -/
def lastSource? (records : List Record) : Option Nat :=
  (records.filterMap fun record => record.sourcePosition).max?

/-- The commands that were applied before: those up to the last one with follow-ups. -/
def appliedCommands (records : List Record) : List Record :=
  records.filter fun record =>
    record.isCommand && (lastSource? records).any fun last => decide (record.position ≤ last)

/-- The follow-ups of a command among the records, in order. -/
def followUpsOf (records : List Record) (position : Nat) : List Draft :=
  (records.filter fun record => record.sourcePosition == some position).map fun record =>
    record.toDraft

/-- What drafts are, in one line. -/
def summary (drafts : List Draft) : String := ", ".intercalate (drafts.map Draft.summary)

/-- How the follow-ups that were produced differ from those in the log. -/
def describeMismatch (logged produced : List Draft) : String :=
  if logged.length ≠ produced.length then
    s!"logged {logged.length} follow-ups [{summary logged}], " ++
      s!"reprocessing produced {produced.length} [{summary produced}]"
  else
    let index := (logged.zip produced).findIdx fun pair => pair.1.plainZeros != pair.2.plainZeros
    s!"follow-up {index} differs: logged [{summary (logged[index]?).toList}], " ++
      s!"reprocessing produced [{summary (produced[index]?).toList}]"

/--
Applies commands again and counts them.  The first one whose follow-ups are not those among the
records ends the replay; the engine is then left where it is.
-/
def replay (records : List Record) :
    List Record → Processor → Except PartitionError Nat × Processor
  | [], processor => (.ok 0, processor)
  | command :: commands, processor =>
      let (outcome, processor) := processor.apply command
      let logged := followUpsOf records command.position
      if outcome.followUps.map Draft.plainZeros = logged.map Draft.plainZeros then
        let (result, processor) := replay records commands processor
        (result.map (· + 1), processor)
      else
        (.error (.replay command.position (describeMismatch logged outcome.followUps)), processor)

end Recovery

namespace Partition

/-- Rebuilds the state from the log, and counts the commands that were applied again. -/
def recover (p : Partition) : Except PartitionError Nat × Partition :=
  match p.host.link.readAll with
  | (.error e, link) => (.error (.log e), p.withLink link)
  | (.ok records, link) =>
      let p := p.withLink link
      match Recovery.replay records (Recovery.appliedCommands records) p.processor.reset with
      | (.error e, processor) => (.error e, { p with processor })
      | (.ok count, processor) =>
          (.ok count,
            { p with
              processor
              cursor := { lastProcessed := Recovery.lastSource? records, needsRecovery := false }
              pendingTriggers := []
              pendingTimeouts := [] })

/-- Rebuilds the state if it may be ahead of the log. -/
def recoverIfNeeded (p : Partition) : Except PartitionError Unit × Partition :=
  if p.cursor.needsRecovery then
    let (result, p) := p.recover
    (result.map fun _ => (), p)
  else (.ok (), p)

/--
Opens a partition and rebuilds its state from the log.  When that fails the host is handed back.
-/
def «open» (host : Host) (registry : Registry) (evaluator : Evaluator) (config : PartitionConfig) :
    Except (PartitionError × Host) Partition :=
  if maxPartitionId < config.partitionId then
    .error (.invalidPartitionId config.partitionId maxPartitionId, host)
  else
    match recover { config, host, processor := .start config.partitionId registry evaluator } with
    | (.error e, p) => .error (e, p.close)
    | (.ok _, p) => .ok p

end Partition

end Workflow
