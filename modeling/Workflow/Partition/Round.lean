/-
Rounds: how commands are taken from the log and applied.

A round begins with the checkers.  They append a trigger command for every timer of the firing
batch and a time-out command for every expired lease, but not a second one for the same timer or
lease while the first is not applied.  Then commands are read from the log and applied one at a
time.  The follow-ups of a command are appended before its response is delivered and before the
next command is applied; if they cannot be appended the round ends and the state is to be rebuilt.
-/
import Workflow.Partition.Recovery

namespace Workflow

namespace Partition

/-! ### Appending -/

/-- Does the rebuild that the storage asked for.  It is refused while commands are applied. -/
def rebuildIfDue (p : Partition) (applying : Bool) : Partition :=
  if p.host.link.rebuildDue then
    let p := p.withLink { p.host.link with rebuildDue := false }
    if applying then { p with lastRebuild := some (.error (.roundInProgress p.config.partitionId)) }
    else
      let (result, p) := p.recover
      { p with lastRebuild := some result }
  else p

/-- Appends a batch; `applying` says whether it belongs to a command that is applied. -/
def appendBatch (p : Partition) (applying : Bool) (drafts : List Draft) :
    Except PartitionError Unit × Partition :=
  let p := p.rebuildIfDue applying
  match p.host.link.appendBatch drafts with
  | (.error e, link) => (.error (.log e), p.withLink link)
  | (.ok _, link) => (.ok (), p.withLink link)

/-! ### Checkers -/

/-- The command that triggers a timer. -/
def triggerCommand (now : Instant) (timer : Timer) : Draft :=
  (Draft.command (some timer.key) (.timer .trigger) (.timer timer.toPayload)).withTimestamp now

/-- The command that reclaims a lease. -/
def timeOutCommand (now : Instant) (lease : Lease) (job : Job) : Draft :=
  (Draft.command (some lease.key) (.job .timeOut)
    (.job { job.toPayload with deadline := some lease.deadline })).withTimestamp now

/-- Appends a trigger command for every timer that may fire and has none. -/
def checkDueTimers (p : Partition) : Except PartitionError Unit × Partition :=
  let kept := p.pendingTriggers.filter fun key => p.state.timers.contains key
  let due := (p.state.timers.firingBatch p.now).filter fun timer => !kept.contains timer.key
  let keys := due.map Timer.key
  let p := { p with pendingTriggers := kept ++ keys }
  if due.isEmpty then (.ok (), p)
  else
    match p.appendBatch false (due.map (triggerCommand p.now)) with
    | (.error e, p) =>
        (.error e,
          { p with pendingTriggers := p.pendingTriggers.filter fun key => !keys.contains key })
    | (.ok _, p) => (.ok (), p)

/-- Appends a time-out command for every lease that is over and has none. -/
def sweepExpiredLeases (p : Partition) : Except PartitionError Unit × Partition :=
  let kept := p.pendingTimeouts.filter fun lease => p.state.jobs.holdsLease lease.key lease.deadline
  let expired := (p.state.jobs.expiredLeases p.now).filter fun lease => !kept.contains lease
  let swept := expired.filterMap fun lease =>
    (p.state.jobs.get? lease.key).map fun job => (lease, timeOutCommand p.now lease job)
  let p := { p with pendingTimeouts := kept ++ expired }
  if swept.isEmpty then (.ok (), p)
  else
    let leases := swept.map Prod.fst
    match p.appendBatch false (swept.map Prod.snd) with
    | (.error e, p) =>
        (.error e,
          { p with
            pendingTimeouts := p.pendingTimeouts.filter fun lease => !leases.contains lease })
    | (.ok _, p) => (.ok (), p)

/-! ### Applying commands -/

/-- Reads the first commands that are not applied yet, at most `max`. -/
def readUnprocessed (p : Partition) (max : Nat) : Except PartitionError (List Record) × Partition :=
  match p.host.link.readCommands p.cursor.lastProcessed max with
  | (.error e, link) => (.error (.log e), p.withLink link)
  | (.ok commands, link) => (.ok commands, p.withLink link)

/-- Runs the checkers, then reads the commands of a round. -/
def prepareRound (p : Partition) (max : Nat) : Except PartitionError (List Record) × Partition :=
  match p.recoverIfNeeded with
  | (.error e, p) => (.error e, p)
  | (.ok _, p) =>
      match p.checkDueTimers with
      | (.error e, p) => (.error e, p)
      | (.ok _, p) =>
          match p.sweepExpiredLeases with
          | (.error e, p) => (.error e, p)
          | (.ok _, p) => p.readUnprocessed max

/-- Delivers the response of a command, if there is one. -/
def deliver (p : Partition) : Option Response → Partition
  | some response => p.withRouter (p.host.router.deliver response)
  | none => p

/-- Applies a command: appends its follow-ups, moves the cursor, delivers its response. -/
def applyCommand (p : Partition) (command : Record) : Except PartitionError Unit × Partition :=
  let (outcome, processor) := p.processor.apply command
  let p := { p with processor }
  let (result, p) :=
    if outcome.followUps.isEmpty then (.ok (), p) else p.appendBatch true outcome.followUps
  match result with
  | .error e => (.error e, { p with cursor := { p.cursor with needsRecovery := true } })
  | .ok _ =>
      let p := { p with cursor := { p.cursor with lastProcessed := some command.position } }
      (.ok (), p.deliver outcome.response)

/-- Applies records in order and counts them.  What is no command, or was applied, is skipped. -/
def applyCommands : List Record → Partition → Except PartitionError Nat × Partition
  | [], p => (.ok 0, p)
  | command :: commands, p =>
      if !command.isCommand || p.isProcessed command.position then applyCommands commands p
      else
        match p.applyCommand command with
        | (.error e, p) => (.error e, p)
        | (.ok _, p) =>
            let (result, p) := applyCommands commands p
            (result.map (· + 1), p)

/-- Applies records to a state that is not ahead of the log. -/
def processCommands (p : Partition) (commands : List Record) :
    Except PartitionError Nat × Partition :=
  match p.recoverIfNeeded with
  | (.error e, p) => (.error e, p)
  | (.ok _, p) => applyCommands commands p

/-! ### Rounds -/

/-- Runs a round, and counts the commands that were applied. -/
def processRound (p : Partition) : Except PartitionError Nat × Partition :=
  match p.prepareRound p.config.maxCommandsPerRound with
  | (.error e, p) => (.error e, p)
  | (.ok commands, p) => p.processCommands commands

/-- Runs rounds until one applies nothing, at most `rounds`, and tells what each applied. -/
def processRounds : Nat → Partition → Except PartitionError (List Nat) × Partition
  | 0, p => (.ok [], p)
  | rounds + 1, p =>
      match p.processRound with
      | (.error e, p) => (.error e, p)
      | (.ok 0, p) => (.ok [0], p)
      | (.ok count, p) =>
          let (result, p) := processRounds rounds p
          (result.map (count :: ·), p)

/-- How a run of rounds ends. -/
inductive RunEnd where
  /-- A round applied nothing; before it so many commands were applied. -/
  | idle (applied : Nat)
  /-- A round failed. -/
  | failed (cause : PartitionError)
  /-- Every round that was allowed applied something. -/
  | busy
deriving DecidableEq, Inhabited

/-- The end of a run that applied more commands before. -/
def RunEnd.after (applied : Nat) : RunEnd → RunEnd
  | .idle count => .idle (applied + count)
  | other => other

/-- Runs rounds until one applies nothing, at most `rounds`. -/
def processUntilIdle : Nat → Partition → RunEnd × Partition
  | 0, p => (.busy, p)
  | rounds + 1, p =>
      match p.processRound with
      | (.error e, p) => (.failed e, p)
      | (.ok 0, p) => (.idle 0, p)
      | (.ok count, p) =>
          let (run, p) := processUntilIdle rounds p
          (run.after count, p)

end Partition

end Workflow
