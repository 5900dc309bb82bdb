/-
A partition: the one writer of one log.

The log is all that lasts.  A partition keeps, beside its connection to the log, the state that
the applied commands lead to, and a cursor that says how far they are applied.  When an append
fails after a command was applied the state is ahead of the log; the cursor then asks for a
rebuild, which is done before anything else is applied.

What outlives a partition is its host: the log, the clock, and the responses that were delivered.
-/
import Workflow.Engine.Processor
import Workflow.Log.Link
import Workflow.Partition.Config
import Workflow.Partition.Router
import Workflow.Time.Clock

namespace Workflow

/-- What a partition runs on. -/
structure Host where
  /-- The connection to the log. -/
  link : LogLink := {}
  /-- The clock. -/
  clock : Clock := {}
  /-- The requests and their responses. -/
  router : ResponseRouter := {}
deriving Inhabited

/-- How far the commands of the log are applied. -/
structure Cursor where
  /-- The position of the last command that was applied and whose follow-ups are in the log. -/
  lastProcessed : Option Nat := none
  /-- Whether the state may be ahead of the log. -/
  needsRecovery : Bool := false
deriving DecidableEq, Inhabited

/-- A partition. -/
structure Partition where
  /-- The settings. -/
  config : PartitionConfig
  /-- What it runs on. -/
  host : Host
  /-- The engine with its state. -/
  processor : Processor
  /-- How far the commands of the log are applied. -/
  cursor : Cursor := {}
  /-- The timers that a trigger command was appended for, and that are still pending. -/
  pendingTriggers : List Nat := []
  /-- The leases that a time-out command was appended for, and that are still held. -/
  pendingTimeouts : List Lease := []
  /-- How the rebuild ended that the storage asked for last. -/
  lastRebuild : Option (Except PartitionError Nat) := none

namespace Partition

/-- The state that the applied commands lead to. -/
def state (p : Partition) : EngineState := p.processor.state

/-- The time. -/
def now (p : Partition) : Instant := p.host.clock.now

/-- The records of the log. -/
def records (p : Partition) : List Record := p.host.link.log.records

/-- The partition with another connection. -/
def withLink (p : Partition) (link : LogLink) : Partition := { p with host := { p.host with link } }

/-- The partition with other requests and responses. -/
def withRouter (p : Partition) (router : ResponseRouter) : Partition :=
  { p with host := { p.host with router } }

/-- Whether the command at a position was applied. -/
def isProcessed (p : Partition) (position : Nat) : Bool :=
  p.cursor.lastProcessed.any fun last => decide (position ≤ last)

/--
Ends the partition.  Requests that wait will get no response, and a rebuild that was asked for is
not done.
-/
def close (p : Partition) : Host :=
  { p.host with
    router := p.host.router.dropWaiting
    link := { p.host.link with rebuildDue := false } }

end Partition

end Workflow
