/-
The state of a partition's engine, and the keys it hands out.

A key has the partition id above its lowest 51 bits and a counter in them, so a key tells which
partition made it.
-/
import Workflow.Incident.Ledger
import Workflow.Job.Ledger
import Workflow.Process.Catalog
import Workflow.Timer.Agenda

namespace Workflow

/-- How many bits of a key belong to the counter. -/
def keyCounterBits : Nat := 51

/-- The largest partition id that fits above the counter in a key of 64 bits. -/
def maxPartitionId : Nat := wordCount (64 - keyCounterBits) - 1

/-- The partition that a key was made by. -/
def partitionOf (key : Nat) : Nat := key >>> keyCounterBits

/-- All entities of a partition. -/
structure EngineState where
  /-- The partition. -/
  partitionId : Nat
  /-- The counter of the key that was handed out last. -/
  keyCounter : Nat
  /-- The deployed processes and their instances. -/
  processes : ProcessCatalog
  /-- The pending timers. -/
  timers : TimerAgenda
  /-- The live jobs. -/
  jobs : JobLedger
  /-- The incidents, open and resolved. -/
  incidents : IncidentLedger
deriving Inhabited

namespace EngineState

/-- The state before the first command. -/
def initial (partitionId : Nat) : EngineState :=
  ⟨partitionId, 0, .empty, .empty, .empty, .empty⟩

/--
The key with a counter.  What does not fit above the counter of a partition id that is too large
is left out.
-/
def keyAt (partitionId counter : Nat) : Nat :=
  (partitionId <<< keyCounterBits) % wordCount 64 ||| counter

/-- Hands out a new key. -/
def nextKey (state : EngineState) : Nat × EngineState :=
  let counter := state.keyCounter + 1
  (keyAt state.partitionId counter, { state with keyCounter := counter })

end EngineState

end Workflow
