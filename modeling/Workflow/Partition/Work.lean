/-
A partition as a source of batch work: its units are the commands that are not applied yet.
-/
import Workflow.Batch.Scheduler
import Workflow.Partition.Round

namespace Workflow

namespace Partition

/-- Pulling prepares a round, and processing applies its commands. -/
def workSource : WorkSource Partition Record where
  pull size p :=
    let (result, p) := p.prepareRound size
    (result.mapError fun e => .source e.message, p)
  process commands p :=
    let (result, p) := p.processCommands commands
    (result.mapError fun e => .processing e.message, p)

/-- A scheduler that drives the partition. -/
def scheduler (p : Partition) (config : BatchConfig) : Scheduler Partition Record :=
  { name := s!"partition-{p.config.partitionId}", config, source := workSource, work := p }

end Partition

end Workflow
