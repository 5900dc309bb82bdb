/-
What can be asked about the state of a partition.
-/
import Workflow.Operation.Query
import Workflow.Partition.Basic

namespace Workflow

namespace Partition

/-- The keys of the instances that a query selects, in key order. -/
def select (p : Partition) (query : InstanceQuery) : List Nat :=
  (p.state.processes.allInstances.filter fun i =>
    query.selects i !(p.state.incidents.forInstance i.key).isEmpty).map ProcessInstance.key

/-- The open incidents of an instance, in key order. -/
def activeIncidents (p : Partition) (instanceKey : Nat) : List Incident :=
  p.state.incidents.forInstance instanceKey

/-- A job that is neither completed nor canceled. -/
def job? (p : Partition) (key : Nat) : Option JobPayload :=
  ((p.state.jobs.get? key).filter fun job => !job.state.isTerminal).map Job.toPayload

end Partition

end Workflow
