/-
Selecting process instances.
-/
import Workflow.Operation.Basic
import Workflow.Process.Catalog

namespace Workflow

/-- A selection of process instances. -/
structure InstanceQuery where
  /-- Only these instances. -/
  ids : Option (List Nat) := none
  /-- Only instances of this process. -/
  processId : Option String := none
  /-- Only instances with an open incident. -/
  incidentsOnly : Bool := false
deriving DecidableEq, Inhabited

/-- Whether a query selects an instance. -/
def InstanceQuery.selects (query : InstanceQuery) (i : ProcessInstance) (hasIncident : Bool) :
    Bool :=
  query.ids.all (fun ids => ids.contains i.key) &&
    query.processId.all (fun processId => processId == i.processId) &&
    (!query.incidentsOnly || hasIncident)

/-- A request for an operation on every instance that any of its queries selects. -/
structure BatchRequest where
  /-- The queries. -/
  queries : List InstanceQuery
  /-- What is done. -/
  type : OperationType
deriving DecidableEq, Inhabited

end Workflow
