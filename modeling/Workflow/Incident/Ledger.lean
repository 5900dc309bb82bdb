/-
The incidents of a partition.

Resolved incidents stay in the ledger as deleted ones.  Beside the incidents the ledger links each
job to its open incident.
-/
import Workflow.Record.Payload
import Workflow.Sorted.Map

namespace Workflow

/-- An incident. -/
structure Incident where
  /-- The key of the incident. -/
  key : Nat
  /-- What it is about. -/
  value : IncidentPayload
deriving DecidableEq, Inhabited

/-- Whether the incident is open. -/
def Incident.isActive (incident : Incident) : Bool := incident.value.state == .active

/-- The incidents of a partition, open and resolved. -/
structure IncidentLedger where
  /-- The incidents by key. -/
  incidents : SortedMap Nat Incident
  /-- The open incident of a job, by the key of the job. -/
  byJob : SortedMap Nat Nat

namespace IncidentLedger

/-- The ledger without incidents. -/
def empty : IncidentLedger := ⟨.empty, .empty⟩

instance : Inhabited IncidentLedger := ⟨empty⟩

/-- The incident with a key. -/
def get? (ledger : IncidentLedger) (key : Nat) : Option Incident := ledger.incidents.get? key

/-- The incidents in key order. -/
def all (ledger : IncidentLedger) : List Incident := ledger.incidents.values

/-- The open incidents in key order. -/
def active (ledger : IncidentLedger) : List Incident := ledger.all.filter Incident.isActive

/-- How many incidents there are. -/
def size (ledger : IncidentLedger) : Nat := ledger.incidents.size

/-- Opens an incident. -/
def create (ledger : IncidentLedger) (key : Nat) (value : IncidentPayload) : IncidentLedger :=
  { incidents := ledger.incidents.insert key ⟨key, { value with state := .active }⟩
    byJob := match value.jobKey with
      | some jobKey => ledger.byJob.insert jobKey key
      | none => ledger.byJob }

/-- Cuts the link of a job to an incident, if it leads there. -/
def unlink (ledger : IncidentLedger) (jobKey key : Nat) : SortedMap Nat Nat :=
  if ledger.byJob.get? jobKey = some key then ledger.byJob.erase jobKey else ledger.byJob

/-- Resolves an open incident. -/
def resolve (ledger : IncidentLedger) (key : Nat) : Option (Incident × IncidentLedger) :=
  ((ledger.get? key).filter Incident.isActive).map fun incident =>
    let resolved := { incident with value := { incident.value with state := .deleted } }
    (resolved,
      { incidents := ledger.incidents.insert key resolved
        byJob := match incident.value.jobKey with
          | some jobKey => ledger.unlink jobKey key
          | none => ledger.byJob })

/-- The open incident of a job. -/
def forJob (ledger : IncidentLedger) (jobKey : Nat) : Option Incident :=
  (ledger.byJob.get? jobKey).bind ledger.get?

/-- The open incidents of a process instance, in key order. -/
def forInstance (ledger : IncidentLedger) (instanceKey : Nat) : List Incident :=
  ledger.active.filter fun incident => incident.value.instanceKey == some instanceKey

end IncidentLedger

end Workflow
