/-
A source of work that follows a script.

Its units are numbers in a queue.  The coming pulls fail while failures are scripted, and the
coming batches end as scripted; without a script a batch is processed whole.  The source remembers
what was asked of it.
-/
import Workflow.Batch.Round

namespace Workflow

/-- How the processing of a batch ends. -/
inductive ScriptedResult where
  /-- The whole batch is processed. -/
  | whole
  /-- So many units are reported. -/
  | count (units : Nat)
  /-- Processing fails. -/
  | failure (reason : String)
deriving DecidableEq, Inhabited

/-- The state of a scripted source. -/
structure ScriptedWork where
  /-- The units that wait. -/
  queue : List Nat := []
  /-- The reasons for which the coming pulls fail. -/
  pullFailures : List String := []
  /-- How the processing of the coming batches ends. -/
  results : List ScriptedResult := []
  /-- The sizes that were asked for. -/
  pulls : List Nat := []
  /-- The batches that were processed. -/
  batches : List (List Nat) := []
deriving DecidableEq, Inhabited

namespace ScriptedWork

/-- Adds units to the queue. -/
def push (work : ScriptedWork) (units : List Nat) : ScriptedWork :=
  { work with queue := work.queue ++ units }

/-- Lets more pulls fail, after those that are to fail already. -/
def failPulls (work : ScriptedWork) (reasons : List String) : ScriptedWork :=
  { work with pullFailures := work.pullFailures ++ reasons }

/-- Sets the ends of more batches, after those that are set already. -/
def endWith (work : ScriptedWork) (results : List ScriptedResult) : ScriptedWork :=
  { work with results := work.results ++ results }

/-- Forgets what was asked. -/
def forget (work : ScriptedWork) : ScriptedWork := { work with pulls := [], batches := [] }

/-- Pulls units from the queue. -/
def pull (size : Nat) (work : ScriptedWork) : Except BatchError (List Nat) × ScriptedWork :=
  let work := { work with pulls := work.pulls ++ [size] }
  match work.pullFailures with
  | reason :: pullFailures => (.error (.source reason), { work with pullFailures })
  | [] => (.ok (work.queue.take size), { work with queue := work.queue.drop size })

/-- Ends the processing of a batch as scripted. -/
def process (batch : List Nat) (work : ScriptedWork) : Except BatchError Nat × ScriptedWork :=
  let work := { work with batches := work.batches ++ [batch] }
  match work.results with
  | [] => (.ok batch.length, work)
  | result :: results =>
      let work := { work with results }
      match result with
      | .whole => (.ok batch.length, work)
      | .count units => (.ok units, work)
      | .failure reason => (.error (.processing reason), work)

/-- The scripted source. -/
def source : WorkSource ScriptedWork Nat := ⟨pull, process⟩

end ScriptedWork

end Workflow
