/-
The live jobs of a partition.

The ledger keeps the jobs by key and, beside them, the leases ordered by deadline and key.  Every
operation on one job answers with an error or with a new ledger, so a refused operation changes
nothing.  Completed and canceled jobs leave the ledger.
-/
import Workflow.Job.Basic
import Workflow.Sorted.Map
import Workflow.Sorted.Set

namespace Workflow

/-- A job that is leased until a deadline. -/
structure Lease where
  /-- When the lease ends. -/
  deadline : Instant
  /-- The job. -/
  key : Nat
deriving DecidableEq, Inhabited

namespace Lease

instance : LT Lease where
  lt a b := a.deadline < b.deadline ∨ (a.deadline = b.deadline ∧ a.key < b.key)

theorem lt_iff (a b : Lease) :
    a < b ↔ a.deadline < b.deadline ∨ (a.deadline = b.deadline ∧ a.key < b.key) := Iff.rfl

instance : DecidableLT Lease := fun a b => decidable_of_iff _ (lt_iff a b).symm

theorem ext_iff (a b : Lease) : a = b ↔ a.deadline = b.deadline ∧ a.key = b.key := by
  cases a; cases b; simp

instance : StrictOrder Lease where
  irrefl a := by simp only [lt_iff, Instant.lt_iff]; omega
  trans {a b c} := by simp only [lt_iff, Instant.lt_iff, Instant.ext_iff]; omega
  connected a b := by simp only [lt_iff, ext_iff, Instant.lt_iff, Instant.ext_iff]; omega

end Lease

/-- The live jobs and their leases. -/
structure JobLedger where
  /-- The jobs by key. -/
  jobs : SortedMap Nat Job
  /-- The leases, the earliest deadline first. -/
  leases : SortedSet Lease

namespace JobLedger

/-- The ledger without jobs. -/
def empty : JobLedger := ⟨.empty, .empty⟩

instance : Inhabited JobLedger := ⟨empty⟩

/-- The job with a key. -/
def get? (ledger : JobLedger) (key : Nat) : Option Job := ledger.jobs.get? key

/-- The jobs in key order. -/
def all (ledger : JobLedger) : List Job := ledger.jobs.values

/-- How many jobs there are. -/
def size (ledger : JobLedger) : Nat := ledger.jobs.size

/-- Puts a job in the place of the one with its key. -/
def put (ledger : JobLedger) (job : Job) : JobLedger :=
  { ledger with jobs := ledger.jobs.insert job.key job }

/-- Gives up the lease of a job. -/
def release (ledger : JobLedger) (job : Job) : JobLedger :=
  match job.deadline with
  | some deadline => { ledger with leases := ledger.leases.erase ⟨deadline, job.key⟩ }
  | none => ledger

/-- Removes a job together with its lease. -/
def remove (ledger : JobLedger) (job : Job) : JobLedger :=
  let released := ledger.release job
  { released with jobs := released.jobs.erase job.key }

/-- The job that an operation is about. -/
def find (ledger : JobLedger) (key : Nat) (operation : JobOperation) : Except JobError Job :=
  match ledger.get? key with
  | some job => .ok job
  | none => .error (.notFound key operation)

/-- The leased job that an operation is about. -/
def findActivated (ledger : JobLedger) (key : Nat) (operation : JobOperation) :
    Except JobError Job := do
  let job ← ledger.find key operation
  if job.state = .activated then .ok job else .error (.invalidState key job.state operation)

/-- Creates a job; a job with the same key stays as it is. -/
def create (ledger : JobLedger) (key : Nat) (value : JobPayload) : Job × JobLedger :=
  match ledger.get? key with
  | some job => (job, ledger)
  | none =>
      let job := Job.ofPayload key value
      (job, ledger.put job)

/-- Offers a created job to workers; a job in another state stays as it is. -/
def markActivatable (ledger : JobLedger) (key : Nat) : Option (Job × JobLedger) :=
  (ledger.get? key).map fun job =>
    if job.state = .created then
      let offered := { job with state := .activatable }
      (offered, ledger.put offered)
    else (job, ledger)

/-- The keys of the first jobs, at most `max`, that a worker may have. -/
def offeredKeys (ledger : JobLedger) (jobType : String) (max : Nat) (now : Instant) : List Nat :=
  ((ledger.jobs.toList.filter fun entry => entry.2.isOffered jobType now).take max).map Prod.fst

/-- Leases one job to a worker. -/
def lease (ledger : JobLedger) (worker : String) (deadline : Instant) (key : Nat) : JobLedger :=
  { jobs := ledger.jobs.modify key fun job =>
      { job with
        state := .activated
        worker := some worker
        deadline := some deadline
        eligibleAt := none }
    leases := ledger.leases.insert ⟨deadline, key⟩ }

/-- Leases the first jobs of a type that are offered, at most `max`, in key order. -/
def activate (ledger : JobLedger) (jobType worker : String) (timeout : Duration) (max : Nat)
    (now : Instant) : List Nat × JobLedger :=
  let keys := ledger.offeredKeys jobType max now
  (keys, keys.foldl (fun l key => l.lease worker (now.add timeout) key) ledger)

/-- Completes a leased job, which leaves the ledger. -/
def complete (ledger : JobLedger) (key : Nat) : Except JobError (Job × JobLedger) := do
  let job ← ledger.findActivated key .complete
  .ok ({ job with state := .completed }, ledger.remove job)

/-- A leased job after a failure: one retry less, and failed if none is left. -/
def failedJob (job : Job) (backoff : Option Duration) (errorMessage : Option String)
    (now : Instant) : Job :=
  let retries := job.retries - 1
  let ended := { job with retries, worker := none, deadline := none, errorMessage }
  if 0 < retries then
    { ended with
      state := .activatable
      eligibleAt := (backoff.filter fun pause => !pause.isZero).map fun pause => now.add pause }
  else { ended with state := .failed }

/-- Fails a leased job. -/
def fail (ledger : JobLedger) (key : Nat) (backoff : Option Duration) (errorMessage : Option String)
    (now : Instant) : Except JobError (Job × JobLedger) := do
  let job ← ledger.findActivated key .fail
  let failed := failedJob job backoff errorMessage now
  .ok (failed, (ledger.release job).put failed)

/-- Reclaims a lease that was seen to expire, if the job is still under it and it is over. -/
def timeOut (ledger : JobLedger) (key : Nat) (observed now : Instant) :
    Except JobError (Job × JobLedger) := do
  let job ← ledger.find key .timeOut
  if job.state ≠ .activated then .error (.staleTimeout key observed (.notActivated job.state))
  else if job.deadline ≠ some observed then .error (.staleTimeout key observed .activatedAgain)
  else if now ≤ observed then .error (.staleTimeout key observed .notExpired)
  else
    let freed := { job with state := .activatable, worker := none, deadline := none }
    .ok (freed, { ledger.put freed with leases := ledger.leases.erase ⟨observed, key⟩ })

/-- Sets the retries of a job, and tells whether that revived it after it had failed. -/
def updateRetries (ledger : JobLedger) (key : Nat) (retries : Nat) :
    Except JobError (Bool × JobLedger) := do
  let job ← ledger.find key .updateRetries
  if job.state = .failed ∧ 0 < retries then
    .ok (true, ledger.put { job with retries, state := .activatable, eligibleAt := none })
  else .ok (false, ledger.put { job with retries })

/-- Cancels a job, which leaves the ledger. -/
def cancel (ledger : JobLedger) (key : Nat) : Except JobError (Job × JobLedger) := do
  let job ← ledger.find key .cancel
  .ok ({ job with state := .canceled, deadline := none }, ledger.remove job)

/-- The leases that ended before `now`, the earliest first. -/
def expiredLeases (ledger : JobLedger) (now : Instant) : List Lease :=
  ledger.leases.toList.takeWhile fun lease => decide (lease.deadline < now)

/-- Whether a job is leased until a deadline. -/
def holdsLease (ledger : JobLedger) (key : Nat) (deadline : Instant) : Bool :=
  ledger.leases.contains ⟨deadline, key⟩

end JobLedger

end Workflow
