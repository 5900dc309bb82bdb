/-
The operations on jobs as procedures that work in place.

A ledger that is kept in memory is not replaced by an operation, it is written to step by step:
the lease is given up, then the job is looked up, then it is taken out, and any of these steps may
find that the operation is not allowed.  A procedure that is refused on the way leaves the ledger
as it is by then.

The lemmas named `run_...` say that this makes no difference.  Run on a ledger that stores each job
under its own key, a procedure gives what the operation gives, and a refused one leaves everything
as it was.  For activation that is a statement about a walk: going over the jobs one by one, leasing
on the way and passing over the rest once there are enough, takes the first jobs on offer.
-/
import Workflow.Proofs.Job.Booking

namespace Workflow

/-! ### Two ledgers -/

namespace JobLedger

/-- Two ledgers with the same jobs and the same leases are the same. -/
theorem ext_contents {ledger other : JobLedger} (hjobs : ∀ key, ledger.get? key = other.get? key)
    (hleases : ∀ lease, lease ∈ ledger.leases ↔ lease ∈ other.leases) : ledger = other := by
  have hsame : ledger.jobs = other.jobs := SortedMap.ext_get? hjobs
  have hsame' : ledger.leases = other.leases := SortedSet.ext_mem hleases
  cases ledger
  cases other
  simp only at hsame hsame'
  rw [hsame, hsame']

/-- Every job is stored under its own key. -/
def Keyed (ledger : JobLedger) : Prop := ∀ key job, ledger.get? key = some job → job.key = key

/-- Writing to a job twice leaves what was written last. -/
theorem put_put (ledger : JobLedger) {job final : Job} (hkey : final.key = job.key) :
    (ledger.put job).put final = ledger.put final := by
  refine ext_contents (fun key => ?_) fun lease => Iff.rfl
  rw [get?_put, get?_put, get?_put, hkey]
  by_cases h : key = job.key
  · rw [if_pos h, if_pos h]
  · rw [if_neg h, if_neg h, if_neg h]

/-- A job whose retries were updated is in the ledger. -/
theorem exists_updateRetries {ledger after : JobLedger} {key retries : Nat}
    {revived : Bool} (hkeyed : ledger.Keyed)
    (h : ledger.updateRetries key retries = .ok (revived, after)) :
    ∃ job, after.get? key = some job ∧ job.key = key := by
  obtain ⟨job, hget, ⟨-, -, rfl⟩ | ⟨-, -, rfl⟩⟩ := updateRetries_cases h
  · exact ⟨_, (get?_put _ _ _).trans (if_pos (hkeyed key job hget).symm), hkeyed key job hget⟩
  · exact ⟨_, (get?_put _ _ _).trans (if_pos (hkeyed key job hget).symm), hkeyed key job hget⟩

/-- A lease is given up once. -/
theorem release_release (ledger : JobLedger) (job : Job) :
    (ledger.release job).release job = ledger.release job := by
  refine ext_contents (fun key => get?_release _ _ _) fun lease => ?_
  unfold release
  cases hdeadline : job.deadline with
  | none => rfl
  | some deadline =>
      simp only [SortedSet.mem_erase]
      exact and_iff_left_of_imp And.right

/-! ### The job that an operation is about -/

section Found

variable {ledger : JobLedger} {key : Nat} {job : Job} {operation : JobOperation}

theorem find_stored (hget : ledger.get? key = some job) : ledger.find key operation = .ok job := by
  rw [find, hget]

theorem find_absent (hget : ledger.get? key = none) :
    ledger.find key operation = .error (.notFound key operation) := by
  rw [find, hget]

theorem findActivated_leased (hget : ledger.get? key = some job)
    (hstate : job.state = .activated) : ledger.findActivated key operation = .ok job := by
  rw [findActivated, find_stored hget]
  exact if_pos hstate

theorem findActivated_other (hget : ledger.get? key = some job)
    (hstate : job.state ≠ .activated) :
    ledger.findActivated key operation = .error (.invalidState key job.state operation) := by
  rw [findActivated, find_stored hget]
  exact if_neg hstate

theorem findActivated_absent (hget : ledger.get? key = none) :
    ledger.findActivated key operation = .error (.notFound key operation) := by
  rw [findActivated, find_absent hget]
  rfl

end Found

end JobLedger

/-! ### Steps -/

/-- A procedure that works on a ledger in place. -/
abbrev Procedure (α : Type) := EStateM JobError JobLedger α

namespace Procedure

/-- Looks up the job that an operation is about. -/
def find (key : Nat) (operation : JobOperation) : Procedure Job := do
  match (← get).get? key with
  | some job => return job
  | none => throw (.notFound key operation)

/-- Goes on only if a condition holds. -/
def require (condition : Prop) [Decidable condition] (cause : JobError) : Procedure Unit :=
  if condition then return () else throw cause

/-- Goes on only if the job is in the state that the operation needs. -/
def expect (key : Nat) (state : JobState) (operation : JobOperation) : Procedure Unit := do
  let job ← find key operation
  require (job.state = state) (.invalidState key job.state operation)

/-- Takes the lease of a job away, if it is under one. -/
def release (key : Nat) : Procedure Unit := do
  if let some deadline := ((← get).get? key).bind Job.deadline then
    modify fun ledger => { ledger with leases := ledger.leases.erase ⟨deadline, key⟩ }

/-- Writes to a job. -/
def write (key : Nat) (job : Job) : Procedure Unit :=
  modify fun ledger => { ledger with jobs := ledger.jobs.insert key job }

/-- Takes a job out, its lease first. -/
def remove (key : Nat) (operation : JobOperation) : Procedure Job := do
  release key
  let job ← find key operation
  modify fun ledger => { ledger with jobs := ledger.jobs.erase key }
  return job

/-! ### Operations -/

/-- Creates a job, unless there is one with the key. -/
def create (key : Nat) (value : JobPayload) : Procedure Job := do
  match (← get).get? key with
  | some job => return job
  | none =>
      write key (Job.ofPayload key value)
      return Job.ofPayload key value

/-- Offers a created job to workers. -/
def markActivatable (key : Nat) : Procedure (Option Job) := do
  match (← get).get? key with
  | none => return none
  | some job =>
      if job.state = .created then
        write key { job with state := .activatable }
        return some { job with state := .activatable }
      else return some job

/-- Looks at one job and leases it if it is on offer, unless enough are leased already. -/
def visit (jobType worker : String) (deadline : Instant) (max : Nat) (now : Instant)
    (taken : List Nat) (key : Nat) : Procedure (List Nat) := do
  if max ≤ taken.length then return taken
  match (← get).get? key with
  | none => return taken
  | some job =>
      if job.isOffered jobType now then
        modify fun ledger => ledger.lease worker deadline key
        return taken ++ [key]
      else return taken

/-- Goes over the jobs in key order and leases those on offer until there are enough. -/
def activate (jobType worker : String) (timeout : Duration) (max : Nat) (now : Instant) :
    Procedure (List Nat) := do
  (← get).jobs.keys.foldlM (visit jobType worker (now.add timeout) max now) []

/-- Completes a leased job. -/
def complete (key : Nat) : Procedure Job := do
  expect key .activated .complete
  let job ← remove key .complete
  return { job with state := .completed }

/-- Fails a leased job, whose lease is given up first. -/
def fail (key : Nat) (backoff : Option Duration) (errorMessage : Option String) (now : Instant) :
    Procedure Job := do
  expect key .activated .fail
  release key
  let job ← find key .fail
  write key (JobLedger.failedJob job backoff errorMessage now)
  return JobLedger.failedJob job backoff errorMessage now

/-- Reclaims a lease: the job is freed before the lease is taken away. -/
def timeOut (key : Nat) (observed now : Instant) : Procedure Job := do
  let job ← find key .timeOut
  require (job.state = .activated) (.staleTimeout key observed (.notActivated job.state))
  require (job.deadline = some observed) (.staleTimeout key observed .activatedAgain)
  require (¬ now ≤ observed) (.staleTimeout key observed .notExpired)
  write key (JobLedger.freed job)
  modify fun ledger => { ledger with leases := ledger.leases.erase ⟨observed, key⟩ }
  find key .timeOut

/-- Sets the retries of a job, and revives it if it had failed. -/
def updateRetries (key retries : Nat) : Procedure Bool := do
  let job ← find key .updateRetries
  write key (JobLedger.retried retries job)
  if job.state = .failed ∧ 0 < retries then
    write key (JobLedger.revived retries job)
    return true
  return false

/-- Cancels a job; the lease is given up before it is known whether there is such a job. -/
def cancel (key : Nat) : Procedure Job := do
  release key
  let job ← remove key .cancel
  return { job with state := .canceled, deadline := none }

/-! ### What the steps do -/

section Steps

variable {ledger : JobLedger} {key : Nat} {job : Job} {operation : JobOperation}

theorem run_find (hget : ledger.get? key = some job) :
    (find key operation).run ledger = .ok job ledger := by
  simp [find, hget]

theorem run_find_none (hget : ledger.get? key = none) :
    (find key operation).run ledger = .error (.notFound key operation) ledger := by
  simp only [find, EStateM.run_bind, EStateM.run_get, hget]
  rfl

theorem run_require {condition : Prop} [Decidable condition] (h : condition) (cause : JobError) :
    (require condition cause).run ledger = .ok () ledger := by
  rw [require, if_pos h]
  rfl

theorem run_require_not {condition : Prop} [Decidable condition] (h : ¬ condition)
    (cause : JobError) : (require condition cause).run ledger = .error cause ledger := by
  rw [require, if_neg h]
  rfl

theorem run_expect (hget : ledger.get? key = some job) {state : JobState}
    (hstate : job.state = state) : (expect key state operation).run ledger = .ok () ledger := by
  simp only [expect, EStateM.run_bind, run_find hget, run_require hstate]

theorem run_expect_other (hget : ledger.get? key = some job) {state : JobState}
    (hstate : job.state ≠ state) : (expect key state operation).run ledger =
      .error (.invalidState key job.state operation) ledger := by
  simp only [expect, EStateM.run_bind, run_find hget, run_require_not hstate]

theorem run_expect_none (hget : ledger.get? key = none) {state : JobState} :
    (expect key state operation).run ledger = .error (.notFound key operation) ledger := by
  simp only [expect, EStateM.run_bind, run_find_none hget]

theorem run_release (hkeyed : ledger.Keyed) (hget : ledger.get? key = some job) :
    (release key).run ledger = .ok () (ledger.release job) := by
  have hkey := hkeyed key job hget
  cases hdeadline : job.deadline <;> simp [release, JobLedger.release, hget, hdeadline, hkey]

theorem run_release_none (hget : ledger.get? key = none) :
    (release key).run ledger = .ok () ledger := by
  simp [release, hget]

theorem run_write (hkey : job.key = key) :
    (write key job).run ledger = .ok () (ledger.put job) := by
  rw [JobLedger.put, hkey]
  rfl

theorem run_remove (hkeyed : ledger.Keyed) (hget : ledger.get? key = some job) :
    (remove key operation).run ledger = .ok job (ledger.remove job) := by
  have hfind : (find key operation).run (ledger.release job) = .ok job (ledger.release job) :=
    run_find (by rw [JobLedger.get?_release, hget])
  simp only [remove, EStateM.run_bind, run_release hkeyed hget, hfind]
  rw [JobLedger.remove, hkeyed key job hget]
  rfl

end Steps

/-! ### What the operations do -/

/-- What an operation of the ledger gives, as a procedure would: one that was refused has left the
ledger as it was. -/
def settled {α : Type} (ledger : JobLedger) :
    Except JobError (α × JobLedger) → EStateM.Result JobError JobLedger α
  | .ok (answer, after) => .ok answer after
  | .error cause => .error cause ledger

section Operations

variable {ledger : JobLedger}

theorem run_create (ledger : JobLedger) (key : Nat) (value : JobPayload) :
    (create key value).run ledger =
      .ok (ledger.create key value).1 (ledger.create key value).2 := by
  unfold JobLedger.create
  cases hget : ledger.get? key with
  | some job => simp [create, hget]
  | none =>
      simp only [create, EStateM.run_bind, EStateM.run_get, hget]
      rfl

theorem run_markActivatable (hkeyed : ledger.Keyed) (key : Nat) :
    (markActivatable key).run ledger =
      .ok ((ledger.markActivatable key).map Prod.fst)
        (((ledger.markActivatable key).map Prod.snd).getD ledger) := by
  unfold JobLedger.markActivatable
  cases hget : ledger.get? key with
  | none => simp [markActivatable, hget]
  | some job =>
      simp only [markActivatable, EStateM.run_bind, EStateM.run_get, hget, Option.map_some]
      by_cases hstate : job.state = .created
      · rw [if_pos hstate, if_pos hstate, JobLedger.put, hkeyed key job hget]
        rfl
      · rw [if_neg hstate, if_neg hstate]
        rfl

theorem run_complete (hkeyed : ledger.Keyed) (key : Nat) :
    (complete key).run ledger = settled ledger (ledger.complete key) := by
  unfold JobLedger.complete
  cases hget : ledger.get? key with
  | none =>
      rw [JobLedger.findActivated_absent hget]
      simp only [complete, EStateM.run_bind, run_expect_none hget]
      rfl
  | some job =>
      by_cases hstate : job.state = .activated
      · rw [JobLedger.findActivated_leased hget hstate]
        simp only [complete, EStateM.run_bind, run_expect hget hstate, run_remove hkeyed hget]
        rfl
      · rw [JobLedger.findActivated_other hget hstate]
        simp only [complete, EStateM.run_bind, run_expect_other hget hstate]
        rfl

theorem run_fail (hkeyed : ledger.Keyed) (key : Nat) (backoff : Option Duration)
    (errorMessage : Option String) (now : Instant) :
    (fail key backoff errorMessage now).run ledger =
      settled ledger (ledger.fail key backoff errorMessage now) := by
  unfold JobLedger.fail
  cases hget : ledger.get? key with
  | none =>
      rw [JobLedger.findActivated_absent hget]
      simp only [fail, EStateM.run_bind, run_expect_none hget]
      rfl
  | some job =>
      by_cases hstate : job.state = .activated
      · have hfind : (find key .fail).run (ledger.release job) = .ok job (ledger.release job) :=
          run_find (by rw [JobLedger.get?_release, hget])
        rw [JobLedger.findActivated_leased hget hstate]
        simp only [fail, EStateM.run_bind, run_expect hget hstate, run_release hkeyed hget, hfind]
        show EStateM.Result.ok _ _ = EStateM.Result.ok _ ((ledger.release job).put _)
        rw [JobLedger.put, (JobLedger.failedJob_cases job backoff errorMessage now).1,
          hkeyed key job hget]
      · rw [JobLedger.findActivated_other hget hstate]
        simp only [fail, EStateM.run_bind, run_expect_other hget hstate]
        rfl

theorem run_timeOut (hkeyed : ledger.Keyed) (key : Nat) (observed now : Instant) :
    (timeOut key observed now).run ledger =
      settled ledger (ledger.timeOut key observed now) := by
  unfold JobLedger.timeOut
  cases hget : ledger.get? key with
  | none =>
      rw [JobLedger.find_absent hget]
      simp only [timeOut, EStateM.run_bind, run_find_none hget]
      rfl
  | some job =>
      rw [JobLedger.find_stored hget]
      show _ = settled ledger (if job.state ≠ .activated then _ else _)
      by_cases hstate : job.state = .activated
      · rw [if_neg (not_not_intro hstate)]
        by_cases hdeadline : job.deadline = some observed
        · rw [if_neg (not_not_intro hdeadline)]
          by_cases hlate : now ≤ observed
          · rw [if_pos hlate]
            simp only [timeOut, EStateM.run_bind, run_find hget, run_require hstate,
              run_require hdeadline, run_require_not (not_not_intro hlate)]
            rfl
          · rw [if_neg hlate]
            -- The job is still there when it is looked up again.
            have hkey : (JobLedger.freed job).key = key := hkeyed key job hget
            have hfind : ∀ leases,
                (find key .timeOut).run ⟨(ledger.put (JobLedger.freed job)).jobs, leases⟩ =
                  .ok (JobLedger.freed job) ⟨(ledger.put (JobLedger.freed job)).jobs, leases⟩ :=
              fun leases => run_find ((JobLedger.get?_put _ _ _).trans (if_pos hkey.symm))
            simp only [timeOut, EStateM.run_bind, run_find hget, run_require hstate,
              run_require hdeadline, run_require hlate, run_write hkey, EStateM.run_modify, hfind]
            rfl
        · rw [if_pos hdeadline]
          simp only [timeOut, EStateM.run_bind, run_find hget, run_require hstate,
            run_require_not hdeadline]
          rfl
      · rw [if_pos hstate]
        simp only [timeOut, EStateM.run_bind, run_find hget, run_require_not hstate]
        rfl

theorem run_updateRetries (hkeyed : ledger.Keyed) (key retries : Nat) :
    (updateRetries key retries).run ledger =
      settled ledger (ledger.updateRetries key retries) := by
  unfold JobLedger.updateRetries
  cases hget : ledger.get? key with
  | none =>
      rw [JobLedger.find_absent hget]
      simp only [updateRetries, EStateM.run_bind, run_find_none hget]
      rfl
  | some job =>
      rw [JobLedger.find_stored hget]
      have hkey := hkeyed key job hget
      show _ = settled ledger (if job.state = .failed ∧ 0 < retries then _ else _)
      by_cases hrevived : job.state = .failed ∧ 0 < retries
      · have hlast : (ledger.put (JobLedger.retried retries job)).put
            (JobLedger.revived retries job) = ledger.put (JobLedger.revived retries job) :=
          JobLedger.put_put _ rfl
        simp only [updateRetries, EStateM.run_bind, run_find hget, if_pos hrevived,
          run_write (show (JobLedger.retried retries job).key = key from hkey),
          run_write (show (JobLedger.revived retries job).key = key from hkey), hlast]
        rfl
      · simp only [updateRetries, EStateM.run_bind, run_find hget, if_neg hrevived,
          run_write (show (JobLedger.retried retries job).key = key from hkey)]
        rfl

theorem run_cancel (hkeyed : ledger.Keyed) (key : Nat) :
    (cancel key).run ledger = settled ledger (ledger.cancel key) := by
  unfold JobLedger.cancel
  cases hget : ledger.get? key with
  | none =>
      rw [JobLedger.find_absent hget]
      have hremove : (remove key .cancel).run ledger = .error (.notFound key .cancel) ledger := by
        simp only [remove, EStateM.run_bind, run_release_none hget, run_find_none hget]
      simp only [cancel, EStateM.run_bind, run_release_none hget, hremove]
      rfl
  | some job =>
      have hremove :
          (remove key .cancel).run (ledger.release job) = .ok job (ledger.remove job) := by
        have hget' : (ledger.release job).get? key = some job := by
          rw [JobLedger.get?_release, hget]
        have hkeyed' : (ledger.release job).Keyed := fun k j h =>
          hkeyed k j ((JobLedger.get?_release _ _ _).symm.trans h)
        rw [run_remove hkeyed' hget']
        rw [JobLedger.remove, JobLedger.release_release]
        rfl
      rw [JobLedger.find_stored hget]
      simp only [cancel, EStateM.run_bind, run_release hkeyed hget, hremove]
      rfl

/-! ### Going over the jobs -/

/-- The keys of the jobs that are taken from a list when so many are taken already. -/
def takenFrom (jobType : String) (max : Nat) (now : Instant) (taken : Nat)
    (entries : List (Nat × Job)) : List Nat :=
  ((entries.filter fun entry => entry.2.isOffered jobType now).take (max - taken)).map Prod.fst

theorem takenFrom_enough {jobType : String} {max : Nat} {now : Instant} {taken : Nat}
    (henough : max ≤ taken) (entries : List (Nat × Job)) :
    takenFrom jobType max now taken entries = [] := by
  rw [takenFrom, Nat.sub_eq_zero_of_le henough, List.take_zero, List.map_nil]

theorem takenFrom_passed {jobType : String} {max : Nat} {now : Instant} {taken : Nat}
    {entry : Nat × Job} (hpassed : entry.2.isOffered jobType now = false)
    (entries : List (Nat × Job)) :
    takenFrom jobType max now taken (entry :: entries) =
      takenFrom jobType max now taken entries := by
  rw [takenFrom, List.filter_cons_of_neg (by simp [hpassed]), takenFrom]

theorem takenFrom_offered {jobType : String} {max : Nat} {now : Instant} {taken : Nat}
    {entry : Nat × Job} (hmore : taken < max) (hoffered : entry.2.isOffered jobType now = true)
    (entries : List (Nat × Job)) :
    takenFrom jobType max now taken (entry :: entries) =
      entry.1 :: takenFrom jobType max now (taken + 1) entries := by
  obtain ⟨more, hmax⟩ : ∃ more, max - taken = more + 1 := ⟨max - taken - 1, by omega⟩
  rw [takenFrom, List.filter_cons_of_pos (by simpa using hoffered), hmax, List.take_succ_cons,
    List.map_cons, takenFrom, show max - (taken + 1) = more from by omega]

/-- Going over the rest of the jobs takes those that the whole ledger offers next, because a job
that was leased on the way is behind. -/
theorem run_visits (jobType worker : String) (deadline : Instant) (max : Nat) (now : Instant)
    (entries : List (Nat × Job)) (hascending : entries.Pairwise fun a b => a.1 < b.1) :
    ∀ (taken : List Nat) (ledger : JobLedger),
      (∀ entry ∈ entries, ledger.get? entry.1 = some entry.2) →
      ((entries.map Prod.fst).foldlM (visit jobType worker deadline max now) taken).run ledger =
        .ok (taken ++ takenFrom jobType max now taken.length entries)
          ((takenFrom jobType max now taken.length entries).foldl
            (fun l key => l.lease worker deadline key) ledger) := by
  induction entries with
  | nil => intro taken ledger _; simp [takenFrom]
  | cons entry rest ih =>
      intro taken ledger hstored
      obtain ⟨hfirst, hrest⟩ := List.pairwise_cons.mp hascending
      have hget := hstored entry List.mem_cons_self
      have hothers := fun other ho => hstored other (List.mem_cons_of_mem entry ho)
      rw [List.map_cons, List.foldlM_cons, EStateM.run_bind]
      by_cases henough : max ≤ taken.length
      · have hvisit : (visit jobType worker deadline max now taken entry.1).run ledger =
            .ok taken ledger := by
          rw [visit, if_pos henough]
          rfl
        simp only [hvisit, ih hrest taken ledger hothers, takenFrom_enough henough]
      · have hvisit : (visit jobType worker deadline max now taken entry.1).run ledger =
            if entry.2.isOffered jobType now then
              .ok (taken ++ [entry.1]) (ledger.lease worker deadline entry.1)
            else .ok taken ledger := by
          simp only [visit, if_neg henough, EStateM.run_bind, EStateM.run_get, hget]
          by_cases hoffered : entry.2.isOffered jobType now
          · rw [if_pos hoffered, if_pos hoffered]
            rfl
          · rw [if_neg hoffered, if_neg hoffered]
            rfl
        rw [hvisit]
        by_cases hoffered : entry.2.isOffered jobType now
        · have hstored' : ∀ other ∈ rest,
              (ledger.lease worker deadline entry.1).get? other.1 = some other.2 := by
            intro other ho
            rw [JobLedger.get?_lease, if_neg (Nat.ne_of_gt (hfirst other ho)), hothers other ho]
          rw [if_pos hoffered, takenFrom_offered (Nat.lt_of_not_le henough) hoffered]
          simp only [ih hrest (taken ++ [entry.1]) _ hstored', List.length_append,
            List.length_singleton, List.append_assoc, List.singleton_append, List.foldl_cons]
        · rw [if_neg hoffered, takenFrom_passed (by simpa using hoffered)]
          simp only [ih hrest taken ledger hothers]

theorem run_activate (ledger : JobLedger) (jobType worker : String) (timeout : Duration)
    (max : Nat) (now : Instant) :
    (activate jobType worker timeout max now).run ledger =
      .ok (ledger.activate jobType worker timeout max now).1
        (ledger.activate jobType worker timeout max now).2 := by
  have hstored : ∀ entry ∈ ledger.jobs.toList, ledger.get? entry.1 = some entry.2 :=
    fun entry he => (SortedMap.mem_toList_iff _ _ _).mp he
  exact run_visits jobType worker (now.add timeout) max now ledger.jobs.toList
    ledger.jobs.ascending [] ledger hstored

end Operations

end Procedure

end Workflow
