/-
What each operation of the job ledger does.

An operation that succeeds was allowed by the state of the job it is about, and `get?` says what
the ledger holds afterwards: the job in its new state, nothing in its place when it ended, and
every other job as it was.  The order of the entries is never looked at.
-/
import Workflow.Job.Ledger

namespace Workflow

namespace JobLedger

variable {ledger after : JobLedger} {key : Nat} {job ended : Job}

/-! ### What is looked up -/

theorem get?_put (ledger : JobLedger) (job : Job) (key : Nat) :
    (ledger.put job).get? key = if key = job.key then some job else ledger.get? key :=
  SortedMap.get?_insert _ _ _ _

theorem get?_release (ledger : JobLedger) (job : Job) (key : Nat) :
    (ledger.release job).get? key = ledger.get? key := by
  unfold release
  cases job.deadline <;> rfl

theorem get?_remove (ledger : JobLedger) (job : Job) (key : Nat) :
    (ledger.remove job).get? key = if key = job.key then none else ledger.get? key := by
  show ((ledger.release job).jobs.erase job.key).get? key = _
  rw [SortedMap.get?_erase]
  exact congrArg _ (get?_release ledger job key)

/-- A job under a lease. -/
def leased (worker : String) (deadline : Instant) (job : Job) : Job :=
  { job with
    state := .activated
    worker := some worker
    deadline := some deadline
    eligibleAt := none }

/-- A job after its lease was reclaimed. -/
def freed (job : Job) : Job :=
  { job with state := .activatable, worker := none, deadline := none }

/-- A job with other retries. -/
def retried (retries : Nat) (job : Job) : Job := { job with retries }

/-- A job that had failed, with new retries. -/
def revived (retries : Nat) (job : Job) : Job :=
  { job with retries, state := .activatable, eligibleAt := none }

theorem get?_lease (ledger : JobLedger) (worker : String) (deadline : Instant) (leasedKey : Nat) :
    (ledger.lease worker deadline leasedKey).get? key =
      if key = leasedKey then (ledger.get? key).map (leased worker deadline)
      else ledger.get? key :=
  SortedMap.get?_modify _ _ _ _

/-- Leasing several jobs leases each of them. -/
theorem get?_foldl_lease (worker : String) (deadline : Instant) (keys : List Nat) :
    ∀ ledger : JobLedger,
      (keys.foldl (fun l key => l.lease worker deadline key) ledger).get? key =
        if key ∈ keys then (ledger.get? key).map (leased worker deadline) else ledger.get? key := by
  induction keys with
  | nil => intro ledger; simp
  | cons first rest ih =>
      intro ledger
      rw [List.foldl_cons, ih, get?_lease]
      by_cases hfirst : key = first
      · subst hfirst
        simp only [if_true, List.mem_cons, true_or]
        by_cases hrest : key ∈ rest
        · rw [if_pos hrest, Option.map_map]
          rfl
        · rw [if_neg hrest]
      · simp only [hfirst, if_false, List.mem_cons, false_or]

/-- What is offered is activatable. -/
theorem state_of_mem_offeredKeys {jobType : String} {max : Nat} {now : Instant}
    (h : key ∈ ledger.offeredKeys jobType max now) :
    ∃ job, ledger.get? key = some job ∧ job.isOffered jobType now := by
  obtain ⟨entry, hentry, rfl⟩ := List.mem_map.mp h
  obtain ⟨hmem, hoffered⟩ := List.mem_filter.mp (List.mem_of_mem_take hentry)
  exact ⟨entry.2, (SortedMap.mem_toList_iff _ _ _).mp hmem, hoffered⟩

/-- Activation leases what is offered and leaves every other job as it is. -/
theorem get?_activate (ledger : JobLedger) (jobType worker : String) (timeout : Duration)
    (max : Nat) (now : Instant) :
    (ledger.activate jobType worker timeout max now).2.get? key =
      if key ∈ ledger.offeredKeys jobType max now then
        (ledger.get? key).map (leased worker (now.add timeout))
      else ledger.get? key :=
  get?_foldl_lease worker (now.add timeout) _ ledger

/-! ### When an operation succeeds -/

theorem find_ok {operation : JobOperation} (h : ledger.find key operation = .ok job) :
    ledger.get? key = some job := by
  unfold find at h
  cases hget : ledger.get? key with
  | none => rw [hget] at h; cases h
  | some found => rw [hget] at h; cases h; rfl

theorem findActivated_ok {operation : JobOperation}
    (h : ledger.findActivated key operation = .ok job) :
    ledger.get? key = some job ∧ job.state = .activated := by
  unfold findActivated at h
  cases hfind : ledger.find key operation with
  | error cause => rw [hfind] at h; cases h
  | ok found =>
      rw [hfind] at h
      change (if found.state = .activated then _ else _) = _ at h
      by_cases hstate : found.state = .activated
      · rw [if_pos hstate] at h
        cases h
        exact ⟨find_ok hfind, hstate⟩
      · rw [if_neg hstate] at h
        cases h

theorem complete_ok (h : ledger.complete key = .ok (ended, after)) :
    ∃ job, ledger.get? key = some job ∧ job.state = .activated ∧
      ended = { job with state := .completed } ∧ after = ledger.remove job := by
  unfold complete at h
  cases hfind : ledger.findActivated key .complete with
  | error cause => rw [hfind] at h; cases h
  | ok job =>
      rw [hfind] at h
      cases h
      obtain ⟨hget, hstate⟩ := findActivated_ok hfind
      exact ⟨job, hget, hstate, rfl, rfl⟩

theorem fail_ok {backoff : Option Duration} {errorMessage : Option String} {now : Instant}
    (h : ledger.fail key backoff errorMessage now = .ok (ended, after)) :
    ∃ job, ledger.get? key = some job ∧ job.state = .activated ∧
      ended = failedJob job backoff errorMessage now ∧ after = (ledger.release job).put ended := by
  unfold fail at h
  cases hfind : ledger.findActivated key .fail with
  | error cause => rw [hfind] at h; cases h
  | ok job =>
      rw [hfind] at h
      cases h
      obtain ⟨hget, hstate⟩ := findActivated_ok hfind
      exact ⟨job, hget, hstate, rfl, rfl⟩

/-- A failure leaves a job with retries activatable, and one without failed. -/
theorem failedJob_cases (job : Job) (backoff : Option Duration) (errorMessage : Option String)
    (now : Instant) :
    (failedJob job backoff errorMessage now).key = job.key ∧
      (((failedJob job backoff errorMessage now).state = .activatable ∧
          (failedJob job backoff errorMessage now).retries ≠ 0) ∨
        ((failedJob job backoff errorMessage now).state = .failed ∧
          (failedJob job backoff errorMessage now).retries = 0)) := by
  unfold failedJob
  dsimp only
  by_cases hleft : 0 < job.retries - 1
  · rw [if_pos hleft]
    exact ⟨rfl, .inl ⟨rfl, Nat.ne_of_gt hleft⟩⟩
  · rw [if_neg hleft]
    exact ⟨rfl, .inr ⟨rfl, Nat.eq_zero_of_not_pos hleft⟩⟩

theorem timeOut_ok {observed now : Instant}
    (h : ledger.timeOut key observed now = .ok (ended, after)) :
    ∃ job, ledger.get? key = some job ∧ job.state = .activated ∧ job.deadline = some observed ∧
      observed < now ∧
      ended = { job with state := .activatable, worker := none, deadline := none } ∧
      after = { ledger.put ended with leases := ledger.leases.erase ⟨observed, key⟩ } := by
  unfold timeOut at h
  cases hfind : ledger.find key .timeOut with
  | error cause => rw [hfind] at h; cases h
  | ok job =>
      rw [hfind] at h
      change (if job.state ≠ .activated then _ else _) = _ at h
      by_cases hstate : job.state = .activated
      · rw [if_neg (not_not_intro hstate)] at h
        by_cases hdeadline : job.deadline = some observed
        · rw [if_neg (not_not_intro hdeadline)] at h
          by_cases hlate : now ≤ observed
          · rw [if_pos hlate] at h
            cases h
          · rw [if_neg hlate] at h
            cases h
            exact ⟨job, find_ok hfind, hstate, hdeadline, (Instant.not_le _ _).mp hlate, rfl, rfl⟩
        · rw [if_pos hdeadline] at h
          cases h
      · rw [if_pos hstate] at h
        cases h

/-- New retries revive a job that had failed, if there are any, and only then. -/
theorem updateRetries_cases {retries : Nat} {answer : Bool}
    (h : ledger.updateRetries key retries = .ok (answer, after)) :
    ∃ job, ledger.get? key = some job ∧
      (((job.state = .failed ∧ 0 < retries) ∧ answer = true ∧
          after = ledger.put (revived retries job)) ∨
        (¬ (job.state = .failed ∧ 0 < retries) ∧ answer = false ∧
          after = ledger.put (retried retries job))) := by
  unfold updateRetries at h
  cases hfind : ledger.find key .updateRetries with
  | error cause => rw [hfind] at h; cases h
  | ok job =>
      rw [hfind] at h
      change (if job.state = .failed ∧ 0 < retries then _ else _) = _ at h
      refine ⟨job, find_ok hfind, ?_⟩
      by_cases hrevived : job.state = .failed ∧ 0 < retries
      · rw [if_pos hrevived] at h
        cases h
        exact .inl ⟨hrevived, rfl, rfl⟩
      · rw [if_neg hrevived] at h
        cases h
        exact .inr ⟨hrevived, rfl, rfl⟩

theorem updateRetries_ok {retries : Nat} {answer : Bool} (hpos : 0 < retries)
    (h : ledger.updateRetries key retries = .ok (answer, after)) :
    ∃ job, ledger.get? key = some job ∧
      ((job.state = .failed ∧ answer = true ∧
          after = ledger.put { job with retries, state := .activatable, eligibleAt := none }) ∨
        (job.state ≠ .failed ∧ answer = false ∧ after = ledger.put { job with retries })) := by
  obtain ⟨job, hget, ⟨hrevived, hanswer, hafter⟩ | ⟨hother, hanswer, hafter⟩⟩ :=
    updateRetries_cases h
  · exact ⟨job, hget, .inl ⟨hrevived.1, hanswer, hafter⟩⟩
  · exact ⟨job, hget, .inr ⟨fun hstate => hother ⟨hstate, hpos⟩, hanswer, hafter⟩⟩

theorem cancel_ok (h : ledger.cancel key = .ok (ended, after)) :
    ∃ job, ledger.get? key = some job ∧
      ended = { job with state := .canceled, deadline := none } ∧ after = ledger.remove job := by
  unfold cancel at h
  cases hfind : ledger.find key .cancel with
  | error cause => rw [hfind] at h; cases h
  | ok job =>
      rw [hfind] at h
      cases h
      exact ⟨job, find_ok hfind, rfl, rfl⟩

/-- A job that is created under a new key is offered at once. -/
theorem create_new (hnew : ledger.get? key = none) (request : JobPayload) :
    (ledger.create key request).1 = Job.ofPayload key request ∧
      (ledger.create key request).2.markActivatable key =
        some ({ Job.ofPayload key request with state := .activatable },
          (ledger.put (Job.ofPayload key request)).put
            { Job.ofPayload key request with state := .activatable }) := by
  have hcreate : ledger.create key request =
      (Job.ofPayload key request, ledger.put (Job.ofPayload key request)) := by
    unfold create
    rw [hnew]
  rw [hcreate]
  refine ⟨rfl, ?_⟩
  unfold markActivatable
  rw [get?_put]
  simp only [Job.ofPayload, if_true]
  rfl

end JobLedger

end Workflow
