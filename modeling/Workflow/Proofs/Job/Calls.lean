/-
Any sequence of operations leaves the jobs and their leases in order.

`JobCall` is a call of one of the eight operations with any arguments.  A call is carried out in
place (`procedure`) and is what the operation of the ledger says (`outcome`); the two agree on
every ledger that a sequence of calls leads to, so a refused call has changed nothing.

`Kept` is what every call keeps: beside the agreement of jobs and leases, what is asked of a single
job.  `Coherent` says that by the state of the job, and each way in which an operation writes to a
job has its own lemma there.
-/
import Workflow.Proofs.Job.InPlace

namespace Workflow

/-! ### Calls -/

/-- A call of an operation on jobs. -/
inductive JobCall where
  | create (key : Nat) (value : JobPayload)
  | markActivatable (key : Nat)
  | activate (jobType worker : String) (timeout : Duration) (max : Nat) (now : Instant)
  | complete (key : Nat)
  | fail (key : Nat) (backoff : Option Duration) (errorMessage : Option String) (now : Instant)
  | timeOut (key : Nat) (observed now : Instant)
  | updateRetries (key retries : Nat)
  | cancel (key : Nat)

/-- What a call answers. -/
inductive JobAnswer where
  /-- A job, or that there is none. -/
  | job (job? : Option Job)
  /-- The keys of the jobs that were leased. -/
  | leased (keys : List Nat)
  /-- Whether the job was revived. -/
  | revived (isRevived : Bool)

namespace JobCall

/-- The call carried out in place. -/
def procedure : JobCall → Procedure JobAnswer
  | .create key value => do return .job (← Procedure.create key value)
  | .markActivatable key => do return .job (← Procedure.markActivatable key)
  | .activate jobType worker timeout max now => do
      return .leased (← Procedure.activate jobType worker timeout max now)
  | .complete key => do return .job (← Procedure.complete key)
  | .fail key backoff errorMessage now => do
      return .job (← Procedure.fail key backoff errorMessage now)
  | .timeOut key observed now => do return .job (← Procedure.timeOut key observed now)
  | .updateRetries key retries => do return .revived (← Procedure.updateRetries key retries)
  | .cancel key => do return .job (← Procedure.cancel key)

/-- An answer in the words of calls, and the ledger with it. -/
def told {α : Type} (tell : α → JobAnswer) (result : Except JobError (α × JobLedger)) :
    Except JobError (JobAnswer × JobLedger) :=
  result.map (Prod.map tell id)

/-- What the operation that is called gives. -/
def outcome (ledger : JobLedger) : JobCall → Except JobError (JobAnswer × JobLedger)
  | .create key value => told (.job ∘ some) (.ok (ledger.create key value))
  | .markActivatable key =>
      .ok (.job ((ledger.markActivatable key).map Prod.fst),
        ((ledger.markActivatable key).map Prod.snd).getD ledger)
  | .activate jobType worker timeout max now =>
      told .leased (.ok (ledger.activate jobType worker timeout max now))
  | .complete key => told (.job ∘ some) (ledger.complete key)
  | .fail key backoff errorMessage now =>
      told (.job ∘ some) (ledger.fail key backoff errorMessage now)
  | .timeOut key observed now => told (.job ∘ some) (ledger.timeOut key observed now)
  | .updateRetries key retries => told .revived (ledger.updateRetries key retries)
  | .cancel key => told (.job ∘ some) (ledger.cancel key)

/-- The ledger as a call leaves it, whether it was refused or not. -/
def after (ledger : JobLedger) (call : JobCall) : JobLedger :=
  match call.procedure.run ledger with
  | .ok _ after => after
  | .error _ after => after

theorem run_told {α : Type} {ledger : JobLedger} {procedure : Procedure α}
    {result : Except JobError (α × JobLedger)} (tell : α → JobAnswer)
    (hrun : procedure.run ledger = Procedure.settled ledger result) :
    (do return tell (← procedure) : Procedure JobAnswer).run ledger =
      Procedure.settled ledger (told tell result) := by
  rw [EStateM.run_bind, hrun]
  cases result <;> rfl

/-- **A call that is carried out in place gives what the operation gives.** -/
theorem run_procedure {ledger : JobLedger} (hkeyed : ledger.Keyed) (call : JobCall) :
    call.procedure.run ledger = Procedure.settled ledger (call.outcome ledger) := by
  cases call with
  | create key value => exact run_told _ (Procedure.run_create ledger key value)
  | markActivatable key =>
      rw [procedure, EStateM.run_bind, Procedure.run_markActivatable hkeyed]
      rfl
  | activate jobType worker timeout max now =>
      exact run_told _ (Procedure.run_activate ledger jobType worker timeout max now)
  | complete key => exact run_told _ (Procedure.run_complete hkeyed key)
  | fail key backoff errorMessage now =>
      exact run_told _ (Procedure.run_fail hkeyed key backoff errorMessage now)
  | timeOut key observed now => exact run_told _ (Procedure.run_timeOut hkeyed key observed now)
  | updateRetries key retries => exact run_told _ (Procedure.run_updateRetries hkeyed key retries)
  | cancel key => exact run_told _ (Procedure.run_cancel hkeyed key)

/-- A call leaves what the operation leaves, or it was refused and leaves all as it was. -/
theorem after_cases {ledger : JobLedger} (hkeyed : ledger.Keyed) (call : JobCall) :
    (∃ answer, call.outcome ledger = .ok (answer, call.after ledger)) ∨
      ∃ cause, call.outcome ledger = .error cause ∧ call.after ledger = ledger := by
  rw [after, run_procedure hkeyed]
  cases houtcome : call.outcome ledger with
  | ok result => exact .inl ⟨result.1, rfl⟩
  | error cause => exact .inr ⟨cause, rfl, rfl⟩

theorem told_ok {α : Type} {tell : α → JobAnswer} {result : Except JobError (α × JobLedger)}
    {answer : JobAnswer} {ledger : JobLedger} (h : told tell result = .ok (answer, ledger)) :
    ∃ value, answer = tell value ∧ result = .ok (value, ledger) := by
  cases result with
  | error cause => cases h
  | ok given =>
      cases h
      exact ⟨given.1, rfl, rfl⟩

end JobCall

/-- The ledger after calls one after the other. -/
def JobLedger.afterCalls (ledger : JobLedger) (calls : List JobCall) : JobLedger :=
  calls.foldl JobCall.after ledger

/-! ### A single job -/

/-- What the state of a stored job says about the rest of it. -/
structure Job.Coherent (job : Job) : Prop where
  /-- A worker holds the job exactly while it is activated. -/
  worker : job.worker.isSome ↔ job.state = .activated
  /-- The same goes for the deadline. -/
  deadline : job.deadline.isSome ↔ job.state = .activated
  /-- Only a job that can be activated again waits for that. -/
  paused : job.eligibleAt.isSome → job.state = .activatable
  /-- A job that has failed is out of retries. -/
  exhausted : job.state = .failed → job.retries = 0
  /-- A job that is at its end is not stored. -/
  live : job.state.isTerminal = false

namespace Job.Coherent

open JobLedger

variable {job : Job}

theorem eligibleAt_eq_none (h : job.Coherent) (hstate : job.state ≠ .activatable) :
    job.eligibleAt = none :=
  Option.not_isSome_iff_eq_none.mp fun hsome => hstate (h.paused hsome)

theorem created (key : Nat) (value : JobPayload) : (Job.ofPayload key value).Coherent where
  worker := by simp [Job.ofPayload]
  deadline := by simp [Job.ofPayload]
  paused := by simp [Job.ofPayload]
  exhausted := by simp [Job.ofPayload]
  live := rfl

theorem offered (h : job.Coherent) (hstate : job.state = .created) :
    Coherent { job with state := .activatable } where
  worker := by simpa [hstate] using h.worker
  deadline := by simpa [hstate] using h.deadline
  paused := fun _ => rfl
  exhausted := by simp
  live := rfl

theorem leased (job : Job) (worker : String) (deadline : Instant) :
    (leased worker deadline job).Coherent where
  worker := by simp [JobLedger.leased]
  deadline := by simp [JobLedger.leased]
  paused := by simp [JobLedger.leased]
  exhausted := by simp [JobLedger.leased]
  live := rfl

theorem failed (h : job.Coherent) (hstate : job.state = .activated) (backoff : Option Duration)
    (errorMessage : Option String) (now : Instant) :
    (failedJob job backoff errorMessage now).Coherent := by
  have hnone : job.eligibleAt = none := h.eligibleAt_eq_none (by rw [hstate]; decide)
  unfold failedJob
  dsimp only
  by_cases hleft : 0 < job.retries - 1
  · rw [if_pos hleft]
    exact ⟨by simp, by simp, fun _ => rfl, by simp, rfl⟩
  · rw [if_neg hleft]
    exact ⟨by simp, by simp, by simp [hnone], fun _ => Nat.eq_zero_of_not_pos hleft, rfl⟩

theorem freed (job : Job) : (freed job).Coherent where
  worker := by simp [JobLedger.freed]
  deadline := by simp [JobLedger.freed]
  paused := fun _ => rfl
  exhausted := by simp [JobLedger.freed]
  live := rfl

theorem retried (h : job.Coherent) {retries : Nat} (hleft : ¬ (job.state = .failed ∧ 0 < retries)) :
    (retried retries job).Coherent where
  worker := h.worker
  deadline := h.deadline
  paused := h.paused
  exhausted := fun hstate => Nat.eq_zero_of_not_pos fun hpos => hleft ⟨hstate, hpos⟩
  live := h.live

theorem revived (h : job.Coherent) (hstate : job.state = .failed) (retries : Nat) :
    (revived retries job).Coherent where
  worker := by simpa [JobLedger.revived, hstate] using h.worker
  deadline := by simpa [JobLedger.revived, hstate] using h.deadline
  paused := fun _ => rfl
  exhausted := by simp [JobLedger.revived]
  live := rfl

end Job.Coherent

/-! ### The ledger -/

namespace JobLedger

/-- What every call keeps. -/
structure Kept (ledger : JobLedger) : Prop where
  /-- The leases are those that jobs are under. -/
  booked : ledger.Booked
  /-- Each job is coherent. -/
  coherent : ∀ key job, ledger.get? key = some job → job.Coherent

theorem kept_empty : Kept empty := ⟨booked_empty, fun _ _ h => by cases h⟩

namespace Kept

variable {ledger later : JobLedger} {key : Nat} {ended : Job}

theorem keyed (h : ledger.Kept) : ledger.Keyed := h.booked.key

/-- Writing to one job asks for coherence of that job alone. -/
theorem write (h : ledger.Kept) (hbooked : later.Booked) (written : Job)
    (hwritten : written.Coherent)
    (hget : ∀ key, later.get? key = ledger.get? key ∨ later.get? key = some written) :
    later.Kept := by
  refine ⟨hbooked, fun key job hjob => ?_⟩
  rcases hget key with hsame | hnew
  · exact h.coherent key job (hsame.symm.trans hjob)
  · rw [hnew] at hjob
    cases hjob
    exact hwritten

theorem put (h : ledger.Kept) {written : Job} (hbooked : (ledger.put written).Booked)
    (hwritten : written.Coherent) : (ledger.put written).Kept := by
  refine h.write hbooked written hwritten fun key => ?_
  rw [get?_put]
  by_cases hkey : key = written.key
  · exact .inr (if_pos hkey)
  · exact .inl (if_neg hkey)

theorem remove (h : ledger.Kept) {job : Job} (hbooked : (ledger.remove job).Booked) :
    (ledger.remove job).Kept := by
  refine ⟨hbooked, fun key found hget => ?_⟩
  rw [get?_remove] at hget
  by_cases hkey : key = job.key
  · rw [if_pos hkey] at hget
    cases hget
  · rw [if_neg hkey] at hget
    exact h.coherent key found hget

theorem create (h : ledger.Kept) (key : Nat) (value : JobPayload) :
    (ledger.create key value).2.Kept := by
  have hbooked := (h.booked.create key value).1
  unfold JobLedger.create at hbooked ⊢
  cases hget : ledger.get? key with
  | some job => exact h
  | none =>
      rw [hget] at hbooked
      exact h.put hbooked (.created key value)

theorem markActivatable (h : ledger.Kept) (hok : ledger.markActivatable key = some (ended, later)) :
    later.Kept := by
  have hbooked := (h.booked.markActivatable hok).1
  obtain ⟨job, hget, heq⟩ := Option.map_eq_some_iff.mp hok
  by_cases hstate : job.state = .created
  · rw [if_pos hstate] at heq
    cases heq
    exact h.put hbooked ((h.coherent key job hget).offered hstate)
  · rw [if_neg hstate] at heq
    cases heq
    exact h

theorem activate (h : ledger.Kept) (jobType worker : String) (timeout : Duration) (max : Nat)
    (now : Instant) : (ledger.activate jobType worker timeout max now).2.Kept := by
  refine ⟨(h.booked.activate jobType worker timeout max now).1, fun key job hget => ?_⟩
  rw [get?_activate] at hget
  by_cases htaken : key ∈ ledger.offeredKeys jobType max now
  · rw [if_pos htaken] at hget
    obtain ⟨before, -, rfl⟩ := Option.map_eq_some_iff.mp hget
    exact .leased before worker (now.add timeout)
  · rw [if_neg htaken] at hget
    exact h.coherent key job hget

theorem complete (h : ledger.Kept) (hok : ledger.complete key = .ok (ended, later)) :
    later.Kept := by
  have hbooked := (h.booked.complete hok).1
  obtain ⟨job, -, -, -, rfl⟩ := complete_ok hok
  exact h.remove hbooked

theorem cancel (h : ledger.Kept) (hok : ledger.cancel key = .ok (ended, later)) :
    later.Kept := by
  have hbooked := (h.booked.cancel hok).1
  obtain ⟨job, -, -, rfl⟩ := cancel_ok hok
  exact h.remove hbooked

theorem fail (h : ledger.Kept) {backoff : Option Duration} {errorMessage : Option String}
    {now : Instant} (hok : ledger.fail key backoff errorMessage now = .ok (ended, later)) :
    later.Kept := by
  have hbooked := (h.booked.fail hok).1
  obtain ⟨job, hget, hstate, hended, rfl⟩ := fail_ok hok
  have hfailed := (h.coherent key job hget).failed hstate backoff errorMessage now
  rw [← hended] at hfailed
  refine h.write hbooked ended hfailed fun key => ?_
  rw [get?_put, get?_release]
  by_cases hkey : key = ended.key
  · exact .inr (if_pos hkey)
  · exact .inl (if_neg hkey)

theorem timeOut (h : ledger.Kept) {observed now : Instant}
    (hok : ledger.timeOut key observed now = .ok (ended, later)) : later.Kept := by
  have hbooked := (h.booked.timeOut hok).1
  obtain ⟨job, -, -, -, -, hended, rfl⟩ := timeOut_ok hok
  have hfreed := Job.Coherent.freed job
  rw [show freed job = ended from hended.symm] at hfreed
  refine h.write hbooked ended hfreed fun key => ?_
  have hput := get?_put ledger ended key
  by_cases hkey : key = ended.key
  · exact .inr (hput.trans (if_pos hkey))
  · exact .inl (hput.trans (if_neg hkey))

theorem updateRetries (h : ledger.Kept) {retries : Nat} {answer : Bool}
    (hok : ledger.updateRetries key retries = .ok (answer, later)) : later.Kept := by
  have hbooked := (h.booked.updateRetries hok).1
  obtain ⟨job, hget, ⟨hrevived, -, rfl⟩ | ⟨hleft, -, rfl⟩⟩ := updateRetries_cases hok
  · exact h.put hbooked ((h.coherent key job hget).revived hrevived.1 retries)
  · exact h.put hbooked ((h.coherent key job hget).retried hleft)

/-- **A call keeps the ledger in order.** -/
theorem after (h : ledger.Kept) (call : JobCall) : (call.after ledger).Kept := by
  rcases JobCall.after_cases h.keyed call with ⟨answer, hok⟩ | ⟨cause, -, hsame⟩
  · generalize call.after ledger = later at hok
    cases call with
    | create key value =>
        obtain ⟨job, -, heq⟩ := JobCall.told_ok hok
        have hkept := h.create key value
        rwa [Except.ok.inj heq] at hkept
    | markActivatable key =>
        cases hmarked : ledger.markActivatable key with
        | none =>
            simp only [JobCall.outcome, hmarked, Option.map_none, Option.getD_none] at hok
            cases hok
            exact h
        | some marked =>
            simp only [JobCall.outcome, hmarked, Option.map_some, Option.getD_some] at hok
            cases hok
            exact h.markActivatable hmarked
    | activate jobType worker timeout max now =>
        obtain ⟨keys, -, heq⟩ := JobCall.told_ok hok
        have hkept := h.activate jobType worker timeout max now
        rwa [Except.ok.inj heq] at hkept
    | complete key =>
        obtain ⟨job, -, heq⟩ := JobCall.told_ok hok
        exact h.complete heq
    | fail key backoff errorMessage now =>
        obtain ⟨job, -, heq⟩ := JobCall.told_ok hok
        exact h.fail heq
    | timeOut key observed now =>
        obtain ⟨job, -, heq⟩ := JobCall.told_ok hok
        exact h.timeOut heq
    | updateRetries key retries =>
        obtain ⟨revived, -, heq⟩ := JobCall.told_ok hok
        exact h.updateRetries heq
    | cancel key =>
        obtain ⟨job, -, heq⟩ := JobCall.told_ok hok
        exact h.cancel heq
  · rw [hsame]
    exact h

/-- Calls keep the ledger in order. -/
theorem afterCalls (calls : List JobCall) :
    ∀ ledger : JobLedger, ledger.Kept → (ledger.afterCalls calls).Kept := by
  induction calls with
  | nil => intro ledger h; exact h
  | cons call rest ih => intro ledger h; exact ih _ (h.after call)

/-- The leases are those of the activated jobs. -/
theorem mem_leases_iff (h : ledger.Kept) (lease : Lease) :
    lease ∈ ledger.leases ↔
      ∃ job, ledger.get? lease.key = some job ∧ job.state = .activated ∧
        job.deadline = some lease.deadline := by
  refine (h.booked.lease lease).trans ⟨?_, ?_⟩
  · rintro ⟨job, hget, hdeadline⟩
    have hstate := (h.booked.activated _ _ hget).mpr (by rw [hdeadline]; rfl)
    exact ⟨job, hget, hstate, hdeadline⟩
  · rintro ⟨job, hget, -, hdeadline⟩
    exact ⟨job, hget, hdeadline⟩

/-- A lease that is over can be reclaimed. -/
theorem reclaims (h : ledger.Kept) {now : Instant} {lease : Lease}
    (hover : lease ∈ ledger.expiredLeases now) :
    ∃ freed later, ledger.timeOut lease.key lease.deadline now = .ok (freed, later) := by
  obtain ⟨hmem, hlate⟩ := mem_expiredLeases_iff.mp hover
  obtain ⟨job, hget, hstate, hdeadline⟩ := (h.mem_leases_iff lease).mp hmem
  unfold JobLedger.timeOut
  rw [find_stored hget]
  show ∃ freed later, (if job.state ≠ .activated then _ else _) = _
  rw [if_neg (not_not_intro hstate), if_neg (not_not_intro hdeadline),
    if_neg ((Instant.not_le _ _).mpr hlate)]
  exact ⟨_, _, rfl⟩

end Kept

/-- **Whatever is called, the ledger stays in order.**  The leases are exactly those of the
activated jobs.  A job has a worker exactly when it has a deadline, and a deadline exactly when it
is activated; only an activatable job waits for a time, a failed one is out of retries, and a job
that is at its end is not stored.  A call that is carried out in place gives what the operation
says, and one that is refused has changed nothing.  The leases that are over are listed in the order
of deadline and key, and each of them can be reclaimed. -/
theorem calls_keep_order (calls : List JobCall) :
    let ledger := empty.afterCalls calls
    (∀ lease, lease ∈ ledger.leases ↔ ∃ job, ledger.get? lease.key = some job ∧
      job.state = .activated ∧ job.deadline = some lease.deadline) ∧
    (∀ key job, ledger.get? key = some job →
      job.key = key ∧ (job.worker.isSome ↔ job.deadline.isSome) ∧
      (job.deadline.isSome ↔ job.state = .activated) ∧
      (job.eligibleAt.isSome → job.state = .activatable) ∧
      (job.state = .failed → job.retries = 0) ∧
      job.state ≠ .completed ∧ job.state ≠ .canceled) ∧
    (∀ call : JobCall,
      call.procedure.run ledger = Procedure.settled ledger (call.outcome ledger) ∧
      ∀ cause later, call.procedure.run ledger = .error cause later → later = ledger) ∧
    ∀ now, (ledger.expiredLeases now).Pairwise (· < ·) ∧
      (∀ lease, lease ∈ ledger.expiredLeases now ↔ lease.deadline < now ∧
        ∃ job, ledger.get? lease.key = some job ∧ job.state = .activated ∧
          job.deadline = some lease.deadline) ∧
      ∀ lease ∈ ledger.expiredLeases now, ∃ freed later,
        ledger.timeOut lease.key lease.deadline now = .ok (freed, later) := by
  intro ledger
  have h : ledger.Kept := Kept.afterCalls calls empty kept_empty
  refine ⟨h.mem_leases_iff, fun key job hget => ?_, fun call => ?_, fun now => ⟨?_, ?_, ?_⟩⟩
  · have hcoherent := h.coherent key job hget
    have hlive := hcoherent.live
    refine ⟨h.keyed key job hget, hcoherent.worker.trans hcoherent.deadline.symm,
      hcoherent.deadline, hcoherent.paused, hcoherent.exhausted, ?_, ?_⟩ <;>
    · intro hstate
      rw [hstate] at hlive
      cases hlive
  · have hrun := JobCall.run_procedure h.keyed call
    refine ⟨hrun, fun cause later hrefused => ?_⟩
    rw [hrun] at hrefused
    cases houtcome : call.outcome ledger with
    | ok result => rw [houtcome] at hrefused; cases hrefused
    | error reason => rw [houtcome] at hrefused; cases hrefused; rfl
  · exact ledger.leases.ascending.sublist (List.takeWhile_sublist _)
  · intro lease
    rw [mem_expiredLeases_iff, h.mem_leases_iff]
    exact and_comm
  · exact fun lease hover => h.reclaims hover

/-- Calls after which one job has failed for good, one is leased and one is offered. -/
def mixedCalls : List JobCall :=
  [.create 1 { jobType := "task", retries := 1 }, .create 2 { jobType := "task", retries := 3 },
    .create 3 { jobType := "task", retries := 3 },
    .markActivatable 1, .markActivatable 2, .markActivatable 3,
    .activate "task" "worker" ⟨5⟩ 2 .epoch, .fail 1 none none .epoch, .complete 3, .cancel 4]

/-- The lease of the second job, and a call that is refused because of it. -/
theorem calls_keep_order_mixed :
    let ledger := empty.afterCalls mixedCalls
    let lease : Lease := ⟨Instant.epoch.add ⟨5⟩, 2⟩
    ledger.all.map Job.state = [.failed, .activated, .activatable] ∧
      lease ∈ ledger.expiredLeases .latest ∧
      (∃ freed later, ledger.timeOut 2 lease.deadline .latest = .ok (freed, later)) ∧
      (JobCall.timeOut 2 lease.deadline .epoch).procedure.run ledger =
        .error (.staleTimeout 2 lease.deadline .notExpired) ledger := by
  intro ledger lease
  have hover : lease ∈ ledger.expiredLeases .latest := by decide +kernel
  obtain ⟨-, -, hcalls, htime⟩ := calls_keep_order mixedCalls
  obtain ⟨-, -, hreclaims⟩ := htime .latest
  have hearly : JobCall.outcome ledger (.timeOut 2 lease.deadline .epoch) =
      .error (.staleTimeout 2 lease.deadline .notExpired) := by rfl
  refine ⟨by decide +kernel, hover, hreclaims lease hover, ?_⟩
  rw [(hcalls _).1, hearly]
  rfl

end JobLedger

end Workflow
