/-
Operations on different jobs can be carried out in either order.

All jobs share one set of leases, ordered by deadline first, so jobs whose leases end together stand
next to each other in it.  What keeps them apart is that a lease names its job.  A call about one
job looks at that job alone and writes a `JobEdit` to it, whatever ledger the job is in
(`SoloCall.exists_edit`); a refused call writes what was there.  Edits of different jobs commute
(`JobEdit.apply_comm`), so all pairs of operations, carried out or refused, are one argument.
-/
import Workflow.Proofs.Job.Calls

namespace Workflow

/-! ### Edits -/

/-- What an operation writes to one job. -/
structure JobEdit where
  /-- The job that is stored afterwards, if any. -/
  stored : Option Job
  /-- The end of the lease that the job gives up, if any. -/
  ended : Option Instant

namespace JobEdit

/-- The ledger when the job with a key is edited. -/
def apply (edit : JobEdit) (key : Nat) (ledger : JobLedger) : JobLedger where
  jobs :=
    match edit.stored with
    | some job => ledger.jobs.insert key job
    | none => ledger.jobs.erase key
  leases :=
    match edit.ended with
    | some deadline => ledger.leases.erase ⟨deadline, key⟩
    | none => ledger.leases

variable (edit other : JobEdit) (key : Nat) (ledger : JobLedger)

theorem get?_apply (k : Nat) :
    (edit.apply key ledger).get? k = if k = key then edit.stored else ledger.get? k := by
  obtain ⟨stored, ended⟩ := edit
  cases stored with
  | some job => exact SortedMap.get?_insert _ _ _ _
  | none => exact SortedMap.get?_erase _ _ _

theorem mem_leases_apply (lease : Lease) :
    lease ∈ (edit.apply key ledger).leases ↔
      lease ∈ ledger.leases ∧ ¬ (lease.key = key ∧ edit.ended = some lease.deadline) := by
  obtain ⟨stored, ended⟩ := edit
  cases ended with
  | none => simp [apply]
  | some deadline =>
      show lease ∈ ledger.leases.erase ⟨deadline, key⟩ ↔ _
      rw [SortedSet.mem_erase, ne_eq, Lease.ext_iff, Option.some.injEq, and_comm (a := _ = key),
        eq_comm (a := deadline)]

/-- Writing what is there changes nothing. -/
theorem apply_found {found : Option Job} (hget : ledger.get? key = found) :
    apply ⟨found, none⟩ key ledger = ledger := by
  refine JobLedger.ext_contents (fun k => ?_) fun lease => Iff.rfl
  rw [get?_apply]
  by_cases hk : k = key
  · rw [if_pos hk, hk, hget]
  · rw [if_neg hk]

/-- **Edits of different jobs commute.** -/
theorem apply_comm {first second : Nat} (hne : first ≠ second) :
    other.apply second (edit.apply first ledger) =
      edit.apply first (other.apply second ledger) := by
  refine JobLedger.ext_contents (fun k => ?_) fun lease => ?_
  · simp only [get?_apply]
    by_cases hfirst : k = first
    · rw [if_pos hfirst, if_neg (hfirst ▸ hne), if_pos hfirst]
    · rw [if_neg hfirst, if_neg hfirst]
  · simp only [mem_leases_apply]
    exact and_right_comm

end JobEdit

/-! ### The operations as edits -/

namespace JobLedger

variable {ledger : JobLedger} {key : Nat} {job written : Job}

theorem put_eq_apply (hkey : written.key = key) :
    ledger.put written = JobEdit.apply ⟨some written, none⟩ key ledger := by
  rw [← hkey]
  rfl

theorem remove_eq_apply (hkey : job.key = key) :
    ledger.remove job = JobEdit.apply ⟨none, job.deadline⟩ key ledger := by
  rw [← hkey]
  unfold remove release
  cases job.deadline <;> rfl

theorem release_put_eq_apply (hkey : job.key = key) (hwritten : written.key = key) :
    (ledger.release job).put written = JobEdit.apply ⟨some written, job.deadline⟩ key ledger := by
  unfold put release
  rw [hkey, hwritten]
  cases job.deadline <;> rfl

end JobLedger

/-! ### Calls about one job -/

/-- An operation on one job. -/
inductive SoloOperation where
  | markActivatable
  | complete
  | fail (backoff : Option Duration) (errorMessage : Option String) (now : Instant)
  | timeOut (observed now : Instant)
  | updateRetries (retries : Nat)
  | cancel

/-- A call of an operation on one job. -/
structure SoloCall where
  /-- The job. -/
  key : Nat
  /-- What is to be done to it. -/
  operation : SoloOperation

/-- The call among all calls. -/
def SoloCall.toCall (call : SoloCall) : JobCall :=
  match call.operation with
  | .markActivatable => .markActivatable call.key
  | .complete => .complete call.key
  | .fail backoff errorMessage now => .fail call.key backoff errorMessage now
  | .timeOut observed now => .timeOut call.key observed now
  | .updateRetries retries => .updateRetries call.key retries
  | .cancel => .cancel call.key

namespace JobCall

/-- What a call answers, whether it was refused or not. -/
def answer (ledger : JobLedger) (call : JobCall) : Except JobError JobAnswer :=
  match call.procedure.run ledger with
  | .ok answer _ => .ok answer
  | .error cause _ => .error cause

/-- In every ledger in which it finds a job so, the call gives the answer and makes the edit. -/
def Edits (call : JobCall) (key : Nat) (found : Option Job) (answer : Except JobError JobAnswer)
    (edit : JobEdit) : Prop :=
  ∀ ledger : JobLedger, ledger.Keyed → ledger.get? key = found →
    call.answer ledger = answer ∧ call.after ledger = edit.apply key ledger

variable {call : JobCall} {key : Nat} {found : Option Job}

/-- A call that is carried out. -/
theorem Edits.of_ok {answer : JobAnswer} {edit : JobEdit}
    (h : ∀ ledger : JobLedger, ledger.Keyed → ledger.get? key = found →
      call.outcome ledger = .ok (answer, edit.apply key ledger)) :
    call.Edits key found (.ok answer) edit := by
  intro ledger hkeyed hget
  unfold JobCall.answer after
  rw [run_procedure hkeyed, h ledger hkeyed hget]
  exact ⟨rfl, rfl⟩

/-- A refused call writes what was there. -/
theorem Edits.of_error {cause : JobError}
    (h : ∀ ledger : JobLedger, ledger.get? key = found → call.outcome ledger = .error cause) :
    call.Edits key found (.error cause) ⟨found, none⟩ := by
  intro ledger hkeyed hget
  rw [JobEdit.apply_found key ledger hget]
  unfold answer after
  rw [run_procedure hkeyed, h ledger hget]
  exact ⟨rfl, rfl⟩

theorem exists_edit_markActivatable (key : Nat) (found : Option Job) :
    ∃ answer edit, (markActivatable key).Edits key found answer edit := by
  cases found with
  | none =>
      refine ⟨.ok (.job none), ⟨none, none⟩, .of_ok fun ledger _ hget => ?_⟩
      rw [JobEdit.apply_found key ledger hget]
      simp only [outcome, JobLedger.markActivatable, hget]
      rfl
  | some job =>
      by_cases hstate : job.state = .created
      · refine ⟨.ok (.job (some { job with state := .activatable })),
          ⟨some { job with state := .activatable }, none⟩, .of_ok fun ledger hkeyed hget => ?_⟩
        have hput : ledger.put { job with state := .activatable } = _ :=
          JobLedger.put_eq_apply (hkeyed key job hget)
        rw [← hput]
        simp only [outcome, JobLedger.markActivatable, hget, Option.map_some, if_pos hstate]
        rfl
      · refine ⟨.ok (.job (some job)), ⟨some job, none⟩, .of_ok fun ledger _ hget => ?_⟩
        rw [JobEdit.apply_found key ledger hget]
        simp only [outcome, JobLedger.markActivatable, hget, Option.map_some, if_neg hstate]
        rfl

/-- A call that looks its job up is refused when there is none. -/
theorem exists_edit_of_find (operation : JobOperation)
    (hrefused : ∀ (ledger : JobLedger) {cause : JobError},
      ledger.find key operation = .error cause → call.outcome ledger = .error cause)
    (hstored : ∀ job, ∃ answer edit, call.Edits key (some job) answer edit) (found : Option Job) :
    ∃ answer edit, call.Edits key found answer edit := by
  cases found with
  | none =>
      exact ⟨.error (.notFound key operation), ⟨none, none⟩,
        .of_error fun ledger hget => hrefused ledger (JobLedger.find_absent hget)⟩
  | some job => exact hstored job

/-- A call about a leased job is refused when there is none, or it is not leased. -/
theorem exists_edit_of_findActivated (operation : JobOperation)
    (hrefused : ∀ (ledger : JobLedger) {cause : JobError},
      ledger.findActivated key operation = .error cause → call.outcome ledger = .error cause)
    (hleased : ∀ job, job.state = .activated →
      ∃ answer edit, call.Edits key (some job) answer edit) (found : Option Job) :
    ∃ answer edit, call.Edits key found answer edit := by
  cases found with
  | none =>
      exact ⟨.error (.notFound key operation), ⟨none, none⟩,
        .of_error fun ledger hget => hrefused ledger (JobLedger.findActivated_absent hget)⟩
  | some job =>
      by_cases hstate : job.state = .activated
      · exact hleased job hstate
      · exact ⟨.error (.invalidState key job.state operation), ⟨some job, none⟩,
          .of_error fun ledger hget => hrefused ledger (JobLedger.findActivated_other hget hstate)⟩

theorem exists_edit_complete (key : Nat) (found : Option Job) :
    ∃ answer edit, (complete key).Edits key found answer edit := by
  refine exists_edit_of_findActivated .complete (fun ledger cause hfind => ?_)
    (fun job hstate => ?_) found
  · rw [outcome, JobLedger.complete, hfind]
    rfl
  · refine ⟨.ok (.job (some { job with state := .completed })), ⟨none, job.deadline⟩,
      .of_ok fun ledger hkeyed hget => ?_⟩
    rw [← JobLedger.remove_eq_apply (hkeyed key job hget), outcome, JobLedger.complete,
      JobLedger.findActivated_leased hget hstate]
    rfl

theorem exists_edit_fail (key : Nat) (backoff : Option Duration) (errorMessage : Option String)
    (now : Instant) (found : Option Job) :
    ∃ answer edit, (fail key backoff errorMessage now).Edits key found answer edit := by
  refine exists_edit_of_findActivated .fail (fun ledger cause hfind => ?_)
    (fun job hstate => ?_) found
  · rw [outcome, JobLedger.fail, hfind]
    rfl
  · refine ⟨.ok (.job (some (JobLedger.failedJob job backoff errorMessage now))),
      ⟨some (JobLedger.failedJob job backoff errorMessage now), job.deadline⟩,
      .of_ok fun ledger hkeyed hget => ?_⟩
    have hkey := hkeyed key job hget
    have hfailed := (JobLedger.failedJob_cases job backoff errorMessage now).1.trans hkey
    rw [← JobLedger.release_put_eq_apply hkey hfailed, outcome, JobLedger.fail,
      JobLedger.findActivated_leased hget hstate]
    rfl

theorem exists_edit_timeOut (key : Nat) (observed now : Instant) (found : Option Job) :
    ∃ answer edit, (timeOut key observed now).Edits key found answer edit := by
  refine exists_edit_of_find .timeOut (fun ledger cause hfind => ?_) (fun job => ?_) found
  · rw [outcome, JobLedger.timeOut, hfind]
    rfl
  have hstored : ∀ ledger : JobLedger, ledger.get? key = some job →
      ledger.timeOut key observed now =
        if job.state ≠ .activated then
          .error (.staleTimeout key observed (.notActivated job.state))
        else if job.deadline ≠ some observed then
          .error (.staleTimeout key observed .activatedAgain)
        else if now ≤ observed then .error (.staleTimeout key observed .notExpired)
        else .ok (JobLedger.freed job,
          { ledger.put (JobLedger.freed job) with
            leases := ledger.leases.erase ⟨observed, key⟩ }) := by
    intro ledger hget
    rw [JobLedger.timeOut, JobLedger.find_stored hget]
    rfl
  by_cases hstate : job.state ≠ .activated
  · refine ⟨.error (.staleTimeout key observed (.notActivated job.state)), ⟨some job, none⟩,
      .of_error fun ledger hget => ?_⟩
    rw [outcome, hstored ledger hget, if_pos hstate]
    rfl
  by_cases hdeadline : job.deadline ≠ some observed
  · refine ⟨.error (.staleTimeout key observed .activatedAgain), ⟨some job, none⟩,
      .of_error fun ledger hget => ?_⟩
    rw [outcome, hstored ledger hget, if_neg hstate, if_pos hdeadline]
    rfl
  by_cases hearly : now ≤ observed
  · refine ⟨.error (.staleTimeout key observed .notExpired), ⟨some job, none⟩,
      .of_error fun ledger hget => ?_⟩
    rw [outcome, hstored ledger hget, if_neg hstate, if_neg hdeadline, if_pos hearly]
    rfl
  · refine ⟨.ok (.job (some (JobLedger.freed job))),
      ⟨some (JobLedger.freed job), some observed⟩, .of_ok fun ledger hkeyed hget => ?_⟩
    have hfreed : (JobLedger.freed job).key = key := hkeyed key job hget
    rw [outcome, hstored ledger hget, if_neg hstate, if_neg hdeadline, if_neg hearly,
      JobLedger.put_eq_apply hfreed]
    rfl

theorem exists_edit_updateRetries (key retries : Nat) (found : Option Job) :
    ∃ answer edit, (updateRetries key retries).Edits key found answer edit := by
  refine exists_edit_of_find .updateRetries (fun ledger cause hfind => ?_) (fun job => ?_) found
  · rw [outcome, JobLedger.updateRetries, hfind]
    rfl
  have hstored : ∀ ledger : JobLedger, ledger.get? key = some job →
      ledger.updateRetries key retries =
        if job.state = .failed ∧ 0 < retries then
          .ok (true, ledger.put (JobLedger.revived retries job))
        else .ok (false, ledger.put (JobLedger.retried retries job)) := by
    intro ledger hget
    rw [JobLedger.updateRetries, JobLedger.find_stored hget]
    rfl
  by_cases hrevived : job.state = .failed ∧ 0 < retries
  · refine ⟨.ok (.revived true), ⟨some (JobLedger.revived retries job), none⟩,
      .of_ok fun ledger hkeyed hget => ?_⟩
    have hkey : (JobLedger.revived retries job).key = key := hkeyed key job hget
    rw [outcome, hstored ledger hget, if_pos hrevived, JobLedger.put_eq_apply hkey]
    rfl
  · refine ⟨.ok (.revived false), ⟨some (JobLedger.retried retries job), none⟩,
      .of_ok fun ledger hkeyed hget => ?_⟩
    have hkey : (JobLedger.retried retries job).key = key := hkeyed key job hget
    rw [outcome, hstored ledger hget, if_neg hrevived, JobLedger.put_eq_apply hkey]
    rfl

theorem exists_edit_cancel (key : Nat) (found : Option Job) :
    ∃ answer edit, (cancel key).Edits key found answer edit := by
  refine exists_edit_of_find .cancel (fun ledger cause hfind => ?_) (fun job => ?_) found
  · rw [outcome, JobLedger.cancel, hfind]
    rfl
  · refine ⟨.ok (.job (some { job with state := .canceled, deadline := none })),
      ⟨none, job.deadline⟩, .of_ok fun ledger hkeyed hget => ?_⟩
    rw [← JobLedger.remove_eq_apply (hkeyed key job hget), outcome, JobLedger.cancel,
      JobLedger.find_stored hget]
    rfl

end JobCall

/-- **A call about one job looks at that job alone and writes to nothing else.** -/
theorem SoloCall.exists_edit (call : SoloCall) (found : Option Job) :
    ∃ answer edit, call.toCall.Edits call.key found answer edit := by
  obtain ⟨key, operation⟩ := call
  cases operation with
  | markActivatable => exact JobCall.exists_edit_markActivatable key found
  | complete => exact JobCall.exists_edit_complete key found
  | fail backoff errorMessage now =>
      exact JobCall.exists_edit_fail key backoff errorMessage now found
  | timeOut observed now => exact JobCall.exists_edit_timeOut key observed now found
  | updateRetries retries => exact JobCall.exists_edit_updateRetries key retries found
  | cancel => exact JobCall.exists_edit_cancel key found

namespace JobLedger

/-- **Operations on different jobs commute.**  Whatever was called before, two calls about different
jobs lead to the same ledger in either order, and each gives the answer that it gives without the
other, refusals included.  A call about one job leaves the other jobs and their leases alone. -/
theorem different_jobs_commute (calls : List JobCall) :
    let ledger := empty.afterCalls calls
    (∀ one other : SoloCall, one.key ≠ other.key →
      other.toCall.after (one.toCall.after ledger) =
        one.toCall.after (other.toCall.after ledger) ∧
      other.toCall.answer (one.toCall.after ledger) = other.toCall.answer ledger ∧
      one.toCall.answer (other.toCall.after ledger) = one.toCall.answer ledger) ∧
    ∀ (call : SoloCall) (key : Nat), key ≠ call.key →
      (call.toCall.after ledger).get? key = ledger.get? key ∧
      ∀ deadline, ⟨deadline, key⟩ ∈ (call.toCall.after ledger).leases ↔
        ⟨deadline, key⟩ ∈ ledger.leases := by
  intro ledger
  have h : ledger.Kept := Kept.afterCalls calls empty kept_empty
  constructor
  · intro one other hne
    obtain ⟨first, edit, hone⟩ := one.exists_edit (ledger.get? one.key)
    obtain ⟨second, edit', hother⟩ := other.exists_edit (ledger.get? other.key)
    obtain ⟨hfirst, hafter⟩ := hone ledger h.keyed rfl
    obtain ⟨hsecond, hafter'⟩ := hother ledger h.keyed rfl
    -- Each finds its job as it was when the other has been carried out.
    obtain ⟨hsecond', hboth⟩ := hother (one.toCall.after ledger) (h.after one.toCall).keyed (by
      rw [hafter, JobEdit.get?_apply, if_neg hne.symm])
    obtain ⟨hfirst', hboth'⟩ := hone (other.toCall.after ledger) (h.after other.toCall).keyed (by
      rw [hafter', JobEdit.get?_apply, if_neg hne])
    refine ⟨?_, hsecond'.trans hsecond.symm, hfirst'.trans hfirst.symm⟩
    rw [hboth, hboth', hafter, hafter']
    exact JobEdit.apply_comm edit edit' ledger hne
  · intro call key hne
    obtain ⟨answer, edit, hcall⟩ := call.exists_edit (ledger.get? call.key)
    obtain ⟨-, hafter⟩ := hcall ledger h.keyed rfl
    rw [hafter]
    refine ⟨by rw [JobEdit.get?_apply, if_neg hne], fun deadline => ?_⟩
    rw [JobEdit.mem_leases_apply]
    exact and_iff_left fun hboth => hne hboth.1

/-- Calls after which two jobs are leased until the same time. -/
def pairedCalls : List JobCall :=
  [.create 1 { jobType := "task", retries := 1 }, .create 2 { jobType := "task", retries := 3 },
    .markActivatable 1, .markActivatable 2, .activate "task" "worker" ⟨5⟩ 2 .epoch]

/-- One of two jobs with the same deadline fails for good, and the lease of the other one, which is
reclaimed too early, stays. -/
theorem different_jobs_commute_paired :
    let ledger := empty.afterCalls pairedCalls
    let failing : SoloCall := ⟨1, .fail none none .epoch⟩
    let early : SoloCall := ⟨2, .timeOut (Instant.epoch.add ⟨5⟩) .epoch⟩
    ledger.leases.toList = [⟨Instant.epoch.add ⟨5⟩, 1⟩, ⟨Instant.epoch.add ⟨5⟩, 2⟩] ∧
      failing.key ≠ early.key ∧
      early.toCall.after (failing.toCall.after ledger) =
        failing.toCall.after (early.toCall.after ledger) ∧
      early.toCall.answer (failing.toCall.after ledger) =
        .error (.staleTimeout 2 (Instant.epoch.add ⟨5⟩) .notExpired) ∧
      ∀ deadline, ⟨deadline, 2⟩ ∈ (failing.toCall.after ledger).leases ↔
        ⟨deadline, 2⟩ ∈ ledger.leases := by
  intro ledger failing early
  have hne : failing.key ≠ early.key := by decide
  obtain ⟨hcommute, hothers⟩ := different_jobs_commute pairedCalls
  obtain ⟨hsame, hanswer, -⟩ := hcommute failing early hne
  refine ⟨by decide +kernel, hne, hsame, hanswer.trans ?_, (hothers failing 2 hne.symm).2⟩
  rfl

end JobLedger

end Workflow
