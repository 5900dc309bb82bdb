/-
Who holds the leases of an engine.

To the jobs, an accepted command is a few calls: an activation is one call, and no other command
makes a call that activates.  So the jobs of an engine are always a ledger that calls lead to
(`Processor.jobs_after`), and a job that is leased goes back to the command that leased it: nothing
else makes a lease, changes its worker or moves its end.

The worker of a lease is the one that the command names, and the check of such a command does not
look at it.  A lease is held by a worker with a name exactly if the command has one.
-/
import Mathlib.Data.List.Induction
import Workflow.Proofs.Job.Calls

namespace Workflow

/-! ### Calls that lease nothing -/

namespace JobCall

/-- Whether a call leases jobs. -/
def activates : JobCall → Bool
  | .activate .. => true
  | _ => false

/-- What an operation gives is what its call leaves. -/
theorem after_eq {ledger later : JobLedger} (hkeyed : ledger.Keyed) {call : JobCall}
    {answer : JobAnswer} (hok : call.outcome ledger = .ok (answer, later)) :
    call.after ledger = later := by
  rw [after, run_procedure hkeyed, hok]
  rfl

end JobCall

namespace JobLedger

theorem afterCalls_append (ledger : JobLedger) (first second : List JobCall) :
    ledger.afterCalls (first ++ second) = (ledger.afterCalls first).afterCalls second :=
  List.foldl_append

/-- A job is leased to a worker until a deadline. -/
def Held (ledger : JobLedger) (key : Nat) (worker : String) (deadline : Instant) : Prop :=
  ∃ job, ledger.get? key = some job ∧ job.state = .activated ∧ job.worker = some worker ∧
    job.deadline = some deadline

namespace Held

variable {ledger later : JobLedger} {key other : Nat} {worker : String} {deadline : Instant}
  {job ended : Job}

theorem congr (hheld : later.Held key worker deadline)
    (hsame : later.get? key = ledger.get? key) : ledger.Held key worker deadline := by
  obtain ⟨job, hget, hjob⟩ := hheld
  exact ⟨job, hsame.symm.trans hget, hjob⟩

/-- Writing a job that is not activated makes no lease. -/
theorem of_put (hheld : (ledger.put job).Held key worker deadline)
    (hstate : job.state ≠ .activated) : ledger.Held key worker deadline := by
  refine hheld.congr ((get?_put ledger job key).trans (if_neg ?_))
  rintro rfl
  obtain ⟨found, hget, hactivated, -⟩ := hheld
  rw [get?_put, if_pos rfl] at hget
  cases hget
  exact hstate hactivated

theorem of_remove (hheld : (ledger.remove job).Held key worker deadline) :
    ledger.Held key worker deadline := by
  refine hheld.congr ((get?_remove ledger job key).trans (if_neg ?_))
  rintro rfl
  obtain ⟨found, hget, -⟩ := hheld
  rw [get?_remove, if_pos rfl] at hget
  cases hget

theorem of_create (other : Nat) (value : JobPayload)
    (hheld : (ledger.create other value).2.Held key worker deadline) :
    ledger.Held key worker deadline := by
  unfold create at hheld
  cases hget : ledger.get? other with
  | some job =>
      rw [hget] at hheld
      exact hheld
  | none =>
      rw [hget] at hheld
      exact hheld.of_put (by simp [Job.ofPayload])

theorem of_markActivatable (hok : ledger.markActivatable other = some (ended, later))
    (hheld : later.Held key worker deadline) : ledger.Held key worker deadline := by
  obtain ⟨job, hget, heq⟩ := Option.map_eq_some_iff.mp hok
  by_cases hstate : job.state = .created
  · rw [if_pos hstate] at heq
    cases heq
    exact hheld.of_put (by simp)
  · rw [if_neg hstate] at heq
    cases heq
    exact hheld

theorem of_complete (hok : ledger.complete other = .ok (ended, later))
    (hheld : later.Held key worker deadline) : ledger.Held key worker deadline := by
  obtain ⟨job, -, -, -, rfl⟩ := complete_ok hok
  exact hheld.of_remove

theorem of_fail {backoff : Option Duration} {errorMessage : Option String} {now : Instant}
    (hok : ledger.fail other backoff errorMessage now = .ok (ended, later))
    (hheld : later.Held key worker deadline) : ledger.Held key worker deadline := by
  obtain ⟨job, -, -, hended, rfl⟩ := fail_ok hok
  have hstate : ended.state ≠ .activated := by
    obtain ⟨-, ⟨hstate, -⟩ | ⟨hstate, -⟩⟩ := failedJob_cases job backoff errorMessage now <;>
    · rw [hended, hstate]
      decide
  exact (hheld.of_put hstate).congr (get?_release ledger job key)

theorem of_timeOut {observed now : Instant}
    (hok : ledger.timeOut other observed now = .ok (ended, later))
    (hheld : later.Held key worker deadline) : ledger.Held key worker deadline := by
  obtain ⟨job, -, -, -, -, hended, rfl⟩ := timeOut_ok hok
  have hput : (ledger.put ended).Held key worker deadline := hheld
  exact hput.of_put (by simp [hended])

/-- New retries leave a lease to the worker that has it. -/
theorem of_updateRetries (hkeyed : ledger.Keyed) {retries : Nat} {revived : Bool}
    (hok : ledger.updateRetries other retries = .ok (revived, later))
    (hheld : later.Held key worker deadline) : ledger.Held key worker deadline := by
  obtain ⟨job, hget, ⟨-, -, rfl⟩ | ⟨-, -, rfl⟩⟩ := updateRetries_cases hok
  · exact hheld.of_put (by simp [JobLedger.revived])
  · by_cases hkey : key = (retried retries job).key
    · obtain ⟨found, hfound, hstate⟩ := hheld
      rw [get?_put, if_pos hkey] at hfound
      cases hfound
      have hsame : key = other := hkey.trans (hkeyed other job hget)
      exact ⟨job, by rw [hsame, hget], hstate⟩
    · exact hheld.congr ((get?_put _ _ _).trans (if_neg hkey))

theorem of_cancel (hok : ledger.cancel other = .ok (ended, later))
    (hheld : later.Held key worker deadline) : ledger.Held key worker deadline := by
  obtain ⟨job, -, -, rfl⟩ := cancel_ok hok
  exact hheld.of_remove

/-- **A lease that is there after a call was there before, or the call leased the job.** -/
theorem of_after (hkeyed : ledger.Keyed) {call : JobCall} (hquiet : call.activates = false)
    (hheld : (call.after ledger).Held key worker deadline) : ledger.Held key worker deadline := by
  rcases JobCall.after_cases hkeyed call with ⟨answer, hok⟩ | ⟨cause, -, hsame⟩
  · generalize call.after ledger = later at hok hheld
    cases call with
    | create other value =>
        obtain ⟨job, -, heq⟩ := JobCall.told_ok hok
        refine of_create other value ?_
        rwa [Except.ok.inj heq]
    | markActivatable other =>
        cases hmarked : ledger.markActivatable other with
        | none =>
            simp only [JobCall.outcome, hmarked, Option.map_none, Option.getD_none] at hok
            cases hok
            exact hheld
        | some marked =>
            simp only [JobCall.outcome, hmarked, Option.map_some, Option.getD_some] at hok
            cases hok
            exact of_markActivatable hmarked hheld
    | activate => cases hquiet
    | complete other =>
        obtain ⟨job, -, heq⟩ := JobCall.told_ok hok
        exact of_complete heq hheld
    | fail other =>
        obtain ⟨job, -, heq⟩ := JobCall.told_ok hok
        exact of_fail heq hheld
    | timeOut other =>
        obtain ⟨job, -, heq⟩ := JobCall.told_ok hok
        exact of_timeOut heq hheld
    | updateRetries other =>
        obtain ⟨revived, -, heq⟩ := JobCall.told_ok hok
        exact of_updateRetries hkeyed heq hheld
    | cancel other =>
        obtain ⟨job, -, heq⟩ := JobCall.told_ok hok
        exact of_cancel heq hheld
  · rwa [hsame] at hheld

theorem of_afterCalls (calls : List JobCall) :
    ∀ ledger : JobLedger, ledger.Kept → (∀ call ∈ calls, call.activates = false) →
      (ledger.afterCalls calls).Held key worker deadline → ledger.Held key worker deadline := by
  induction calls with
  | nil => intro ledger _ _ hheld; exact hheld
  | cons call rest ih =>
      intro ledger h hquiet hheld
      have hrest := ih (call.after ledger) (h.after call)
        (fun other ho => hquiet other (List.mem_cons_of_mem _ ho)) hheld
      exact hrest.of_after h.keyed (hquiet call List.mem_cons_self)

/-- A lease that is there after an activation was there before, or it is one of the new ones. -/
theorem of_activate {jobType worker' : String} {timeout : Duration} {max : Nat} {now : Instant}
    (hheld : (ledger.activate jobType worker' timeout max now).2.Held key worker deadline) :
    ledger.Held key worker deadline ∨
      (key ∈ (ledger.activate jobType worker' timeout max now).1 ∧ worker = worker' ∧
        deadline = now.add timeout) := by
  by_cases htaken : key ∈ (ledger.activate jobType worker' timeout max now).1
  · obtain ⟨job, hget, -, hworker, hdeadline⟩ := hheld
    rw [get?_activate] at hget
    obtain ⟨before, -, rfl⟩ := Option.map_eq_some_iff.mp ((if_pos htaken).symm.trans hget)
    exact .inr ⟨htaken, (Option.some.inj hworker).symm, (Option.some.inj hdeadline).symm⟩
  · exact .inl (hheld.congr ((get?_activate _ _ _ _ _ _).trans (if_neg htaken)))

end Held

/-- What an activation takes is leased to its worker. -/
theorem held_of_mem_activate {ledger : JobLedger} {key : Nat} {jobType worker : String}
    {timeout : Duration} {max : Nat} {now : Instant}
    (htaken : key ∈ (ledger.activate jobType worker timeout max now).1) :
    (ledger.activate jobType worker timeout max now).2.Held key worker (now.add timeout) := by
  obtain ⟨job, hget, -⟩ := state_of_mem_offeredKeys htaken
  refine ⟨leased worker (now.add timeout) job, ?_, rfl, rfl, rfl⟩
  rw [get?_activate, hget]
  exact if_pos htaken

end JobLedger

/-! ### Accepted commands as calls -/

open JobLedger EngineState in
/-- **To the jobs, an accepted command is an activation, or calls that activate nothing.** -/
theorem Accepted.jobs_cases {evaluator : Evaluator} {state final : EngineState} {command : Record}
    {answer : Event} {others : List Event}
    (h : Accepted evaluator state command final answer others) (hkept : state.jobs.Kept) :
    (∃ request, command.intent = .jobBatch .activate ∧ command.value = .jobBatch request ∧
      final.jobs = (state.jobs.activate request.jobType request.worker request.timeout
        request.maxJobs command.timestamp).2) ∨
    (command.intent ≠ .jobBatch .activate ∧
      ∃ calls : List JobCall, (∀ call ∈ calls, call.activates = false) ∧
        final.jobs = state.jobs.afterCalls calls) := by
  have hnone : final.jobs = state.jobs → ∃ calls : List JobCall,
      (∀ call ∈ calls, call.activates = false) ∧ final.jobs = state.jobs.afterCalls calls :=
    fun hsame => ⟨[], fun _ hc => absurd hc List.not_mem_nil, hsame⟩
  have hone : ∀ {jobs : JobLedger} (call : JobCall) (answer : JobAnswer),
      call.activates = false → call.outcome state.jobs = .ok (answer, jobs) → final.jobs = jobs →
      ∃ calls : List JobCall, (∀ call ∈ calls, call.activates = false) ∧
        final.jobs = state.jobs.afterCalls calls := by
    rintro jobs call answer hquiet hok rfl
    refine ⟨[call], fun other ho => ?_, (JobCall.after_eq hkept.keyed hok).symm⟩
    rwa [List.mem_singleton.mp ho]
  cases h with
  | deployed request starts hintent hvalue hid hunique hstarts hdeploy =>
      exact .inr ⟨by rw [hintent]; decide, hnone (keepsJobs_deployed hdeploy).jobs⟩
  | instanceCreated request definition hintent =>
      exact .inr ⟨by rw [hintent]; decide, hnone rfl⟩
  | timerCreated request definition instanceKey elementInstanceKey owner resolved hintent =>
      exact .inr ⟨by rw [hintent]; decide, hnone rfl⟩
  | timerUnresolved request definition instanceKey elementInstanceKey owner cause hintent =>
      exact .inr ⟨by rw [hintent]; decide, hnone rfl⟩
  | timerFired key timer hintent =>
      exact .inr ⟨by rw [hintent]; decide, hnone (keepsJobs_fired _ _ _ _).jobs⟩
  | timerCanceled key timer hintent => exact .inr ⟨by rw [hintent]; decide, hnone rfl⟩
  | jobCreated request offered jobs hintent hvalue htype hretries hoffered =>
      have hcreate : (JobCall.create state.nextKey.1 request).after state.jobs =
          (state.jobs.create state.nextKey.1 request).2 := JobCall.after_eq hkept.keyed rfl
      have hmark : (JobCall.markActivatable state.nextKey.1).outcome
          (state.jobs.create state.nextKey.1 request).2 = .ok (.job (some offered), jobs) := by
        rw [JobCall.outcome, hoffered]
        rfl
      refine .inr ⟨by rw [hintent]; decide,
        [.create state.nextKey.1 request, .markActivatable state.nextKey.1],
        by simp [JobCall.activates], ?_⟩
      show jobs = JobCall.after (JobCall.after state.jobs _) _
      rw [hcreate, JobCall.after_eq (hkept.create state.nextKey.1 request).keyed hmark]
  | jobsActivated request jobKeys jobs hintent hvalue htype htimeout hmax hactivate =>
      exact .inl ⟨request, hintent, hvalue, by rw [hactivate]⟩
  | jobCompleted key job jobs hintent hkey hcomplete =>
      refine .inr ⟨by rw [hintent]; decide, hone (.complete key) (.job job) rfl ?_ rfl⟩
      rw [JobCall.outcome, hcomplete]
      rfl
  | jobFailed key request job jobs hintent hkey hvalue hfail =>
      obtain ⟨keyCounter, incidents, -, heq⟩ := openIncident_with { state with jobs } job
      refine .inr ⟨by rw [hintent]; decide, hone (.fail key request.retryBackoff
        request.errorMessage command.timestamp) (.job job) rfl ?_ (by rw [heq])⟩
      rw [JobCall.outcome, hfail]
      rfl
  | jobTimedOut key observed job jobs hintent hkey hobserved htimeOut =>
      refine .inr ⟨by rw [hintent]; decide,
        hone (.timeOut key observed command.timestamp) (.job job) rfl ?_ rfl⟩
      rw [JobCall.outcome, htimeOut]
      rfl
  | retriesUpdated key request revived job jobs hintent hkey hvalue hretries hupdate hjob =>
      obtain ⟨incidents, heq⟩ := resolveIncident_with { state with jobs } key
      refine .inr ⟨by rw [hintent]; decide,
        hone (.updateRetries key request.retries) (.revived revived) rfl ?_ (by rw [heq])⟩
      rw [JobCall.outcome, hupdate]
      rfl
  | jobCanceled key job jobs hintent hkey hcancel =>
      obtain ⟨incidents, heq⟩ := resolveIncident_with { state with jobs } key
      refine .inr ⟨by rw [hintent]; decide, hone (.cancel key) (.job job) rfl ?_ (by rw [heq])⟩
      rw [JobCall.outcome, hcancel]
      rfl

/-! ### The engine -/

namespace Processor

open JobLedger

variable {processor : Processor} {key : Nat} {worker : String} {deadline : Instant}

/-- The jobs of an engine are a ledger that calls lead to. -/
theorem jobs_after (partitionId : Nat) (evaluator : Evaluator) (commands : List Record) :
    ∃ calls, ((start partitionId .builtin evaluator).after commands).state.jobs =
      empty.afterCalls calls := by
  refine after_induction evaluator (fun state => ∃ calls, state.jobs = empty.afterCalls calls)
    ?_ commands _ rfl rfl ⟨[], rfl⟩
  rintro state command final answer others ⟨calls, hcalls⟩ haccepted
  have hkept : state.jobs.Kept := hcalls ▸ Kept.afterCalls calls empty kept_empty
  rcases haccepted.jobs_cases hkept with ⟨request, -, -, hjobs⟩ | ⟨-, more, -, hjobs⟩
  · refine ⟨calls ++ [.activate request.jobType request.worker request.timeout request.maxJobs
      command.timestamp], ?_⟩
    rw [hjobs, afterCalls_append, ← hcalls]
    exact (JobCall.after_eq hkept.keyed rfl).symm
  · exact ⟨calls ++ more, by rw [hjobs, afterCalls_append, ← hcalls]⟩

theorem kept_after (partitionId : Nat) (evaluator : Evaluator) (commands : List Record) :
    ((start partitionId .builtin evaluator).after commands).state.jobs.Kept := by
  obtain ⟨calls, hcalls⟩ := jobs_after partitionId evaluator commands
  rw [hcalls]
  exact Kept.afterCalls calls empty kept_empty

/-- A command by which an engine leases a job: it asks for jobs of a type, the engine does as it is
asked, and the job is one of those that it takes. -/
structure Leases (processor : Processor) (command : Record) (request : JobBatchPayload)
    (key : Nat) : Prop where
  isCommand : command.isCommand = true
  intent : command.intent = .jobBatch .activate
  value : command.value = .jobBatch request
  jobs : (processor.apply command).2.state.jobs = (processor.state.jobs.activate request.jobType
    request.worker request.timeout request.maxJobs command.timestamp).2
  taken : key ∈ (processor.state.jobs.activate request.jobType request.worker request.timeout
    request.maxJobs command.timestamp).1

/-- What a command leases is held by the worker that it names. -/
theorem Leases.held {command : Record} {request : JobBatchPayload}
    (h : processor.Leases command request key) :
    (processor.apply command).2.state.jobs.Held key request.worker
      (command.timestamp.add request.timeout) := by
  rw [h.jobs]
  exact held_of_mem_activate h.taken

/-- **A lease that is there after a command was there before, or the command leased the job.** -/
theorem held_apply (hbuiltin : processor.registry = .builtin) (hkept : processor.state.jobs.Kept)
    (command : Record)
    (hheld : (processor.apply command).2.state.jobs.Held key worker deadline) :
    processor.state.jobs.Held key worker deadline ∨
      ∃ request, processor.Leases command request key ∧ worker = request.worker ∧
        deadline = command.timestamp.add request.timeout := by
  rcases apply_cases hbuiltin command with hsame | ⟨answer, others, hcommand, haccepted, -⟩
  · rw [hsame] at hheld
    exact .inl hheld
  · rcases haccepted.jobs_cases hkept with
      ⟨request, hintent, hvalue, hjobs⟩ | ⟨-, calls, hquiet, hjobs⟩
    · rw [hjobs] at hheld
      rcases hheld.of_activate with hbefore | ⟨htaken, hworker, hdeadline⟩
      · exact .inl hbefore
      · exact .inr ⟨request, ⟨hcommand, hintent, hvalue, hjobs, htaken⟩, hworker, hdeadline⟩
    · rw [hjobs] at hheld
      exact .inl (Held.of_afterCalls calls _ hkept hquiet hheld)

/-- A lease goes back to the command that leased the job. -/
theorem held_after (partitionId : Nat) (evaluator : Evaluator) (commands : List Record) :
    let first := start partitionId .builtin evaluator
    (first.after commands).state.jobs.Held key worker deadline →
    ∃ before command later request, commands = before ++ command :: later ∧
      (first.after before).Leases command request key ∧ worker = request.worker ∧
      deadline = command.timestamp.add request.timeout := by
  intro first
  induction commands using List.reverseRecOn with
  | nil =>
      rintro ⟨job, hget, -⟩
      cases hget
  | append_singleton commands command ih =>
      intro hheld
      rw [after_append] at hheld
      have hbuiltin : (first.after commands).registry = .builtin := after_registry _ _
      rcases held_apply hbuiltin (kept_after _ _ commands) command hheld with
        hbefore | ⟨request, hleases, hworker⟩
      · obtain ⟨before, command', later, request, rfl, hrest⟩ := ih hbefore
        exact ⟨before, command', later ++ [command], request, by simp, hrest⟩
      · exact ⟨commands, command, [], request, rfl, hleases, hworker⟩

/-- Asking for jobs is allowed without a worker. -/
theorem jobs_of_activate (hbuiltin : processor.registry = .builtin) {command : Record}
    {request : JobBatchPayload} (hcommand : command.isCommand = true)
    (hconsistent : isConsistent command = true) (hintent : command.intent = .jobBatch .activate)
    (hvalue : command.value = .jobBatch request) (htype : isBlankText request.jobType = false)
    (htimeout : request.timeout.isZero = false) (hmax : 0 < request.maxJobs) :
    (processor.apply command).2.state.jobs = (processor.state.jobs.activate request.jobType
      request.worker request.timeout request.maxJobs command.timestamp).2 := by
  have hdecision : decision processor.evaluator processor.state command =
      Decide.activateJobs processor.evaluator processor.state command := by
    unfold decision
    rw [if_pos hconsistent, hintent]
    rfl
  rw [apply_command hbuiltin hcommand, hdecision]
  unfold Decide.activateJobs
  simp only [hvalue, htype, htimeout, Nat.ne_of_gt hmax, Bool.false_eq_true, if_false]
  rfl

end Processor

/-- **Every leased job has a worker and a deadline, and the worker has a name exactly if the command
that leased the job names one.**  A job that is leased goes back to a command that asked for jobs:
the worker is the one that the command names, and the deadline is the timeout of the command after
its time.  Such a command is carried out whether it names a worker or not.  So in all states on the
way the leased jobs are held by workers with names if and only if no command without such a name
leased a job. -/
theorem EngineState.leased_jobs_held (partitionId : Nat) (evaluator : Evaluator)
    (commands : List Record) :
    let first := Processor.start partitionId .builtin evaluator
    (∀ key job, (first.after commands).state.jobs.get? key = some job → job.state = .activated →
      ∃ before command later request, commands = before ++ command :: later ∧
        (first.after before).Leases command request key ∧ job.worker = some request.worker ∧
        job.deadline = some (command.timestamp.add request.timeout)) ∧
    (∀ command request, command.isCommand = true → Processor.isConsistent command = true →
      command.intent = .jobBatch .activate → command.value = .jobBatch request →
      isBlankText request.jobType = false → request.timeout.isZero = false → 0 < request.maxJobs →
      ((first.after commands).apply command).2.state.jobs =
        ((first.after commands).state.jobs.activate request.jobType request.worker request.timeout
          request.maxJobs command.timestamp).2) ∧
    ((∀ before, before <+: commands → ∀ key job,
        (first.after before).state.jobs.get? key = some job → job.state = .activated →
        ∃ worker deadline, job.worker = some worker ∧ isBlankText worker = false ∧
          job.deadline = some deadline) ↔
      ∀ before command later request key, commands = before ++ command :: later →
        (first.after before).Leases command request key → isBlankText request.worker = false) := by
  intro first
  have horigin : ∀ commands key job, (first.after commands).state.jobs.get? key = some job →
      job.state = .activated → ∃ before command later request,
        commands = before ++ command :: later ∧
        (first.after before).Leases command request key ∧ job.worker = some request.worker ∧
        job.deadline = some (command.timestamp.add request.timeout) := by
    intro commands key job hget hstate
    have hcoherent := (Processor.kept_after partitionId evaluator commands).coherent key job hget
    obtain ⟨worker, hworker⟩ := Option.isSome_iff_exists.mp (hcoherent.worker.mpr hstate)
    obtain ⟨deadline, hdeadline⟩ := Option.isSome_iff_exists.mp (hcoherent.deadline.mpr hstate)
    obtain ⟨before, command, later, request, hsplit, hleases, rfl, rfl⟩ :=
      Processor.held_after partitionId evaluator commands ⟨job, hget, hstate, hworker, hdeadline⟩
    exact ⟨before, command, later, request, hsplit, hleases, hworker, hdeadline⟩
  refine ⟨horigin commands, ?_, ?_, ?_⟩
  · intro command request hcommand hconsistent hintent hvalue htype htimeout hmax
    exact Processor.jobs_of_activate (Processor.after_registry _ _) hcommand hconsistent hintent
      hvalue htype htimeout hmax
  · intro hnamed before command later request key hsplit hleases
    obtain ⟨job, hget, hstate, hworker, -⟩ := hleases.held
    have hprefix : before ++ [command] <+: commands :=
      ⟨later, by rw [hsplit, List.append_assoc, List.singleton_append]⟩
    rw [← show (first.after (before ++ [command])) = ((first.after before).apply command).2 from
      Processor.after_append _ _ _] at hget
    obtain ⟨worker, deadline, hnamed, hname, -⟩ := hnamed _ hprefix key job hget hstate
    rw [hworker] at hnamed
    cases hnamed
    exact hname
  · rintro hnamed before ⟨rest, hrest⟩ key job hget hstate
    obtain ⟨front, command, later, request, hsplit, hleases, hworker, hdeadline⟩ :=
      horigin before key job hget hstate
    refine ⟨_, _, hworker, hnamed front command (later ++ rest) request key ?_ hleases, hdeadline⟩
    rw [← hrest, hsplit, List.append_assoc, List.cons_append]

/-- Commands by which a job is created and leased to a worker without a name. -/
def namelessCommands : List Record :=
  [.ofDraft 1 (.command none (.job .create) (.job { jobType := "task", retries := 1 })),
    .ofDraft 2 (.command none (.jobBatch .activate)
      (.jobBatch { jobType := "task", worker := "", timeout := ⟨1⟩, maxJobs := 1 }))]

/-- The job that is leased. -/
def namelessJob : Job :=
  { Job.ofPayload (EngineState.keyAt 1 1) { jobType := "task", retries := 1 } with
    state := .activated, worker := some "", deadline := some (Instant.epoch.add ⟨1⟩) }

/-- The lease of the job goes back to the command that names no worker. -/
theorem EngineState.leased_jobs_held_nameless :
    let first := Processor.start 1 .builtin .unavailable
    ∃ before command later request, namelessCommands = before ++ command :: later ∧
      (first.after before).Leases command request (keyAt 1 1) ∧
      isBlankText request.worker = true := by
  have hget : ((Processor.start 1 .builtin .unavailable).after namelessCommands).state.jobs.get?
      (keyAt 1 1) = some namelessJob := by decide +kernel
  obtain ⟨horigin, -, -⟩ := leased_jobs_held 1 .unavailable namelessCommands
  obtain ⟨before, command, later, request, hsplit, hleases, hworker, -⟩ :=
    horigin (keyAt 1 1) namelessJob hget rfl
  refine ⟨before, command, later, request, hsplit, hleases, ?_⟩
  rw [← Option.some.inj hworker]
  rfl

/-- A command that names no worker is answered with an event, and the job is leased. -/
theorem EngineState.job_leased_to_nobody :
    let first := Processor.start 1 .builtin .unavailable
    (first.after namelessCommands).state.jobs.get? (keyAt 1 1) = some namelessJob ∧
      namelessJob.state = .activated ∧ namelessJob.worker = some "" ∧ isBlankText "" = true ∧
      (first.outcomes namelessCommands).map (fun outcome => outcome.followUps.map Draft.kind) =
        [[.event, .event], [.event]] := by
  exact ⟨by decide +kernel, rfl, rfl, rfl, by decide +kernel⟩

end Workflow
