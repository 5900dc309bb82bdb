/-
Every lease ends at most once.

The phase of a job can be read off the state (`InPhase`).  Each way of accepting a command takes the
phase along what it tells (`Accepted.leads`); from that the life of every job follows by induction
on the commands.  Commands about one job compare nothing but its state and its deadline, so late or
repeated ones are refused, or act on a lease that is really there and really over.

Jobs are found under their keys, so what is needed beside the phases is that a job is stored under
its own, issued key and that a live one has retries left.  Both are parts of `Aligned`.
-/
import Workflow.Proofs.Job.Incident
import Workflow.Proofs.Job.Life

namespace Workflow

open Decide EngineState

/-! ### The phase of a job in a state -/

/-- The state has the job in a phase. -/
def EngineState.InPhase (state : EngineState) (key : Nat) : JobPhase → Prop
  | .unborn => state.jobs.get? key = none
  | .created _ => False
  | .ready retries => ∃ job, state.jobs.get? key = some job ∧ job.state = .activatable ∧
      job.retries = retries
  | .leased retries deadline => ∃ job, state.jobs.get? key = some job ∧ job.state = .activated ∧
      job.retries = retries ∧ job.deadline = some deadline
  | .dead => ∃ job, state.jobs.get? key = some job ∧ job.state = .failed
  | .revived _ => False
  | .ended => state.jobs.get? key = none ∧ state.Issued key

namespace EngineState.InPhase

variable {state later : EngineState} {key : Nat} {phase : JobPhase} {job : Job}

/-- A job that stays as it is stays in its phase. -/
theorem keep (h : state.InPhase key phase) (hgrows : Grows state later)
    (hsame : later.jobs.get? key = state.jobs.get? key) : later.InPhase key phase := by
  cases phase with
  | ended => exact ⟨hsame.trans h.1, hgrows.issued h.2⟩
  | created retries => exact h
  | revived retries => exact h
  | _ =>
      unfold InPhase at h ⊢
      rw [hsame]
      exact h

/-- The phase of a live job is that of its state. -/
theorem of_live (h : state.InPhase key phase) (hget : state.jobs.get? key = some job) :
    (phase = .ready job.retries ∧ job.state = .activatable) ∨
      (∃ deadline, phase = .leased job.retries deadline ∧ job.state = .activated ∧
        job.deadline = some deadline) ∨
      (phase = .dead ∧ job.state = .failed) := by
  cases phase with
  | unborn => cases h.symm.trans hget
  | created retries => exact h.elim
  | ready retries =>
      obtain ⟨found, hfound, hstate, hretries⟩ := h
      cases hfound.symm.trans hget
      exact .inl ⟨by rw [hretries], hstate⟩
  | leased retries deadline =>
      obtain ⟨found, hfound, hstate, hretries, hdeadline⟩ := h
      cases hfound.symm.trans hget
      exact .inr (.inl ⟨deadline, by rw [hretries], hstate, hdeadline⟩)
  | dead =>
      obtain ⟨found, hfound, hstate⟩ := h
      cases hfound.symm.trans hget
      exact .inr (.inr ⟨rfl, hstate⟩)
  | revived retries => exact h.elim
  | ended => cases h.1.symm.trans hget

theorem isLive (h : state.InPhase key phase) (hget : state.jobs.get? key = some job) :
    phase.isLive = true := by
  rcases h.of_live hget with ⟨hphase, -⟩ | ⟨deadline, hphase, -⟩ | ⟨hphase, -⟩ <;>
    rw [hphase] <;> rfl

/-- A leased job is in the phase of its lease. -/
theorem of_activated (h : state.InPhase key phase) (hget : state.jobs.get? key = some job)
    (hactivated : job.state = .activated) :
    ∃ deadline, phase = .leased job.retries deadline ∧ job.deadline = some deadline := by
  rcases h.of_live hget with ⟨-, hstate⟩ | ⟨deadline, hphase, -, hdeadline⟩ | ⟨-, hstate⟩
  · cases hactivated.symm.trans hstate
  · exact ⟨deadline, hphase, hdeadline⟩
  · cases hactivated.symm.trans hstate

end EngineState.InPhase

/-- The phase of a job goes along with what is told of it. -/
def Leads (key : Nat) (state later : EngineState) (told : List (Record × Draft)) : Prop :=
  ∀ phase, state.InPhase key phase →
    ∃ next, JobRun phase (jobReports key told) next ∧ later.InPhase key next

/-! ### Reports and events -/

/-- Whether records of the type are about jobs. -/
def ValueType.aboutJobs : ValueType → Bool
  | .job => true
  | .jobBatch => true
  | _ => false

/-- The event is about something other than jobs. -/
def Event.Foreign (event : Event) : Prop := event.intent.valueType.aboutJobs = false

theorem Event.foreign_of_intent {event : Event} {intent : Intent} (h : event.intent = intent)
    (hother : intent.valueType.aboutJobs = false) : event.Foreign := by
  unfold Event.Foreign
  rw [h]
  exact hother

section Reports

variable {key : Nat} {command : Record} {event : Event}

theorem jobReport?_foreign (h : event.Foreign) : jobReport? key (event.told command) = none := by
  unfold Event.Foreign at h
  cases hintent : event.intent with
  | job intent => rw [hintent] at h; cases h
  | jobBatch intent => rw [hintent] at h; cases h
  | _ => simp [jobReport?, Event.told, Draft.event, hintent]

theorem jobReports_append (first second : List (Record × Draft)) :
    jobReports key (first ++ second) = jobReports key first ++ jobReports key second :=
  List.filterMap_append

theorem jobReports_foreign {events : List Event} (h : ∀ event ∈ events, event.Foreign) :
    jobReports key (events.map (Event.told command)) = [] := by
  unfold jobReports
  rw [List.filterMap_eq_nil_iff]
  intro entry hentry
  obtain ⟨event, he, rfl⟩ := List.mem_map.mp hentry
  exact jobReport?_foreign (h event he)

theorem jobReports_jobEvent (intent : JobIntent) (job : Job) (others : List Event) :
    jobReports key ((jobEvent intent job :: others).map (Event.told command)) =
      (if job.key = key then [⟨.event intent, some job.toPayload, command.timestamp⟩] else []) ++
        jobReports key (others.map (Event.told command)) := by
  have hone : jobReport? key ((jobEvent intent job).told command) =
      if job.key = key then some ⟨.event intent, some job.toPayload, command.timestamp⟩
      else none := by
    simp [jobReport?, Event.told, Draft.event, jobEvent, Payload.job?]
  unfold jobReports
  rw [List.map_cons, List.filterMap_cons, hone]
  by_cases hkey : job.key = key
  · rw [if_pos hkey, if_pos hkey]
    rfl
  · rw [if_neg hkey, if_neg hkey]
    rfl

/-- A batch reports the jobs that are in it. -/
theorem jobReports_batch (batchKey : Nat) (batch : JobBatchPayload) :
    jobReports key (([⟨batchKey, .jobBatch .activated, .jobBatch batch⟩] : List Event).map
      (Event.told command)) =
        if key ∈ batch.jobKeys then
          [⟨.activated, (batch.jobKeys.zip batch.jobs).lookup key, command.timestamp⟩]
        else [] := by
  by_cases hmem : key ∈ batch.jobKeys <;>
    simp [jobReports, jobReport?, Event.told, Draft.event, Payload.jobBatch?, Option.filter, hmem]

/-- Of keys and the values that all of them have, each key has its own. -/
theorem lookup_zip_filterMap {α : Type} {value? : Nat → Option α} {keys : List Nat}
    (hall : ∀ other ∈ keys, (value? other).isSome) (hmem : key ∈ keys) :
    (keys.zip (keys.filterMap value?)).lookup key = value? key := by
  induction keys with
  | nil => exact absurd hmem List.not_mem_nil
  | cons first rest ih =>
      obtain ⟨value, hvalue⟩ := Option.isSome_iff_exists.mp (hall first List.mem_cons_self)
      rw [List.filterMap_cons_some hvalue, List.zip_cons_cons]
      by_cases hfirst : key = first
      · rw [hfirst, List.lookup_cons_self, hvalue]
      · have hrest : key ∈ rest := (List.mem_cons.mp hmem).resolve_left hfirst
        rw [List.lookup_cons, beq_false_of_ne hfirst]
        exact ih (fun other ho => hall other (List.mem_cons_of_mem _ ho)) hrest

end Reports

/-! ### Events that are not about jobs -/

section Foreign

variable {state : EngineState}

theorem foreign_deployed {position : Nat} {final : EngineState} {request : DeploymentPayload}
    {starts : List ResolvedStart} {answer : Event} {others : List Event}
    (h : deployResolved state position request starts = .accept final answer others) :
    ∀ event ∈ answer :: others, event.Foreign := by
  cases h
  intro event he
  rcases List.mem_cons.mp he with heq | hin
  · rw [heq]
    rfl
  · rcases List.mem_append.mp hin with hcanceled | hcreated
    · obtain ⟨timer, -, rfl⟩ := List.mem_map.mp hcanceled
      rfl
    · exact Event.foreign_of_intent (intent_scheduleStarts _ starts _ event hcreated) rfl

theorem foreign_openIncident (job : Job) : ∀ event ∈ (openIncident state job).2, event.Foreign :=
  fun event he => Event.foreign_of_intent (intent_openIncident job event he) rfl

theorem foreign_resolveIncident (jobKey : Nat) :
    ∀ event ∈ (resolveIncident state jobKey).2, event.Foreign :=
  fun event he => Event.foreign_of_intent (intent_resolveIncident jobKey event he) rfl

end Foreign

theorem openIncident_jobs (state : EngineState) (job : Job) :
    (openIncident state job).1.jobs = state.jobs := by
  obtain ⟨counter, incidents, -, heq⟩ := openIncident_with state job
  rw [heq]

theorem resolveIncident_jobs (state : EngineState) (jobKey : Nat) :
    (resolveIncident state jobKey).1.jobs = state.jobs := by
  obtain ⟨incidents, heq⟩ := resolveIncident_with state jobKey
  rw [heq]

namespace JobLedger

/-- A job that is created under a new key and offered is the only one that changes. -/
theorem offered_new {ledger jobs : JobLedger} {key : Nat} {request : JobPayload} {offered : Job}
    (hnew : ledger.get? key = none)
    (hoffered : (ledger.create key request).2.markActivatable key = some (offered, jobs)) :
    (ledger.create key request).1.key = key ∧ offered.key = key ∧ offered.state = .activatable ∧
      offered.retries = (ledger.create key request).1.retries ∧
      ∀ other, jobs.get? other = if other = key then some offered else ledger.get? other := by
  obtain ⟨hcreated, hmarked⟩ := create_new hnew request
  rw [hmarked] at hoffered
  rw [hcreated]
  cases hoffered
  refine ⟨rfl, rfl, rfl, rfl, fun other => ?_⟩
  rw [get?_put, get?_put]
  by_cases heq : other = key
  · rw [if_pos heq]
    exact if_pos heq
  · rw [if_neg heq]
    exact (if_neg heq).trans (if_neg heq)

/-- A failure uses up a retry. -/
theorem retries_failedJob (job : Job) (backoff : Option Duration) (errorMessage : Option String)
    (now : Instant) : (failedJob job backoff errorMessage now).retries = job.retries - 1 := by
  unfold failedJob
  dsimp only
  split <;> rfl

end JobLedger

/-! ### Each way of accepting a command -/

namespace Leads

variable {key : Nat} {state later : EngineState} {command : Record}

/-- What leaves the job alone and tells nothing of it. -/
theorem keep {told : List (Record × Draft)} (hgrows : Grows state later)
    (hsame : later.jobs.get? key = state.jobs.get? key) (hnone : jobReports key told = []) :
    Leads key state later told := by
  intro phase hphase
  rw [hnone]
  exact ⟨phase, .nil phase, hphase.keep hgrows hsame⟩

/-- What leaves all jobs alone and tells of other things only. -/
theorem foreign {events : List Event} (hgrows : Grows state later) (hjobs : later.jobs = state.jobs)
    (h : ∀ event ∈ events, event.Foreign) :
    Leads key state later (events.map (Event.told command)) :=
  .keep hgrows (by rw [hjobs]) (jobReports_foreign h)

/-- What changes one job and tells of that job leads every job along if it leads that one. -/
theorem one {subject : Nat} {job : Job} {intent : JobIntent} {others : List Event}
    (hgrows : Grows state later) (hjob : job.key = subject)
    (hsame : ∀ other, other ≠ subject → later.jobs.get? other = state.jobs.get? other)
    (hforeign : ∀ event ∈ others, event.Foreign)
    (hsubject : ∀ phase, state.InPhase subject phase → ∃ next,
      JobStep phase ⟨.event intent, some job.toPayload, command.timestamp⟩ next ∧
        later.InPhase subject next) :
    Leads key state later ((jobEvent intent job :: others).map (Event.told command)) := by
  have htold : jobReports key ((jobEvent intent job :: others).map (Event.told command)) =
      if subject = key then [⟨.event intent, some job.toPayload, command.timestamp⟩] else [] := by
    rw [jobReports_jobEvent, jobReports_foreign hforeign, List.append_nil, hjob]
  by_cases hkey : subject = key
  · subst hkey
    intro phase hphase
    obtain ⟨next, hstep, hnext⟩ := hsubject phase hphase
    rw [htold, if_pos rfl]
    exact ⟨next, .single hstep, hnext⟩
  · exact .keep hgrows (hsame key (Ne.symm hkey)) (by rw [htold, if_neg hkey])

/-- A job that is created is offered at once. -/
theorem jobCreated (h : Aligned state) (hcapacity : state.keyCounter + 1 < 2 ^ keyCounterBits)
    {request : JobPayload} {offered : Job} {jobs : JobLedger}
    (hoffered : (state.jobs.create state.nextKey.1 request).2.markActivatable state.nextKey.1 =
      some (offered, jobs)) :
    Leads key state { state.nextKey.2 with jobs }
      (([⟨state.nextKey.1, .job .created,
          .job (state.jobs.create state.nextKey.1 request).1.toPayload⟩,
        ⟨state.nextKey.1, .job .activatable, .job offered.toPayload⟩] : List Event).map
          (Event.told command)) := by
  have hnot := not_issued_nextKey hcapacity
  have hnew := h.get?_nextKey hcapacity
  obtain ⟨hcreated, hoffer, hstate, hretries, hget⟩ := JobLedger.offered_new hnew hoffered
  generalize (state.jobs.create state.nextKey.1 request).1 = created at hcreated hretries
  have hevents : ([⟨state.nextKey.1, .job .created, .job created.toPayload⟩,
      ⟨state.nextKey.1, .job .activatable, .job offered.toPayload⟩] : List Event) =
        [jobEvent .created created, jobEvent .activatable offered] := by
    unfold jobEvent
    rw [hcreated, hoffer]
  have htold : jobReports key ([jobEvent .created created, jobEvent .activatable offered].map
      (Event.told command)) = if state.nextKey.1 = key then
        [⟨.event .created, some created.toPayload, command.timestamp⟩,
          ⟨.event .activatable, some offered.toPayload, command.timestamp⟩] else [] := by
    rw [jobReports_jobEvent, jobReports_jobEvent, hcreated, hoffer]
    by_cases hkey : state.nextKey.1 = key
    · rw [if_pos hkey, if_pos hkey, if_pos hkey]
      rfl
    · rw [if_neg hkey, if_neg hkey, if_neg hkey]
      rfl
  rw [hevents]
  by_cases hkey : state.nextKey.1 = key
  · subst hkey
    intro phase hphase
    rw [htold, if_pos rfl]
    have hunborn : phase = .unborn := by
      cases phase with
      | unborn => rfl
      | created retries => exact hphase.elim
      | revived retries => exact hphase.elim
      | ended => exact absurd hphase.2 hnot
      | _ =>
          obtain ⟨job, hjob, -⟩ := hphase
          cases hnew.symm.trans hjob
    subst hunborn
    refine ⟨.ready created.retries, .cons .created (.single (.activatable hretries)), offered, ?_,
      hstate, hretries⟩
    exact (hget _).trans (if_pos rfl)
  · refine .keep ⟨rfl, Nat.le_succ _⟩ ?_ (htold.trans (if_neg hkey))
    exact (hget key).trans (if_neg (Ne.symm hkey))

/-- Jobs that are activated were ready, and are leased until the deadline that is told. -/
theorem jobsActivated {request : JobBatchPayload} {jobKeys : List Nat} {jobs : JobLedger}
    (hactivate : state.jobs.activate request.jobType request.worker request.timeout
      request.maxJobs command.timestamp = (jobKeys, jobs)) :
    Leads key state { state.nextKey.2 with jobs }
      (([⟨state.nextKey.1, .jobBatch .activated,
        .jobBatch { request with
          jobKeys, jobs := jobKeys.filterMap fun key => (jobs.get? key).map Job.toPayload }⟩] :
          List Event).map (Event.told command)) := by
  have hkeys : jobKeys = state.jobs.offeredKeys request.jobType request.maxJobs
      command.timestamp := (congrArg Prod.fst hactivate).symm
  have hget : ∀ other, jobs.get? other = if other ∈ jobKeys then
      (state.jobs.get? other).map
        (JobLedger.leased request.worker (command.timestamp.add request.timeout))
      else state.jobs.get? other := by
    intro other
    rw [hkeys, ← JobLedger.get?_activate, hactivate]
  have hleased : ∀ other ∈ jobKeys, ∃ job, state.jobs.get? other = some job ∧
      job.state = .activatable ∧ jobs.get? other = some
        (JobLedger.leased request.worker (command.timestamp.add request.timeout) job) := by
    intro other ho
    rw [hkeys] at ho
    obtain ⟨job, hjob, hoffered⟩ := JobLedger.state_of_mem_offeredKeys ho
    simp only [Job.isOffered, Bool.and_eq_true, beq_iff_eq] at hoffered
    refine ⟨job, hjob, hoffered.1.1, ?_⟩
    rw [hget, hkeys, if_pos ho, hjob]
    rfl
  by_cases hmem : key ∈ jobKeys
  · intro phase hphase
    obtain ⟨job, hjob, hstate, hafter⟩ := hleased key hmem
    have hready : phase = .ready job.retries := by
      rcases hphase.of_live hjob with ⟨hready, -⟩ | ⟨-, -, hother, -⟩ | ⟨-, hother⟩
      · exact hready
      · cases hstate.symm.trans hother
      · cases hstate.symm.trans hother
    have hall : ∀ other ∈ jobKeys, ((jobs.get? other).map Job.toPayload).isSome := by
      intro other ho
      obtain ⟨found, -, -, hfound⟩ := hleased other ho
      rw [hfound]
      rfl
    rw [jobReports_batch, if_pos hmem, lookup_zip_filterMap hall hmem, hafter, hready]
    exact ⟨.leased job.retries (command.timestamp.add request.timeout),
      .single (.activated rfl rfl), _, hafter, rfl, rfl, rfl⟩
  · refine .keep ⟨rfl, Nat.le_succ _⟩ ((hget key).trans (if_neg hmem)) ?_
    rw [jobReports_batch, if_neg hmem]

/-- A job that is completed was leased, and is gone. -/
theorem jobCompleted (h : Aligned state) {subject : Nat} {job : Job} {jobs : JobLedger}
    (hcomplete : state.jobs.complete subject = .ok (job, jobs)) :
    Leads key state { state with jobs } ([jobEvent .completed job].map (Event.told command)) := by
  obtain ⟨old, hget, hactivated, hended, rfl⟩ := JobLedger.complete_ok hcomplete
  obtain ⟨hown, hissued, -⟩ := h.job subject old hget
  have hkey : job.key = subject := by rw [hended]; exact hown
  refine .one (.withJobs state _) hkey (Aligned.get?_remove_of_ne hown)
    (fun event he => absurd he List.not_mem_nil) fun phase hphase => ?_
  obtain ⟨deadline, rfl, -⟩ := hphase.of_activated hget hactivated
  refine ⟨.ended, .completed, ?_, hissued⟩
  show (state.jobs.remove old).get? subject = none
  rw [JobLedger.get?_remove, if_pos hown.symm]

/-- A job that fails was leased; it is ready again, or out of retries. -/
theorem jobFailed (h : Aligned state) {subject : Nat} {backoff : Option Duration}
    {errorMessage : Option String} {job : Job} {jobs : JobLedger}
    (hfail : state.jobs.fail subject backoff errorMessage command.timestamp = .ok (job, jobs)) :
    Leads key state (openIncident { state with jobs } job).1
      ((jobEvent .failed job :: (openIncident { state with jobs } job).2).map
        (Event.told command)) := by
  obtain ⟨old, hget, hactivated, hended, rfl⟩ := JobLedger.fail_ok hfail
  obtain ⟨hown, -, -⟩ := h.job subject old hget
  have hlive : old.state ≠ .failed := by
    rw [hactivated]
    decide
  have hretries : job.retries + 1 = old.retries := by
    have hpos := (h.isSound_of_not_failed hget hlive).2
    rw [hended, JobLedger.retries_failedJob]
    omega
  obtain ⟨hsame, hcases⟩ := JobLedger.failedJob_cases old backoff errorMessage command.timestamp
  rw [← hended] at hsame hcases
  have hkey : job.key = subject := hsame.trans hown
  have hjobs : ∀ other, (openIncident { state with jobs := (state.jobs.release old).put job }
      job).1.jobs.get? other = if other = subject then some job else state.jobs.get? other := by
    intro other
    rw [openIncident_jobs]
    show ((state.jobs.release old).put job).get? other = _
    rw [JobLedger.get?_put, JobLedger.get?_release, hkey]
  refine .one ((Grows.withJobs state _).trans (grows_openIncident _ job)) hkey
    (fun other hne => (hjobs other).trans (if_neg hne)) (foreign_openIncident job)
    fun phase hphase => ?_
  obtain ⟨deadline, rfl, -⟩ := hphase.of_activated hget hactivated
  have hafter := (hjobs subject).trans (if_pos rfl)
  rcases hcases with ⟨hstate, hleft⟩ | ⟨hstate, hnone⟩
  · exact ⟨.ready job.retries, .failed hretries (Nat.pos_of_ne_zero hleft), job, hafter, hstate,
      rfl⟩
  · exact ⟨.dead, .exhausted hretries hnone, job, hafter, hstate⟩

/-- A lease that is reclaimed is over, and its job is ready again. -/
theorem jobTimedOut (h : Aligned state) {subject : Nat} {observed : Instant} {job : Job}
    {jobs : JobLedger}
    (htimeOut : state.jobs.timeOut subject observed command.timestamp = .ok (job, jobs)) :
    Leads key state { state with jobs } ([jobEvent .timedOut job].map (Event.told command)) := by
  obtain ⟨old, hget, hactivated, hdeadline, hlate, hended, rfl⟩ := JobLedger.timeOut_ok htimeOut
  have hkey : job.key = subject := by
    rw [hended]
    exact (h.job subject old hget).1
  refine .one (.withJobs state _) hkey (Aligned.get?_put_of_ne hkey)
    (fun event he => absurd he List.not_mem_nil) fun phase hphase => ?_
  obtain ⟨deadline, rfl, hbound⟩ := hphase.of_activated hget hactivated
  cases hdeadline.symm.trans hbound
  refine ⟨.ready old.retries, .timedOut (by rw [hended]; rfl) hlate, job, ?_, by rw [hended],
    by rw [hended]⟩
  show (state.jobs.put job).get? subject = some job
  rw [JobLedger.get?_put, if_pos hkey.symm]

/-- A job that is canceled was live, and is gone. -/
theorem jobCanceled (h : Aligned state) {subject : Nat} {job : Job} {jobs : JobLedger}
    (hcancel : state.jobs.cancel subject = .ok (job, jobs)) :
    Leads key state (resolveIncident { state with jobs } subject).1
      ((jobEvent .canceled job :: (resolveIncident { state with jobs } subject).2).map
        (Event.told command)) := by
  obtain ⟨old, hget, hended, rfl⟩ := JobLedger.cancel_ok hcancel
  obtain ⟨hown, hissued, -⟩ := h.job subject old hget
  have hkey : job.key = subject := by rw [hended]; exact hown
  have hgrows : Grows state
      (resolveIncident { state with jobs := state.jobs.remove old } subject).1 :=
    (Grows.withJobs state _).trans (grows_resolveIncident _ subject)
  have hjobs : (resolveIncident { state with jobs := state.jobs.remove old } subject).1.jobs =
      state.jobs.remove old := resolveIncident_jobs _ subject
  refine .one hgrows hkey (fun other hne => ?_) (foreign_resolveIncident subject)
    fun phase hphase => ⟨.ended, .canceled (hphase.isLive hget), ?_, hgrows.issued hissued⟩
  · rw [hjobs]
    exact Aligned.get?_remove_of_ne hown other hne
  · rw [hjobs, JobLedger.get?_remove, if_pos hown.symm]

/-- A job that gets new retries stays in its phase; if it was out of retries, it is offered
again. -/
theorem retriesUpdated (h : Aligned state) {subject retries : Nat} (hretries : 0 < retries)
    {revived : Bool} {job : Job} {jobs : JobLedger}
    (hupdate : state.jobs.updateRetries subject retries = .ok (revived, jobs))
    (hjob : jobs.get? subject = some job) :
    Leads key state (resolveIncident { state with jobs } subject).1
      ((jobEvent .retriesUpdated job :: ((resolveIncident { state with jobs } subject).2 ++
        if revived then [jobEvent .activatable job] else [])).map (Event.told command)) := by
  have hgrows : Grows state (resolveIncident { state with jobs } subject).1 :=
    (Grows.withJobs state jobs).trans (grows_resolveIncident _ subject)
  have hjobs : (resolveIncident { state with jobs } subject).1.jobs = jobs :=
    resolveIncident_jobs _ subject
  have hafter : (resolveIncident { state with jobs } subject).1.jobs.get? subject = some job := by
    rw [hjobs]
    exact hjob
  have hforeign : ∀ event ∈ (resolveIncident { state with jobs } subject).2, event.Foreign :=
    foreign_resolveIncident subject
  obtain ⟨old, hget, hcases⟩ := JobLedger.updateRetries_ok hretries hupdate
  have hown := (h.job subject old hget).1
  -- The job that is put in the place of the old one has its key.
  have hothers : ∀ {put : Job}, jobs = state.jobs.put put → put.key = subject →
      put = job ∧ ∀ other, other ≠ subject →
        (resolveIncident { state with jobs } subject).1.jobs.get? other =
          state.jobs.get? other := by
    intro put heq hput
    rw [heq, JobLedger.get?_put, if_pos hput.symm] at hjob
    refine ⟨Option.some.inj hjob, fun other hne => ?_⟩
    rw [hjobs, heq]
    exact Aligned.get?_put_of_ne hput other hne
  rcases hcases with ⟨hfailed, hrevived, heq⟩ | ⟨hlive, hrevived, heq⟩
  · obtain ⟨hput, hsame⟩ := hothers heq hown
    have hkey : job.key = subject := by rw [← hput]; exact hown
    have htold : jobReports key ((jobEvent .retriesUpdated job ::
        ((resolveIncident { state with jobs } subject).2 ++ [jobEvent .activatable job])).map
          (Event.told command)) = if subject = key then
            [⟨.event .retriesUpdated, some job.toPayload, command.timestamp⟩,
              ⟨.event .activatable, some job.toPayload, command.timestamp⟩] else [] := by
      rw [jobReports_jobEvent, List.map_append, jobReports_append, jobReports_foreign hforeign,
        jobReports_jobEvent, hkey]
      by_cases heq : subject = key
      · rw [if_pos heq, if_pos heq, if_pos heq]
        rfl
      · rw [if_neg heq, if_neg heq, if_neg heq]
        rfl
    rw [if_pos hrevived]
    by_cases hsubject : subject = key
    · subst hsubject
      intro phase hphase
      have hdead : phase = .dead := by
        rcases hphase.of_live hget with ⟨-, hstate⟩ | ⟨-, -, hstate, -⟩ | ⟨hdead, -⟩
        · cases hfailed.symm.trans hstate
        · cases hfailed.symm.trans hstate
        · exact hdead
      rw [htold, if_pos rfl, hdead]
      exact ⟨.ready job.retries, .cons .revived (.single (.offered rfl)), job, hafter,
        by rw [← hput], rfl⟩
    · exact .keep hgrows (hsame key (Ne.symm hsubject)) (htold.trans (if_neg hsubject))
  · obtain ⟨hput, hsame⟩ := hothers heq hown
    have hkey : job.key = subject := by rw [← hput]; exact hown
    rw [if_neg (by rw [hrevived]; decide), List.append_nil]
    refine .one hgrows hkey hsame hforeign fun phase hphase => ?_
    rcases hphase.of_live hget with
      ⟨rfl, hstate⟩ | ⟨deadline, rfl, hstate, hdeadline⟩ | ⟨-, hstate⟩
    · exact ⟨.ready job.retries, .updatedReady, job, hafter, by rw [← hput]; exact hstate, rfl⟩
    · exact ⟨.leased job.retries deadline, .updatedLeased, job, hafter,
        by rw [← hput]; exact hstate, rfl, by rw [← hput]; exact hdeadline⟩
    · exact absurd hstate hlive

end Leads

/-- **Every accepted command leads every job along.** -/
theorem Accepted.leads {evaluator : Evaluator} {state final : EngineState} {command : Record}
    {answer : Event} {others : List Event}
    (haccepted : Accepted evaluator state command final answer others) (h : Aligned state)
    (hcapacity : final.keyCounter < 2 ^ keyCounterBits) (key : Nat) :
    Leads key state final ((answer :: others).map (Event.told command)) := by
  have hgrows := haccepted.grows
  cases haccepted with
  | deployed request starts hintent hvalue hid hunique hstarts hdeploy =>
      exact .foreign hgrows (keepsJobs_deployed hdeploy).jobs (foreign_deployed hdeploy)
  | timerFired subject timer =>
      refine .foreign hgrows (keepsJobs_fired state subject timer command.position).jobs ?_
      intro event he
      rcases List.mem_cons.mp he with heq | hin
      · rw [heq]
        rfl
      · rcases List.mem_append.mp hin with hstart | hnext
        · exact Event.foreign_of_intent (intent_fireStart event hstart) rfl
        · exact Event.foreign_of_intent (intent_scheduleSuccessor event hnext) rfl
  | jobCreated request offered jobs hintent hvalue htype hretries hoffered =>
      exact .jobCreated h hcapacity hoffered
  | jobsActivated request jobKeys jobs hintent hvalue htype htimeout hmax hactivate =>
      exact .jobsActivated hactivate
  | jobCompleted subject job jobs hintent hkey hcomplete => exact .jobCompleted h hcomplete
  | jobFailed subject request job jobs hintent hkey hvalue hfail => exact .jobFailed h hfail
  | jobTimedOut subject observed job jobs hintent hkey hobserved htimeOut =>
      exact .jobTimedOut h htimeOut
  | retriesUpdated subject request revived job jobs hintent hkey hvalue hretries hupdate hjob =>
      exact .retriesUpdated h hretries hupdate hjob
  | jobCanceled subject job jobs hintent hkey hcancel => exact .jobCanceled h hcancel
  | _ =>
      refine .foreign hgrows rfl fun event he => ?_
      rw [List.mem_singleton.mp he]
      rfl

/-- What is told of a job by the time a state is reached is a beginning of a life, and it ends in
the phase that the job has in the state. -/
theorem EngineState.exists_jobRun (partitionId : Nat) (evaluator : Evaluator)
    (commands : List Record)
    (hcapacity : ((Processor.start partitionId .builtin evaluator).after commands).state.keyCounter
      < 2 ^ keyCounterBits) (key : Nat) :
    ∃ phase, JobRun .unborn (jobReports key
        ((Processor.start partitionId .builtin evaluator).history commands)) phase ∧
      ((Processor.start partitionId .builtin evaluator).after commands).state.InPhase key
        phase := by
  have hlife := Processor.history_induction evaluator
    (fun past state => state.keyCounter < 2 ^ keyCounterBits → Aligned state ∧
      ∃ phase, JobRun .unborn (jobReports key past) phase ∧ state.InPhase key phase) ?_ ?_ commands
    (.start partitionId .builtin evaluator) [] rfl rfl
    (fun _ => ⟨aligned_initial partitionId, .unborn, .nil _, rfl⟩) hcapacity hcapacity
  · rw [List.nil_append] at hlife
    exact hlife.2
  · intro past state command draft h hkind hfits
    obtain ⟨haligned, phase, hrun, hphase⟩ := h hfits
    have hnone : jobReport? key (command, draft) = none := if_neg hkind
    refine ⟨haligned, phase, ?_, hphase⟩
    rw [jobReports_append]
    unfold jobReports at hrun ⊢
    rw [List.filterMap_cons_none hnone, List.filterMap_nil, List.append_nil]
    exact hrun
  · intro past state command final answer others h haccepted hfits _
    obtain ⟨haligned, phase, hrun, hphase⟩ :=
      h (Nat.lt_of_le_of_lt haccepted.grows.keyCounter hfits)
    obtain ⟨next, hmore, hnext⟩ := haccepted.leads haligned hfits key phase hphase
    refine ⟨haligned.accepted haccepted hfits, next, ?_, hnext⟩
    rw [jobReports_append]
    exact hrun.append hmore

/-- **Every lease ends at most once.**  What is told of a job, in its own events and in the batches
that it is in, is a beginning of a life.  So every completion, failure and reclaim ends a lease that
was activated before, with nothing but new retries in between, and a reclaim follows from a command
that is later than the deadline of that activation; between two activations a lease has ended; and
nothing follows a completion or a cancel. -/
theorem EngineState.leases_end_once (partitionId : Nat) (evaluator : Evaluator)
    (commands : List Record)
    (hcapacity : ((Processor.start partitionId .builtin evaluator).after commands).state.keyCounter
      < 2 ^ keyCounterBits) (key : Nat) :
    let reports := jobReports key
      ((Processor.start partitionId .builtin evaluator).history commands)
    (∃ rest, JobRun .unborn (reports ++ rest) .ended) ∧
    (∀ before ending later, reports = before ++ ending :: later → ending.news.endsLease = true →
      ∃ earlier activation updates deadline, before = earlier ++ activation :: updates ∧
        activation.news = .activated ∧
        activation.job.bind JobPayload.deadline = some deadline ∧
        (∀ report ∈ updates, report.news = .event .retriesUpdated) ∧
        (ending.news = .event .timedOut → deadline < ending.time)) ∧
    (∀ before first between second later,
      reports = before ++ first :: (between ++ second :: later) →
      first.news = .activated → second.news = .activated →
      ∃ ending ∈ between, ending.news.endsLease = true) ∧
    ∀ before last later, reports = before ++ last :: later →
      (last.news = .event .completed ∨ last.news = .event .canceled) → later = [] := by
  intro reports
  obtain ⟨phase, hrun, -⟩ := exists_jobRun partitionId evaluator commands hcapacity key
  change JobRun .unborn reports phase at hrun
  refine ⟨?_, ?_, ?_, ?_⟩
  · obtain ⟨rest, hrest⟩ := JobRun.exists_end phase
    exact ⟨rest, hrun.append hrest⟩
  · intro before ending later hsplit hends
    rw [hsplit] at hrun
    obtain ⟨held, freed, hbefore, hstep, -⟩ := hrun.split_at
    have hleased : ∃ retries deadline, held = .leased retries deadline ∧
        (ending.news = .event .timedOut → deadline < ending.time) := by
      cases hstep with
      | completed => exact ⟨_, _, rfl, fun hnews => by cases hnews⟩
      | timedOut hretries hlate => exact ⟨_, _, rfl, fun _ => hlate⟩
      | failed => exact ⟨_, _, rfl, fun hnews => by cases hnews⟩
      | exhausted => exact ⟨_, _, rfl, fun hnews => by cases hnews⟩
      | _ => cases hends
    obtain ⟨retries, deadline, rfl, hlate⟩ := hleased
    rcases hbefore.activation with
      ⟨_, hunborn, -⟩ | ⟨earlier, activation, updates, heq, hnews, hdeadline, hupdates⟩
    · cases hunborn
    · exact ⟨earlier, activation, updates, deadline, heq, hnews, hdeadline, hupdates, hlate⟩
  · intro before first between second later hsplit hfirst hsecond
    by_contra hnone
    have hnothing : ∀ report ∈ between, report.news.endsLease = false := by
      intro report hr
      cases hends : report.news.endsLease with
      | false => rfl
      | true => exact absurd ⟨report, hr, hends⟩ hnone
    rw [hsplit] at hrun
    obtain ⟨_, held, -, hstep, hrest⟩ := hrun.split_at
    obtain ⟨free, _, hbetween, hagain, -⟩ := hrest.split_at
    -- Only a job that is ready is activated, and the first activation left it leased.
    have hheld : ∃ retries deadline, held = .leased retries deadline := by
      cases hstep with
      | activated => exact ⟨_, _, rfl⟩
      | _ => cases hfirst
    obtain ⟨retries, deadline, rfl⟩ := hheld
    have hready : ∃ retries, free = .ready retries := by
      cases hagain with
      | activated => exact ⟨_, rfl⟩
      | _ => cases hsecond
    obtain ⟨left, rfl⟩ := hready
    rcases hbetween.stays_leased hnothing with ⟨_, hleased⟩ | hended
    · cases hleased
    · cases hended
  · intro before last later hsplit hlast
    rw [hsplit] at hrun
    obtain ⟨_, gone, -, hstep, hrest⟩ := hrun.split_at
    have hgone : gone = .ended := by
      cases hstep with
      | completed => rfl
      | canceled => rfl
      | _ => rcases hlast with hnews | hnews <;> cases hnews
    rw [hgone] at hrest
    exact hrest.of_ended

/-- Commands by which the lease of a job is reclaimed, and later leases end with a failure, with a
failure for good and with completion. -/
def leaseCommands : List Record :=
  let activate : Draft := .command none (.jobBatch .activate)
    (.jobBatch { jobType := "task", worker := "worker", timeout := ⟨1⟩, maxJobs := 1 })
  let about (intent : JobIntent) (value : JobPayload) : Draft :=
    (Draft.command (some (keyAt 1 1)) (.job intent) (.job value)).withTimestamp .latest
  [.ofDraft 1 (.command none (.job .create) (.job { jobType := "task", retries := 2 })),
    .ofDraft 2 activate,
    .ofDraft 3 (about .timeOut { jobType := "task", deadline := some (Instant.epoch.add ⟨1⟩) }),
    .ofDraft 4 activate, .ofDraft 5 (about .fail { jobType := "task" }),
    .ofDraft 6 activate, .ofDraft 7 (about .fail { jobType := "task" }),
    .ofDraft 8 (about .updateRetries { jobType := "task", retries := 1 }),
    .ofDraft 9 activate, .ofDraft 10 (about .complete { jobType := "task" })]

theorem EngineState.leases_end_once_reclaimed :
    let first := Processor.start 1 .builtin .unavailable
    let reports := jobReports (keyAt 1 1) (first.history leaseCommands)
    (first.after leaseCommands).state.keyCounter < 2 ^ keyCounterBits ∧
      reports.map JobReport.news = [.event .created, .event .activatable, .activated,
        .event .timedOut, .activated, .event .failed, .activated, .event .failed,
        .event .retriesUpdated, .event .activatable, .activated, .event .completed] ∧
      ∃ rest, JobRun .unborn (reports ++ rest) .ended := by
  have hcapacity : ((Processor.start 1 .builtin .unavailable).after
      leaseCommands).state.keyCounter < 2 ^ keyCounterBits := by decide +kernel
  refine ⟨hcapacity, by decide +kernel, ?_⟩
  exact (leases_end_once 1 .unavailable leaseCommands hcapacity (keyAt 1 1)).1

end Workflow
