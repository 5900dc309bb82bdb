/-
No two open incidents name the same job, however many keys were handed out.

That jobs and incidents agree in all they say (`Aligned`) needs keys that are new.  When a key is
handed out twice an incident may be lost, and the ledger may lead from a job to the incident of
another one.  `Troubled` is what is left: the job that an open incident names has failed, and the
ledger leads from it to that incident.

Each way of accepting a command falls into one of three kinds here too.  No job leaves its failure
(`Troubled.keep`), a leased job fails for good (`Troubled.fail`), or one job goes or is updated, and
then what the ledger leads to from it is resolved (`Troubled.resolve`).

Other handlers than the built-in ones may be registered, and those that are given as data do not
touch jobs or incidents (`Registry.Careful`).
-/
import Workflow.Engine.Script
import Workflow.Proofs.Job.Incident

namespace Workflow

open Decide

namespace EngineState

/-- Open incidents name failed jobs, and the ledger leads from these to them. -/
structure Troubled (state : EngineState) : Prop where
  /-- A job is stored under its own key. -/
  job : ∀ key job, state.jobs.get? key = some job → job.key = key
  /-- An incident is. -/
  incident : ∀ key incident, state.incidents.get? key = some incident → incident.key = key
  /-- The job of an open incident has failed, and the ledger leads to the incident. -/
  opened : ∀ key incident jobKey, state.incidents.get? key = some incident →
    incident.isActive = true → incident.value.jobKey = some jobKey →
      state.incidents.byJob.get? jobKey = some key ∧
        ∃ job, state.jobs.get? jobKey = some job ∧ job.state = .failed

theorem troubled_initial (partitionId : Nat) : Troubled (initial partitionId) where
  job := fun _ _ h => by cases h
  incident := fun _ _ h => by cases h
  opened := fun _ _ _ h => by cases h

namespace Troubled

variable {state later : EngineState}

/-- What takes no job out of its failure keeps the invariant. -/
theorem keep (h : Troubled state) (hincidents : later.incidents = state.incidents)
    (hkeys : ∀ key job, later.jobs.get? key = some job → job.key = key)
    (hfailed : ∀ key job, state.jobs.get? key = some job → job.state = .failed →
      ∃ found, later.jobs.get? key = some found ∧ found.state = .failed) : Troubled later := by
  refine ⟨hkeys, fun key incident hget => ?_, fun key incident jobKey hget hactive hnames => ?_⟩
  · rw [hincidents] at hget
    exact h.incident key incident hget
  · rw [hincidents] at hget ⊢
    obtain ⟨hlink, job, hjob, hstate⟩ := h.opened key incident jobKey hget hactive hnames
    exact ⟨hlink, hfailed jobKey job hjob hstate⟩

/-- One job that has not failed is put in another state or removed. -/
theorem replace (h : Troubled state) (hincidents : later.incidents = state.incidents) {job : Job}
    {key : Nat} (hget : state.jobs.get? key = some job) (hlive : job.state ≠ .failed)
    (hothers : ∀ other, other ≠ key → later.jobs.get? other = state.jobs.get? other)
    (hself : ∀ found, later.jobs.get? key = some found → found.key = key) : Troubled later := by
  refine h.keep hincidents (fun other found hfound => ?_) fun other found hfound hstate => ?_
  · by_cases heq : other = key
    · subst heq
      exact hself found hfound
    · exact h.job other found (hothers other heq ▸ hfound)
  · by_cases heq : other = key
    · subst heq
      cases hget.symm.trans hfound
      exact absurd hstate hlive
    · exact ⟨found, (hothers other heq).trans hfound, hstate⟩

/-- An incident is opened under any key, about no job or about one that fails now. -/
theorem create (h : Troubled state) {value : IncidentPayload} {created : Nat}
    (hincidents : later.incidents = state.incidents.create created value)
    (hkeys : ∀ key job, later.jobs.get? key = some job → job.key = key)
    (hnew : ∀ jobKey, value.jobKey = some jobKey →
      (∀ job, state.jobs.get? jobKey = some job → job.state ≠ .failed) ∧
        ∃ job, later.jobs.get? jobKey = some job ∧ job.state = .failed)
    (hfailed : ∀ key job, state.jobs.get? key = some job → job.state = .failed →
      ∃ found, later.jobs.get? key = some found ∧ found.state = .failed) : Troubled later := by
  refine ⟨hkeys, fun key incident hget => ?_, fun key incident jobKey hget hactive hnames => ?_⟩
  · rw [hincidents, IncidentLedger.get?_create] at hget
    by_cases heq : key = created
    · rw [if_pos heq] at hget
      cases hget
      exact heq.symm
    · rw [if_neg heq] at hget
      exact h.incident key incident hget
  · rw [hincidents, IncidentLedger.get?_create] at hget
    rw [hincidents]
    by_cases heq : key = created
    · rw [if_pos heq] at hget
      cases hget
      change value.jobKey = some jobKey at hnames
      refine ⟨?_, (hnew jobKey hnames).2⟩
      rw [IncidentLedger.byJob_create hnames, if_pos rfl, heq]
    · rw [if_neg heq] at hget
      obtain ⟨hlink, job, hjob, hstate⟩ := h.opened key incident jobKey hget hactive hnames
      refine ⟨?_, hfailed jobKey job hjob hstate⟩
      cases hvalue : value.jobKey with
      | none =>
          rw [IncidentLedger.byJob_create_none hvalue]
          exact hlink
      | some named =>
          -- The job that fails now was named by none before.
          have hne : jobKey ≠ named := by
            rintro rfl
            exact (hnew jobKey hvalue).1 job hjob hstate
          rw [IncidentLedger.byJob_create hvalue, if_neg hne]
          exact hlink

/-- A leased job fails for good. -/
theorem fail (h : Troubled state) {jobs : JobLedger} {job ended : Job} {key : Nat}
    (hget : state.jobs.get? key = some job) (hactivated : job.state = .activated)
    (hkey : ended.key = key) (hstate : ended.state = .failed)
    (hjobs : ∀ other, jobs.get? other = if other = key then some ended else state.jobs.get? other) :
    Troubled { state.nextKey.2 with
      jobs, incidents := state.incidents.create state.nextKey.1 (exhaustedJob ended) } := by
  have hlive : ∀ found, state.jobs.get? key = some found → found.state ≠ .failed := by
    intro found hfound
    cases hget.symm.trans hfound
    rw [hactivated]
    decide
  refine h.create rfl (fun other found hfound => ?_) (fun jobKey hnames => ?_)
    fun other found hfound hfailed => ?_
  · change jobs.get? other = some found at hfound
    rw [hjobs] at hfound
    by_cases heq : other = key
    · rw [if_pos heq] at hfound
      cases hfound
      exact hkey.trans heq.symm
    · rw [if_neg heq] at hfound
      exact h.job other found hfound
  · cases (show some ended.key = some jobKey from hnames)
    rw [hkey]
    refine ⟨hlive, ended, ?_, hstate⟩
    show jobs.get? key = some ended
    rw [hjobs, if_pos rfl]
  · have hne : other ≠ key := by
      rintro rfl
      exact hlive found hfound hfailed
    refine ⟨found, ?_, hfailed⟩
    show jobs.get? other = some found
    rw [hjobs, if_neg hne]
    exact hfound

/-- One job goes or is updated, and what the ledger leads to from it is resolved. -/
theorem resolve (h : Troubled state) {jobs : JobLedger} {key : Nat}
    (hothers : ∀ other, other ≠ key → jobs.get? other = state.jobs.get? other)
    (hself : ∀ found, jobs.get? key = some found → found.key = key) :
    Troubled (resolveIncident { state with jobs } key).1 := by
  have hkeys : ∀ other found, jobs.get? other = some found → found.key = other := by
    intro other found hfound
    by_cases heq : other = key
    · subst heq
      exact hself found hfound
    · exact h.job other found (hothers other heq ▸ hfound)
  unfold resolveIncident
  dsimp only
  cases hresolve : (state.incidents.forJob key).bind fun incident =>
    state.incidents.resolve incident.key with
  | none =>
      refine ⟨hkeys, h.incident, fun k incident jobKey hget hactive hnames => ?_⟩
      obtain ⟨hlink, job, hjob, hstate⟩ := h.opened k incident jobKey hget hactive hnames
      have hne : jobKey ≠ key := by
        rintro rfl
        -- The incident that names the job would have been resolved.
        have hfor : state.incidents.forJob jobKey = some incident := by
          unfold IncidentLedger.forJob
          rw [hlink]
          exact hget
        rw [hfor, Option.bind_some, h.incident k incident hget,
          IncidentLedger.resolve_linked hget hactive hnames hlink] at hresolve
        cases hresolve
      exact ⟨hlink, job, (hothers jobKey hne).trans hjob, hstate⟩
  | some result =>
      obtain ⟨ended, incidents⟩ := result
      obtain ⟨led, hled, hresolved⟩ := Option.bind_eq_some_iff.mp hresolve
      obtain ⟨old, hold, -, -, hgets, hbyJob⟩ := IncidentLedger.resolve_ok hresolved
      refine ⟨hkeys, fun k incident hget => ?_, fun k incident jobKey hget hactive hnames => ?_⟩
      · change incidents.get? k = some incident at hget
        rw [hgets] at hget
        by_cases heq : k = led.key
        · rw [if_pos heq] at hget
          cases hget
          exact (h.incident _ _ hold).trans heq.symm
        · rw [if_neg heq] at hget
          exact h.incident k incident hget
      · change incidents.get? k = some incident at hget
        show incidents.byJob.get? jobKey = some k ∧ ∃ job, jobs.get? jobKey = some job ∧ _
        rw [hgets] at hget
        by_cases heq : k = led.key
        · rw [if_pos heq] at hget
          cases hget
          rw [IncidentLedger.not_isActive_resolved] at hactive
          cases hactive
        · rw [if_neg heq] at hget
          obtain ⟨hlink, job, hjob, hstate⟩ := h.opened k incident jobKey hget hactive hnames
          have hne : jobKey ≠ key := by
            rintro rfl
            unfold IncidentLedger.forJob at hled
            rw [hlink, Option.bind_some, hget] at hled
            cases hled
            exact heq (h.incident k led hget).symm
          refine ⟨?_, job, (hothers jobKey hne).trans hjob, hstate⟩
          -- A link is cut only when it leads to what is resolved.
          rw [hbyJob]
          cases old.value.jobKey with
          | none => exact hlink
          | some named =>
              show (state.incidents.unlink named led.key).get? jobKey = some k
              unfold IncidentLedger.unlink
              split
              · rename_i hcut
                have hother : jobKey ≠ named := by
                  rintro rfl
                  exact heq (Option.some.inj (hlink.symm.trans hcut))
                rw [SortedMap.get?_erase, if_neg hother]
                exact hlink
              · exact hlink

/-! ### Each way of accepting a command -/

/-- What leaves jobs and incidents alone keeps the invariant. -/
theorem keepsJobs (h : Troubled state) (hkeeps : KeepsJobs state later) : Troubled later :=
  h.keep hkeeps.incidents (hkeeps.jobs ▸ h.job) fun _ job hjob hstate =>
    ⟨job, hkeeps.jobs ▸ hjob, hstate⟩

/-- A job that is created is a new one, or the one that stood under its key stays. -/
theorem jobCreated (h : Troubled state) {request : JobPayload} {key : Nat} {offered : Job}
    {jobs : JobLedger} (hincidents : later.incidents = state.incidents)
    (hjobs : later.jobs = jobs)
    (hoffered : (state.jobs.create key request).2.markActivatable key = some (offered, jobs)) :
    Troubled later := by
  have hcreated : ∃ first, (state.jobs.create key request).2.get? key = some first ∧
      first.key = key ∧
      (∀ other, other ≠ key → (state.jobs.create key request).2.get? other =
        state.jobs.get? other) ∧
      ∀ job, state.jobs.get? key = some job → first = job := by
    unfold JobLedger.create
    cases hget : state.jobs.get? key with
    | some job =>
        exact ⟨job, hget, h.job key job hget, fun _ _ => rfl, fun _ heq => Option.some.inj heq⟩
    | none =>
        refine ⟨.ofPayload key request, ?_, rfl, fun other hne => ?_, fun job heq => by cases heq⟩
        · rw [JobLedger.get?_put]
          exact if_pos rfl
        · rw [JobLedger.get?_put]
          exact if_neg hne
  obtain ⟨first, hfirst, hkey, hothers, hold⟩ := hcreated
  -- Offering leaves a job that was not just created as it is.
  have hresult : ∃ last, jobs.get? key = some last ∧ last.key = key ∧
      (first.state = .failed → last.state = .failed) ∧
      ∀ other, other ≠ key → jobs.get? other = state.jobs.get? other := by
    unfold JobLedger.markActivatable at hoffered
    rw [hfirst, Option.map_some] at hoffered
    by_cases hstate : first.state = .created
    · rw [if_pos hstate] at hoffered
      cases hoffered
      refine ⟨{ first with state := .activatable }, ?_, hkey, fun hfailed => ?_,
        fun other hne => ?_⟩
      · rw [JobLedger.get?_put, if_pos hkey.symm]
      · rw [hstate] at hfailed
        cases hfailed
      · rw [JobLedger.get?_put, if_neg (by rw [hkey]; exact hne)]
        exact hothers other hne
    · rw [if_neg hstate] at hoffered
      cases hoffered
      exact ⟨offered, hfirst, hkey, id, hothers⟩
  obtain ⟨last, hlast, hlastKey, hfailed, hsame⟩ := hresult
  subst hjobs
  refine h.keep hincidents (fun other job hjob => ?_) fun other job hjob hstate => ?_
  · by_cases heq : other = key
    · subst heq
      cases hlast.symm.trans hjob
      exact hlastKey
    · exact h.job other job (hsame other heq ▸ hjob)
  · by_cases heq : other = key
    · subst heq
      cases hold job hjob
      exact ⟨last, hlast, hfailed hstate⟩
    · exact ⟨job, (hsame other heq).trans hjob, hstate⟩

/-- Jobs that are leased have not failed. -/
theorem jobsActivated (h : Troubled state) {jobType worker : String} {timeout : Duration}
    {max : Nat} {now : Instant} {jobKeys : List Nat} {jobs : JobLedger}
    (hincidents : later.incidents = state.incidents) (hjobs : later.jobs = jobs)
    (hactivate : state.jobs.activate jobType worker timeout max now = (jobKeys, jobs)) :
    Troubled later := by
  subst hjobs
  have hgets : ∀ key, later.jobs.get? key =
      if key ∈ state.jobs.offeredKeys jobType max now then
        (state.jobs.get? key).map (JobLedger.leased worker (now.add timeout))
      else state.jobs.get? key := by
    intro key
    rw [← JobLedger.get?_activate, hactivate]
  refine h.keep hincidents (fun key job hjob => ?_) fun key job hjob hstate => ?_
  · rw [hgets] at hjob
    by_cases hmem : key ∈ state.jobs.offeredKeys jobType max now
    · rw [if_pos hmem] at hjob
      obtain ⟨old, hold, rfl⟩ := Option.map_eq_some_iff.mp hjob
      exact h.job key old hold
    · rw [if_neg hmem] at hjob
      exact h.job key job hjob
  · have hmem : key ∉ state.jobs.offeredKeys jobType max now := by
      intro hmem
      obtain ⟨old, hold, hoffered⟩ := JobLedger.state_of_mem_offeredKeys hmem
      cases hold.symm.trans hjob
      simp [Job.isOffered, hstate] at hoffered
    exact ⟨job, by rw [hgets, if_neg hmem, hjob], hstate⟩

/-- A leased job fails: it is offered again, or its incident is opened. -/
theorem jobFailed (h : Troubled state) {key : Nat} {backoff : Option Duration}
    {errorMessage : Option String} {now : Instant} {job : Job} {jobs : JobLedger}
    (hfail : state.jobs.fail key backoff errorMessage now = .ok (job, jobs)) :
    Troubled (openIncident { state with jobs } job).1 := by
  obtain ⟨old, hget, hactivated, hended, rfl⟩ := JobLedger.fail_ok hfail
  have hown := h.job key old hget
  obtain ⟨hsame, hcases⟩ := JobLedger.failedJob_cases old backoff errorMessage now
  rw [← hended] at hsame hcases
  have hkey : job.key = key := hsame.trans hown
  have hjobs : ∀ other, ((state.jobs.release old).put job).get? other =
      if other = key then some job else state.jobs.get? other := by
    intro other
    rw [JobLedger.get?_put, hkey, JobLedger.get?_release]
  rcases hcases with ⟨hstate, -⟩ | ⟨hstate, -⟩
  · rw [Aligned.openIncident_of_retried hstate]
    refine h.replace rfl hget (by rw [hactivated]; decide) (fun other hne => ?_)
      fun found hfound => ?_
    · exact (hjobs other).trans (if_neg hne)
    · cases ((hjobs key).trans (if_pos rfl)).symm.trans hfound
      exact hkey
  · rw [Aligned.openIncident_of_exhausted hstate]
    exact h.fail hget hactivated hkey hstate hjobs

/-- **Every accepted command keeps the invariant**, also one that hands out a key again. -/
theorem accepted {evaluator : Evaluator} {command : Record} {final : EngineState} {answer : Event}
    {others : List Event} (h : Troubled state)
    (haccepted : Accepted evaluator state command final answer others) : Troubled final := by
  cases haccepted with
  | deployed request starts hintent hvalue hid hunique hstarts hdeploy =>
      exact h.keepsJobs (keepsJobs_deployed hdeploy)
  | instanceCreated => exact h.keepsJobs (keepsJobs_startInstance _ _ _)
  | timerCreated => exact h.keepsJobs ⟨⟨rfl, Nat.le_succ _⟩, rfl, rfl⟩
  | timerUnresolved =>
      exact h.create rfl h.job (fun jobKey hnames => by cases hnames)
        fun _ job hjob hstate => ⟨job, hjob, hstate⟩
  | timerFired => exact h.keepsJobs (keepsJobs_fired _ _ _ _)
  | timerCanceled => exact h.keepsJobs ⟨⟨rfl, Nat.le_refl _⟩, rfl, rfl⟩
  | jobCreated request offered jobs hintent hvalue htype hretries hoffered =>
      exact h.jobCreated rfl rfl hoffered
  | jobsActivated request jobKeys jobs hintent hvalue htype htimeout hmax hactivate =>
      exact h.jobsActivated rfl rfl hactivate
  | jobCompleted key job jobs hintent hkey hcomplete =>
      obtain ⟨old, hget, hactivated, -, rfl⟩ := JobLedger.complete_ok hcomplete
      have hown := h.job key old hget
      refine h.replace rfl hget (by rw [hactivated]; decide) (Aligned.get?_remove_of_ne hown) ?_
      intro found hfound
      change (state.jobs.remove old).get? key = some found at hfound
      rw [JobLedger.get?_remove, if_pos hown.symm] at hfound
      cases hfound
  | jobFailed key request job jobs hintent hkey hvalue hfail => exact h.jobFailed hfail
  | jobTimedOut key observed job jobs hintent hkey hobserved htimeOut =>
      obtain ⟨old, hget, hactivated, -, -, hended, rfl⟩ := JobLedger.timeOut_ok htimeOut
      have hown : job.key = key := by
        rw [hended]
        exact h.job key old hget
      refine h.replace rfl hget (by rw [hactivated]; decide) (Aligned.get?_put_of_ne hown) ?_
      intro found hfound
      change (state.jobs.put job).get? key = some found at hfound
      rw [JobLedger.get?_put, if_pos hown.symm] at hfound
      cases hfound
      exact hown
  | retriesUpdated key request revived job jobs hintent hkey hvalue hretries hupdate hjob =>
      obtain ⟨old, hget, hcases⟩ := JobLedger.updateRetries_ok hretries hupdate
      have hown := h.job key old hget
      rcases hcases with ⟨-, -, rfl⟩ | ⟨-, -, rfl⟩
      all_goals
        refine h.resolve (Aligned.get?_put_of_ne hown) fun found hfound => ?_
        rw [JobLedger.get?_put, if_pos hown.symm] at hfound
        cases hfound
        exact hown
  | jobCanceled key job jobs hintent hkey hcancel =>
      obtain ⟨old, hget, -, rfl⟩ := JobLedger.cancel_ok hcancel
      have hown := h.job key old hget
      refine h.resolve (Aligned.get?_remove_of_ne hown) fun found hfound => ?_
      rw [JobLedger.get?_remove, if_pos hown.symm] at hfound
      cases hfound

/-! ### What is read off -/

/-- Two open incidents that name one job are the same. -/
theorem unique (h : Troubled state) {incident other : Incident} {jobKey : Nat}
    (hmem : incident ∈ state.incidents.active) (hmem' : other ∈ state.incidents.active)
    (hnames : incident.value.jobKey = some jobKey) (hnames' : other.value.jobKey = some jobKey) :
    incident.key = other.key := by
  have hlinked : ∀ found ∈ state.incidents.active, found.value.jobKey = some jobKey →
      state.incidents.byJob.get? jobKey = some found.key := by
    intro found hfound hnames
    obtain ⟨hall, hactive⟩ := List.mem_filter.mp hfound
    obtain ⟨entry, hentry, rfl⟩ := List.mem_map.mp hall
    have hget : state.incidents.get? entry.1 = some entry.2 :=
      (SortedMap.mem_toList_iff _ _ _).mp hentry
    rw [h.incident _ _ hget]
    exact (h.opened _ _ _ hget hactive hnames).1
  exact Option.some.inj ((hlinked _ hmem hnames).symm.trans (hlinked _ hmem' hnames'))

/-- **The open incidents that name a job name different ones.** -/
theorem pairwise_active (h : Troubled state) :
    state.incidents.active.Pairwise fun incident other => ∀ jobKey,
      incident.value.jobKey = some jobKey → other.value.jobKey ≠ some jobKey := by
  have hkeys : state.incidents.active.Pairwise fun incident other => incident.key ≠ other.key := by
    refine List.Pairwise.sublist List.filter_sublist ?_
    unfold IncidentLedger.all SortedMap.values
    rw [List.pairwise_map]
    refine state.incidents.incidents.ascending.imp_of_mem fun hmem hmem' hless => ?_
    have hget := (SortedMap.mem_toList_iff state.incidents.incidents _ _).mp hmem
    have hget' := (SortedMap.mem_toList_iff state.incidents.incidents _ _).mp hmem'
    rw [h.incident _ _ hget, h.incident _ _ hget']
    exact Nat.ne_of_lt hless
  exact hkeys.imp_of_mem fun hmem hmem' hdiffer jobKey hnames hnames' =>
    hdiffer (h.unique hmem hmem' hnames hnames')

end Troubled

end EngineState

/-! ### Handlers that are not built in -/

/-- Every handler is a built-in one, or leaves jobs and incidents to those. -/
def Registry.Careful (registry : Registry) : Prop :=
  ∀ valueType intent handler, registry.get? valueType intent = some handler →
    Registry.builtin.get? valueType intent = some handler ∨
      ∀ evaluator p, p.state.Troubled → (handler evaluator p).state.Troubled

theorem Registry.careful_builtin : Registry.builtin.Careful := fun _ _ _ hget => .inl hget

/-- A handler that is given as data leaves jobs and incidents alone. -/
theorem Handler.troubled_ofScript (steps : List ScriptStep) (evaluator : Evaluator) :
    ∀ p : Processing, p.state.Troubled → (Handler.ofScript steps evaluator p).state.Troubled := by
  have hresolve : ∀ (key : Option Nat) (p : Processing), p.state.Troubled →
      (ScriptStep.resolveKey key p).2.state.Troubled := by
    intro key p h
    cases key with
    | some key => exact h
    | none => exact h.keepsJobs ⟨.nextKey p.state, rfl, rfl⟩
  show ∀ p : Processing, p.state.Troubled →
    (steps.foldl (fun p step => step.run p) p).state.Troubled
  induction steps with
  | nil => intro p h; exact h
  | cons step rest ih =>
      intro p h
      refine ih (step.run p) ?_
      cases step with
      | event event => exact hresolve event.key p h
      | respond event => exact hresolve event.key p h
      | reject type reason => exact h
      | rejectUnexpectedValue => exact h
      | write event correlation => exact h

/-- Registering such a handler keeps a registry careful. -/
theorem Registry.Careful.register {registry later : Registry} (h : registry.Careful)
    {valueType : ValueType} {intent : Intent} {steps : List ScriptStep}
    (hregister : registry.register valueType intent (.ofScript steps) = .ok later) :
    later.Careful := by
  unfold Registry.register at hregister
  split at hregister
  · cases hregister
  · split at hregister
    · cases hregister
    · cases hregister
      intro otherType other handler hget
      unfold Registry.get? at hget
      rw [List.lookup_append] at hget
      rcases Option.or_eq_some_iff.mp hget with hold | ⟨-, hnew⟩
      · exact h otherType other handler hold
      · obtain ⟨before, after, heq, -⟩ := List.lookup_eq_some_iff.mp hnew
        have hmem : ((otherType, other), handler) ∈
            [((valueType, intent), Handler.ofScript steps)] := by
          rw [heq]
          exact List.mem_append_right _ List.mem_cons_self
        cases List.mem_singleton.mp hmem
        exact .inr (Handler.troubled_ofScript steps)

namespace Processor

variable {processor : Processor}

/-- **Whatever record is applied, open incidents still name different failed jobs.** -/
theorem troubled_apply (hcareful : processor.registry.Careful) (h : processor.state.Troubled)
    (command : Record) : (processor.apply command).2.state.Troubled := by
  have hbuiltin : ({ processor with registry := .builtin }.apply command).2.state.Troubled := by
    have hregistry :
        ({ processor with registry := .builtin } : Processor).registry = .builtin := rfl
    rcases apply_cases hregistry command with hsame | ⟨answer, others, -, haccepted, -⟩
    · rw [hsame]
      exact h
    · exact h.accepted haccepted
  show (processor.process command).state.Troubled
  change ({ processor with registry := .builtin }.process command).state.Troubled at hbuiltin
  unfold process at hbuiltin ⊢
  dsimp only at hbuiltin ⊢
  by_cases hcommand : (!command.isCommand) = true
  · rw [if_pos hcommand]
    exact h
  · rw [if_neg hcommand] at hbuiltin ⊢
    by_cases hconsistent : (!isConsistent command) = true
    · rw [if_pos hconsistent]
      exact h
    · rw [if_neg hconsistent] at hbuiltin ⊢
      cases hget : processor.registry.get? command.valueType command.intent with
      | none => exact h
      | some handler =>
          rcases hcareful _ _ _ hget with hsame | hkeeps
          · rw [hsame] at hbuiltin
            exact hbuiltin
          · exact hkeeps _ _ h

end Processor

end Workflow
