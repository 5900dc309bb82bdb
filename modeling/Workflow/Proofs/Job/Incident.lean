/-
Jobs and incidents never drift apart.

`Aligned` is the invariant.  A live job has failed when it is out of retries, and then, and only
then, there is an open incident about it; the ledger of incidents leads from the job to that
incident, and every open incident about a job is the one that the ledger leads to.

A command changes at most one failed job, so there are three kinds of steps.  Either no failed job
is touched and none fails (`Aligned.keep`); or a leased job fails for good and its incident is
opened (`Aligned.fail`); or a failed job is revived or goes, and its incident is resolved
(`Aligned.resolve`).  That opening an incident overwrites no other one is where new keys are
needed.
-/
import Workflow.Proofs.Engine.Keys

namespace Workflow

open Decide

/-! ### The ledger of incidents -/

namespace IncidentLedger

variable {ledger : IncidentLedger} {key : Nat}

theorem get?_create (ledger : IncidentLedger) (created : Nat) (value : IncidentPayload)
    (key : Nat) : (ledger.create created value).get? key =
      if key = created then some ⟨created, { value with state := .active }⟩ else ledger.get? key :=
  SortedMap.get?_insert _ _ _ _

theorem byJob_create {value : IncidentPayload} {jobKey : Nat} (hjob : value.jobKey = some jobKey)
    (ledger : IncidentLedger) (created other : Nat) :
    (ledger.create created value).byJob.get? other =
      if other = jobKey then some created else ledger.byJob.get? other := by
  unfold create
  rw [hjob]
  exact SortedMap.get?_insert _ _ _ _

theorem byJob_create_none {value : IncidentPayload} (hnone : value.jobKey = none)
    (ledger : IncidentLedger) (created : Nat) :
    (ledger.create created value).byJob = ledger.byJob := by
  unfold create
  rw [hnone]

/-- The incident when it is resolved. -/
def resolved (incident : Incident) : Incident :=
  { incident with value := { incident.value with state := .deleted } }

theorem not_isActive_resolved (incident : Incident) : (resolved incident).isActive = false := rfl

/-- An incident that is resolved was open, and it stays under its key. -/
theorem resolve_ok {after : IncidentLedger} {ended : Incident}
    (h : ledger.resolve key = some (ended, after)) :
    ∃ incident, ledger.get? key = some incident ∧ incident.isActive ∧ ended = resolved incident ∧
      (∀ other, after.get? other = if other = key then some (resolved incident)
        else ledger.get? other) ∧
      after.byJob = match incident.value.jobKey with
        | some jobKey => ledger.unlink jobKey key
        | none => ledger.byJob := by
  obtain ⟨incident, hfound, heq⟩ := Option.map_eq_some_iff.mp h
  obtain ⟨hget, hactive⟩ := Option.filter_eq_some_iff.mp hfound
  cases heq
  exact ⟨incident, hget, hactive, rfl, fun other => SortedMap.get?_insert _ _ _ _, rfl⟩

/-- Resolving an open incident of a job that the ledger leads to. -/
theorem resolve_linked {jobKey : Nat} {incident : Incident} (hget : ledger.get? key = some incident)
    (hactive : incident.isActive) (hjob : incident.value.jobKey = some jobKey)
    (hlink : ledger.byJob.get? jobKey = some key) :
    ledger.resolve key = some (resolved incident,
      ⟨ledger.incidents.insert key (resolved incident), ledger.byJob.erase jobKey⟩) := by
  have hfilter : (ledger.get? key).filter Incident.isActive = some incident := by
    rw [hget, Option.filter_some, if_pos hactive]
  have hunlink : ledger.unlink jobKey key = ledger.byJob.erase jobKey := if_pos hlink
  unfold resolve
  rw [hfilter, Option.map_some]
  dsimp only
  rw [← hunlink]
  split
  · rename_i named hnamed
    rw [hjob] at hnamed
    cases hnamed
    rfl
  · rename_i hnamed
    rw [hjob] at hnamed
    cases hnamed

end IncidentLedger

/-! ### The invariant -/

/-- A live job that is not out of retries. -/
def Job.IsSound (job : Job) : Prop :=
  (job.state = .activatable ∨ job.state = .activated) ∧ job.retries ≠ 0

/-- An incident that says that a job is out of retries. -/
structure Incident.Reports (incident : Incident) (job : Job) : Prop where
  active : incident.isActive = true
  jobKey : incident.value.jobKey = some job.key
  cause : incident.value.cause = .jobNoRetries
  instanceKey : incident.value.instanceKey = job.instanceKey

namespace EngineState

/-- Jobs and incidents agree. -/
structure Aligned (state : EngineState) : Prop where
  /-- A job is stored under its own, issued key, and it has failed or is sound. -/
  job : ∀ key job, state.jobs.get? key = some job →
    job.key = key ∧ state.Issued key ∧
      ((job.state = .failed ∧ job.retries = 0) ∨ job.IsSound)
  /-- An incident is stored under its own, issued key. -/
  incident : ∀ key incident, state.incidents.get? key = some incident →
    incident.key = key ∧ state.Issued key
  /-- The ledger leads from failed jobs to the incidents that report them. -/
  linked : ∀ jobKey key, state.incidents.byJob.get? jobKey = some key →
    ∃ job incident, state.jobs.get? jobKey = some job ∧ job.state = .failed ∧
      state.incidents.get? key = some incident ∧ incident.Reports job
  /-- It does so from every failed job. -/
  failed : ∀ jobKey job, state.jobs.get? jobKey = some job → job.state = .failed →
    ∃ key, state.incidents.byJob.get? jobKey = some key
  /-- It leads to every open incident that names a job. -/
  opened : ∀ key incident jobKey, state.incidents.get? key = some incident →
    incident.isActive = true → incident.value.jobKey = some jobKey →
      state.incidents.byJob.get? jobKey = some key

theorem aligned_initial (partitionId : Nat) : Aligned (initial partitionId) where
  job := fun _ _ h => by cases h
  incident := fun _ _ h => by cases h
  linked := fun _ _ h => by cases h
  failed := fun _ _ h => by cases h
  opened := fun _ _ _ h => by cases h

namespace Aligned

variable {state later : EngineState}

/-- A job that the ledger does not lead from has not failed. -/
theorem isSound_of_not_failed (h : Aligned state) {key : Nat} {job : Job}
    (hget : state.jobs.get? key = some job) (hstate : job.state ≠ .failed) : job.IsSound := by
  rcases (h.job key job hget).2.2 with hfailed | hsound
  · exact absurd hfailed.1 hstate
  · exact hsound

theorem byJob_eq_none (h : Aligned state) {jobKey : Nat}
    (hjob : ∀ job, state.jobs.get? jobKey = some job → job.state ≠ .failed) :
    state.incidents.byJob.get? jobKey = none := by
  cases hlink : state.incidents.byJob.get? jobKey with
  | none => rfl
  | some key =>
      obtain ⟨job, incident, hget, hfailed, -⟩ := h.linked jobKey key hlink
      exact absurd hfailed (hjob job hget)

/-- The ledger leads from different jobs to different incidents. -/
theorem byJob_injective (h : Aligned state) {jobKey other key : Nat}
    (hlink : state.incidents.byJob.get? jobKey = some key)
    (hlink' : state.incidents.byJob.get? other = some key) : jobKey = other := by
  obtain ⟨job, incident, hget, -, hincident, hreports⟩ := h.linked jobKey key hlink
  obtain ⟨job', incident', hget', -, hincident', hreports'⟩ := h.linked other key hlink'
  rw [hincident] at hincident'
  cases hincident'
  have hnames := hreports.jobKey.symm.trans hreports'.jobKey
  rw [(h.job jobKey job hget).1, (h.job other job' hget').1] at hnames
  exact Option.some.inj hnames

/-- What touches no failed job and lets none fail keeps the agreement. -/
theorem keep (h : Aligned state) (hgrows : Grows state later)
    (hincidents : later.incidents = state.incidents)
    (hjobs : ∀ key, later.jobs.get? key = state.jobs.get? key ∨
      ((∀ job, state.jobs.get? key = some job → job.state ≠ .failed) ∧
        ∀ job, later.jobs.get? key = some job →
          job.key = key ∧ later.Issued key ∧ job.IsSound)) : Aligned later := by
  have hsound : ∀ job : Job, job.IsSound → job.state ≠ .failed := by
    rintro job ⟨hstate | hstate, -⟩ <;> rw [hstate] <;> decide
  refine ⟨?_, ?_, ?_, ?_, ?_⟩
  · intro key job hget
    rcases hjobs key with hsame | ⟨-, hnew⟩
    · rw [hsame] at hget
      obtain ⟨hkey, hissued, hstate⟩ := h.job key job hget
      exact ⟨hkey, hgrows.issued hissued, hstate⟩
    · obtain ⟨hkey, hissued, hstate⟩ := hnew job hget
      exact ⟨hkey, hissued, .inr hstate⟩
  · intro key incident hget
    rw [hincidents] at hget
    obtain ⟨hkey, hissued⟩ := h.incident key incident hget
    exact ⟨hkey, hgrows.issued hissued⟩
  · intro jobKey key hlink
    rw [hincidents] at hlink ⊢
    obtain ⟨job, incident, hget, hfailed, hrest⟩ := h.linked jobKey key hlink
    rcases hjobs jobKey with hsame | ⟨hold, -⟩
    · exact ⟨job, incident, hsame.trans hget, hfailed, hrest⟩
    · exact absurd hfailed (hold job hget)
  · intro jobKey job hget hfailed
    rw [hincidents]
    rcases hjobs jobKey with hsame | ⟨-, hnew⟩
    · exact h.failed jobKey job (hsame.symm.trans hget) hfailed
    · exact absurd hfailed (hsound job (hnew job hget).2.2)
  · intro key incident jobKey hget
    rw [hincidents] at hget ⊢
    exact h.opened key incident jobKey hget

/-- What leaves jobs and incidents alone keeps the agreement. -/
theorem keepsJobs (h : Aligned state) (hkeeps : KeepsJobs state later) : Aligned later :=
  h.keep hkeeps.toGrows hkeeps.incidents fun _ => .inl (by rw [hkeeps.jobs])

/-- Opening an incident overwrites no other one. -/
theorem ne_nextKey (h : Aligned state) (hcapacity : state.keyCounter + 1 < 2 ^ keyCounterBits)
    {key : Nat} {incident : Incident} (hget : state.incidents.get? key = some incident) :
    key ≠ state.nextKey.1 := by
  intro heq
  rw [heq] at hget
  exact not_issued_nextKey hcapacity (h.incident _ incident hget).2

/-- The incident that is opened is stored under its own key, and so are the others. -/
theorem incident_create (h : Aligned state) {value : IncidentPayload} {key : Nat}
    {incident : Incident}
    (hget : (state.incidents.create state.nextKey.1 value).get? key = some incident) :
    incident.key = key ∧ state.nextKey.2.Issued key := by
  rw [IncidentLedger.get?_create] at hget
  by_cases heq : key = state.nextKey.1
  · rw [if_pos heq] at hget
    cases hget
    rw [heq]
    exact ⟨rfl, issued_nextKey state⟩
  · rw [if_neg heq] at hget
    obtain ⟨hkey, hissued⟩ := h.incident key incident hget
    exact ⟨hkey, (Grows.nextKey state).issued hissued⟩

/-- A leased job that fails for good gets an incident under the next key. -/
theorem fail (h : Aligned state) {jobs : JobLedger} {job ended : Job}
    (hcapacity : state.keyCounter + 1 < 2 ^ keyCounterBits)
    (hget : state.jobs.get? job.key = some job) (hactivated : job.state = .activated)
    (hkey : ended.key = job.key) (hfailed : ended.state = .failed) (hretries : ended.retries = 0)
    (hjobs : ∀ key, jobs.get? key = if key = job.key then some ended else state.jobs.get? key) :
    Aligned { state.nextKey.2 with
      jobs, incidents := state.incidents.create state.nextKey.1 (exhaustedJob ended) } := by
  have hgrows := Grows.nextKey state
  have hunlinked : state.incidents.byJob.get? job.key = none := by
    refine h.byJob_eq_none fun found hfound => ?_
    rw [hget] at hfound
    cases hfound
    rw [hactivated]
    decide
  have hbyJob : ∀ jobKey,
      (state.incidents.create state.nextKey.1 (exhaustedJob ended)).byJob.get? jobKey =
        if jobKey = job.key then some state.nextKey.1 else state.incidents.byJob.get? jobKey :=
    fun jobKey => IncidentLedger.byJob_create (congrArg some hkey) _ _ jobKey
  refine ⟨?_, fun key incident hincident => h.incident_create hincident, ?_, ?_, ?_⟩
  · intro key found hfound
    change jobs.get? key = some found at hfound
    rw [hjobs] at hfound
    by_cases heq : key = job.key
    · rw [if_pos heq] at hfound
      cases hfound
      rw [heq]
      exact ⟨hkey, hgrows.issued (h.job _ _ hget).2.1, .inl ⟨hfailed, hretries⟩⟩
    · rw [if_neg heq] at hfound
      obtain ⟨hkey', hissued, hstate⟩ := h.job key found hfound
      exact ⟨hkey', hgrows.issued hissued, hstate⟩
  · intro jobKey key hlink
    change (state.incidents.create _ _).byJob.get? jobKey = some key at hlink
    show ∃ found incident, jobs.get? jobKey = some found ∧ _ ∧
      (state.incidents.create _ _).get? key = some incident ∧ _
    rw [hbyJob] at hlink
    rw [hjobs, IncidentLedger.get?_create]
    by_cases heq : jobKey = job.key
    · rw [if_pos heq] at hlink ⊢
      cases hlink
      exact ⟨ended, _, rfl, hfailed, if_pos rfl, ⟨rfl, rfl, rfl, rfl⟩⟩
    · rw [if_neg heq] at hlink ⊢
      obtain ⟨found, incident, hfound, hstate, hincident, hreports⟩ := h.linked jobKey key hlink
      rw [if_neg (h.ne_nextKey hcapacity hincident)]
      exact ⟨found, incident, hfound, hstate, hincident, hreports⟩
  · intro jobKey found hfound hstate
    change jobs.get? jobKey = some found at hfound
    show ∃ key, (state.incidents.create _ _).byJob.get? jobKey = some key
    rw [hjobs] at hfound
    rw [hbyJob]
    by_cases heq : jobKey = job.key
    · rw [if_pos heq]
      exact ⟨_, rfl⟩
    · rw [if_neg heq] at hfound ⊢
      exact h.failed jobKey found hfound hstate
  · intro key incident jobKey hincident hactive hnames
    change (state.incidents.create _ _).get? key = some incident at hincident
    show (state.incidents.create _ _).byJob.get? jobKey = some key
    rw [IncidentLedger.get?_create] at hincident
    rw [hbyJob]
    by_cases heq : key = state.nextKey.1
    · rw [if_pos heq] at hincident
      cases hincident
      have hself : jobKey = job.key := (Option.some.inj hnames).symm.trans hkey
      rw [if_pos hself, heq]
    · rw [if_neg heq] at hincident
      have hlink := h.opened key incident jobKey hincident hactive hnames
      have hother : jobKey ≠ job.key := by
        intro hsame
        rw [hsame, hunlinked] at hlink
        cases hlink
      rw [if_neg hother]
      exact hlink

/-- Resolving the incident of a failed job closes the incident that reports it, and nothing leads
from the job any more. -/
theorem resolveIncident_of_failed (h : Aligned state) (jobs : JobLedger) {job : Job} {key : Nat}
    (hget : state.jobs.get? key = some job) (hfailed : job.state = .failed) :
    ∃ i incident, state.incidents.byJob.get? key = some i ∧
      state.incidents.get? i = some incident ∧
      (resolveIncident { state with jobs } key).1 =
        { state with
          jobs
          incidents := ⟨state.incidents.incidents.insert i (IncidentLedger.resolved incident),
            state.incidents.byJob.erase key⟩ } := by
  obtain ⟨i, hlink⟩ := h.failed key job hget hfailed
  obtain ⟨found, incident, hfound, -, hincident, hreports⟩ := h.linked key i hlink
  rw [hget] at hfound
  cases hfound
  have hjobKey : incident.value.jobKey = some key := by
    rw [hreports.jobKey, (h.job key job hget).1]
  have hikey : incident.key = i := (h.incident i incident hincident).1
  have hfor : state.incidents.forJob key = some incident := by
    unfold IncidentLedger.forJob
    rw [hlink]
    exact hincident
  have hresolve := IncidentLedger.resolve_linked hincident hreports.active hjobKey hlink
  refine ⟨i, incident, hlink, hincident, ?_⟩
  unfold resolveIncident
  dsimp only
  rw [hfor, Option.bind_some, hikey, hresolve]

/-- A failed job that is revived or goes has its incident resolved. -/
theorem resolve (h : Aligned state) {jobs : JobLedger} {job : Job} {key : Nat}
    (hget : state.jobs.get? key = some job) (hfailed : job.state = .failed)
    (hothers : ∀ other, other ≠ key → jobs.get? other = state.jobs.get? other)
    (hself : ∀ found, jobs.get? key = some found → found.key = key ∧ found.IsSound) :
    Aligned (resolveIncident { state with jobs } key).1 := by
  obtain ⟨i, incident, hlink, hincident, hfinal⟩ :=
    h.resolveIncident_of_failed jobs hget hfailed
  have hget' : ∀ other, (state.incidents.incidents.insert i
      (IncidentLedger.resolved incident)).get? other =
        if other = i then some (IncidentLedger.resolved incident)
        else state.incidents.get? other := fun other => SortedMap.get?_insert _ _ _ _
  have hlink' : ∀ other, (state.incidents.byJob.erase key).get? other =
      if other = key then none else state.incidents.byJob.get? other :=
    fun other => SortedMap.get?_erase _ _ _
  rw [hfinal]
  refine ⟨?_, ?_, ?_, ?_, ?_⟩
  · intro other found hfound
    change jobs.get? other = some found at hfound
    by_cases heq : other = key
    · rw [heq] at hfound ⊢
      obtain ⟨hkey, hsound⟩ := hself found hfound
      exact ⟨hkey, (h.job key job hget).2.1, .inr hsound⟩
    · rw [hothers other heq] at hfound
      exact h.job other found hfound
  · intro other found hfound
    change (state.incidents.incidents.insert i _).get? other = some found at hfound
    rw [hget'] at hfound
    by_cases heq : other = i
    · rw [if_pos heq] at hfound
      cases hfound
      rw [heq]
      exact h.incident i incident hincident
    · rw [if_neg heq] at hfound
      exact h.incident other found hfound
  · intro jobKey k hk
    change (state.incidents.byJob.erase key).get? jobKey = some k at hk
    show ∃ found reported, jobs.get? jobKey = some found ∧ _ ∧
      (state.incidents.incidents.insert i _).get? k = some reported ∧ _
    rw [hlink'] at hk
    by_cases heq : jobKey = key
    · rw [if_pos heq] at hk
      cases hk
    · rw [if_neg heq] at hk
      obtain ⟨found, reported, hfound, hstate, hreported, hreports'⟩ := h.linked jobKey k hk
      have hne : k ≠ i := fun hsame => heq (h.byJob_injective (hsame ▸ hk) hlink)
      rw [hothers jobKey heq, hget', if_neg hne]
      exact ⟨found, reported, hfound, hstate, hreported, hreports'⟩
  · intro jobKey found hfound hstate
    change jobs.get? jobKey = some found at hfound
    show ∃ k, (state.incidents.byJob.erase key).get? jobKey = some k
    rw [hlink']
    by_cases heq : jobKey = key
    · rw [heq] at hfound
      obtain ⟨-, hsound | hsound, -⟩ := hself found hfound
      · rw [hstate] at hsound
        cases hsound
      · rw [hstate] at hsound
        cases hsound
    · rw [hothers jobKey heq] at hfound
      rw [if_neg heq]
      exact h.failed jobKey found hfound hstate
  · intro k reported jobKey hreported hactive hnames
    change (state.incidents.incidents.insert i _).get? k = some reported at hreported
    show (state.incidents.byJob.erase key).get? jobKey = some k
    rw [hget'] at hreported
    by_cases heq : k = i
    · rw [if_pos heq] at hreported
      cases hreported
      rw [IncidentLedger.not_isActive_resolved] at hactive
      cases hactive
    · rw [if_neg heq] at hreported
      have hold := h.opened k reported jobKey hreported hactive hnames
      have hne : jobKey ≠ key := by
        intro hsame
        rw [hsame, hlink] at hold
        exact heq (Option.some.inj hold).symm
      rw [hlink', if_neg hne]
      exact hold

/-- An incident that names no job changes nothing between jobs and incidents. -/
theorem other (h : Aligned state) (hcapacity : state.keyCounter + 1 < 2 ^ keyCounterBits)
    {value : IncidentPayload} (hnone : value.jobKey = none) :
    Aligned { state.nextKey.2 with incidents := state.incidents.create state.nextKey.1 value } := by
  have hbyJob := IncidentLedger.byJob_create_none hnone state.incidents state.nextKey.1
  refine ⟨?_, fun key incident hget => h.incident_create hget, ?_, ?_, ?_⟩
  · intro key job hget
    obtain ⟨hkey, hissued, hstate⟩ := h.job key job hget
    exact ⟨hkey, (Grows.nextKey state).issued hissued, hstate⟩
  · intro jobKey key hlink
    change (state.incidents.create _ _).byJob.get? jobKey = some key at hlink
    rw [hbyJob] at hlink
    obtain ⟨job, incident, hget, hfailed, hincident, hreports⟩ := h.linked jobKey key hlink
    refine ⟨job, incident, hget, hfailed, ?_, hreports⟩
    show (state.incidents.create _ _).get? key = some incident
    rw [IncidentLedger.get?_create, if_neg (h.ne_nextKey hcapacity hincident)]
    exact hincident
  · intro jobKey job hget hfailed
    show ∃ key, (state.incidents.create _ _).byJob.get? jobKey = some key
    rw [hbyJob]
    exact h.failed jobKey job hget hfailed
  · intro key incident jobKey hget hactive hnames
    change (state.incidents.create _ _).get? key = some incident at hget
    show (state.incidents.create _ _).byJob.get? jobKey = some key
    rw [IncidentLedger.get?_create] at hget
    rw [hbyJob]
    by_cases heq : key = state.nextKey.1
    · rw [if_pos heq] at hget
      cases hget
      change value.jobKey = some jobKey at hnames
      rw [hnone] at hnames
      cases hnames
    · rw [if_neg heq] at hget
      exact h.opened key incident jobKey hget hactive hnames

/-- A ledger in which one job, which had not failed, was put in another sound state or removed. -/
theorem replace (h : Aligned state) {jobs : JobLedger} {job : Job} {key : Nat}
    (hget : state.jobs.get? key = some job) (hlive : job.state ≠ .failed)
    (hothers : ∀ other, other ≠ key → jobs.get? other = state.jobs.get? other)
    (hself : ∀ found, jobs.get? key = some found → found.key = key ∧ found.IsSound) :
    Aligned { state with jobs } := by
  refine h.keep (Grows.withJobs state jobs) rfl fun other => ?_
  by_cases heq : other = key
  · refine .inr ⟨fun found hfound => ?_, fun found hfound => ?_⟩
    · rw [heq, hget] at hfound
      cases hfound
      exact hlive
    · rw [heq] at hfound ⊢
      obtain ⟨hkey, hsound⟩ := hself found hfound
      exact ⟨hkey, (Grows.withJobs state jobs).issued (h.job key job hget).2.1, hsound⟩
  · exact .inl (hothers other heq)

/-- A job that has not failed has no incident to resolve. -/
theorem resolveIncident_of_live (h : Aligned state) {jobs : JobLedger} {key : Nat}
    (hlive : ∀ job, state.jobs.get? key = some job → job.state ≠ .failed) :
    (resolveIncident { state with jobs } key).1 = { state with jobs } := by
  have hnone : state.incidents.forJob key = none := by
    unfold IncidentLedger.forJob
    rw [h.byJob_eq_none hlive]
    rfl
  unfold resolveIncident
  dsimp only
  rw [hnone]
  rfl

/-- A job that is revived, updated or removed takes its incident along, if it has one. -/
theorem settle (h : Aligned state) {jobs : JobLedger} {job : Job} {key : Nat}
    (hget : state.jobs.get? key = some job)
    (hothers : ∀ other, other ≠ key → jobs.get? other = state.jobs.get? other)
    (hself : ∀ found, jobs.get? key = some found → found.key = key ∧ found.IsSound) :
    Aligned (resolveIncident { state with jobs } key).1 := by
  by_cases hfailed : job.state = .failed
  · exact h.resolve hget hfailed hothers hself
  · rw [h.resolveIncident_of_live fun found hfound => by
      rw [hget] at hfound
      cases hfound
      exact hfailed]
    exact h.replace hget hfailed hothers hself

/-! ### Each way of accepting a command -/

/-- A job ledger where one entry was put. -/
theorem get?_put_of_ne {ledger : JobLedger} {job : Job} {key : Nat} (hkey : job.key = key) :
    ∀ other, other ≠ key → (ledger.put job).get? other = ledger.get? other := by
  intro other hne
  rw [JobLedger.get?_put, hkey, if_neg hne]

theorem get?_remove_of_ne {ledger : JobLedger} {job : Job} {key : Nat} (hkey : job.key = key) :
    ∀ other, other ≠ key → (ledger.remove job).get? other = ledger.get? other := by
  intro other hne
  rw [JobLedger.get?_remove, hkey, if_neg hne]

/-- No job stands under the key that is handed out next. -/
theorem get?_nextKey (h : Aligned state) (hcapacity : state.keyCounter + 1 < 2 ^ keyCounterBits) :
    state.jobs.get? state.nextKey.1 = none := by
  cases hget : state.jobs.get? state.nextKey.1 with
  | none => rfl
  | some job => exact absurd (h.job _ job hget).2.1 (not_issued_nextKey hcapacity)

/-- A job that is created has a new key and is sound. -/
theorem jobCreated (h : Aligned state) (hcapacity : state.keyCounter + 1 < 2 ^ keyCounterBits)
    {request : JobPayload} (hretries : 0 < request.retries) {offered : Job} {jobs : JobLedger}
    (hoffered : (state.jobs.create state.nextKey.1 request).2.markActivatable state.nextKey.1 =
      some (offered, jobs)) : Aligned { state.nextKey.2 with jobs } := by
  have hnew := h.get?_nextKey hcapacity
  rw [(JobLedger.create_new hnew request).2] at hoffered
  cases hoffered
  have hkey : (Job.ofPayload state.nextKey.1 request).key = state.nextKey.1 := rfl
  refine h.keep ⟨rfl, Nat.le_succ _⟩ rfl fun key => ?_
  show ((state.jobs.put _).put _).get? key = _ ∨ _ ∧ ∀ job,
    ((state.jobs.put _).put _).get? key = some job → _
  rw [JobLedger.get?_put, JobLedger.get?_put]
  by_cases heq : key = state.nextKey.1
  · refine .inr ⟨fun job hget => ?_, fun job hget => ?_⟩
    · rw [heq, hnew] at hget
      cases hget
    · rw [if_pos (heq.trans hkey.symm)] at hget
      cases hget
      rw [heq]
      exact ⟨rfl, issued_nextKey state, .inl rfl, Nat.ne_of_gt hretries⟩
  · have hother : key ≠ (Job.ofPayload state.nextKey.1 request).key := heq
    exact .inl (by rw [if_neg hother, if_neg hother])

/-- Activation leases jobs that are activatable, which have not failed. -/
theorem jobsActivated (h : Aligned state) {request : JobBatchPayload} {now : Instant}
    {jobKeys : List Nat} {jobs : JobLedger}
    (hactivate : state.jobs.activate request.jobType request.worker request.timeout
      request.maxJobs now = (jobKeys, jobs)) : Aligned { state.nextKey.2 with jobs } := by
  have hgrows : Grows state { state.nextKey.2 with jobs } := ⟨rfl, Nat.le_succ _⟩
  refine h.keep hgrows rfl fun key => ?_
  have hjobs : jobs.get? key =
      if key ∈ state.jobs.offeredKeys request.jobType request.maxJobs now then
        (state.jobs.get? key).map (JobLedger.leased request.worker (now.add request.timeout))
      else state.jobs.get? key := by
    rw [← JobLedger.get?_activate, hactivate]
  show jobs.get? key = _ ∨ _ ∧ ∀ job, jobs.get? key = some job → _
  rw [hjobs]
  by_cases hmem : key ∈ state.jobs.offeredKeys request.jobType request.maxJobs now
  · obtain ⟨job, hget, hoffered⟩ := JobLedger.state_of_mem_offeredKeys hmem
    have hactivatable : job.state = .activatable := by
      simp only [Job.isOffered, Bool.and_eq_true, beq_iff_eq] at hoffered
      exact hoffered.1.1
    have hlive : job.state ≠ .failed := by
      rw [hactivatable]
      decide
    obtain ⟨hkey, hissued, -⟩ := h.job key job hget
    rw [if_pos hmem, hget]
    refine .inr ⟨fun found hfound => ?_, fun found hfound => ?_⟩
    · cases hfound
      exact hlive
    · cases hfound
      exact ⟨hkey, hgrows.issued hissued, .inr rfl, (h.isSound_of_not_failed hget hlive).2⟩
  · rw [if_neg hmem]
    exact .inl rfl

theorem openIncident_of_retried {job : Job} (hstate : job.state = .activatable)
    (state : EngineState) : (openIncident state job).1 = state := by
  unfold openIncident
  rw [hstate]
  rfl

theorem openIncident_of_exhausted {job : Job} (hstate : job.state = .failed)
    (state : EngineState) :
    (openIncident state job).1 = { state.nextKey.2 with
      incidents := state.incidents.create state.nextKey.1 (exhaustedJob job) } := by
  unfold openIncident
  rw [hstate]
  rfl

/-- A job that fails is offered again, or it is out of retries and its incident is opened. -/
theorem jobFailed (h : Aligned state) {key : Nat} {backoff : Option Duration}
    {errorMessage : Option String} {now : Instant} {job : Job} {jobs : JobLedger}
    (hfail : state.jobs.fail key backoff errorMessage now = .ok (job, jobs))
    (hcapacity : (openIncident { state with jobs } job).1.keyCounter < 2 ^ keyCounterBits) :
    Aligned (openIncident { state with jobs } job).1 := by
  obtain ⟨old, hget, hactivated, hended, rfl⟩ := JobLedger.fail_ok hfail
  have hown := (h.job key old hget).1
  have hlive : old.state ≠ .failed := by
    rw [hactivated]
    decide
  obtain ⟨hsame, hcases⟩ := JobLedger.failedJob_cases old backoff errorMessage now
  rw [← hended] at hsame hcases
  have hjobs : ∀ other, ((state.jobs.release old).put job).get? other =
      if other = old.key then some job else state.jobs.get? other := by
    intro other
    rw [JobLedger.get?_put, hsame, JobLedger.get?_release]
  rcases hcases with ⟨hstate, hretries⟩ | ⟨hstate, hretries⟩
  · rw [openIncident_of_retried hstate]
    refine h.replace hget hlive (fun other hne => ?_) fun found hfound => ?_
    · rw [hjobs, if_neg (by rw [hown]; exact hne)]
    · rw [hjobs, if_pos hown.symm] at hfound
      cases hfound
      exact ⟨hsame.trans hown, .inl hstate, hretries⟩
  · rw [openIncident_of_exhausted hstate] at hcapacity ⊢
    rw [← hown] at hget
    exact h.fail hcapacity hget hactivated hsame hstate hretries hjobs

/-- A lease that is reclaimed makes its job activatable again. -/
theorem jobTimedOut (h : Aligned state) {key : Nat} {observed now : Instant} {job : Job}
    {jobs : JobLedger} (htimeOut : state.jobs.timeOut key observed now = .ok (job, jobs)) :
    Aligned { state with jobs } := by
  obtain ⟨old, hget, hactivated, -, -, hended, rfl⟩ := JobLedger.timeOut_ok htimeOut
  have hlive : old.state ≠ .failed := by
    rw [hactivated]
    decide
  have hkey : job.key = key := by
    rw [hended]
    exact (h.job key old hget).1
  refine h.replace hget hlive (get?_put_of_ne hkey) fun found hfound => ?_
  change (state.jobs.put job).get? key = some found at hfound
  rw [JobLedger.get?_put, if_pos hkey.symm] at hfound
  cases hfound
  refine ⟨hkey, ?_⟩
  rw [hended]
  exact ⟨.inl rfl, (h.isSound_of_not_failed hget hlive).2⟩

/-- A job that gets new retries is sound afterwards, and its incident is resolved. -/
theorem retriesUpdated (h : Aligned state) {key retries : Nat} (hretries : 0 < retries)
    {revived : Bool} {jobs : JobLedger}
    (hupdate : state.jobs.updateRetries key retries = .ok (revived, jobs)) :
    Aligned (resolveIncident { state with jobs } key).1 := by
  obtain ⟨old, hget, hcases⟩ := JobLedger.updateRetries_ok hretries hupdate
  have hown := (h.job key old hget).1
  rcases hcases with ⟨-, -, rfl⟩ | ⟨hlive, -, rfl⟩
  · refine h.settle hget (get?_put_of_ne hown) fun found hfound => ?_
    rw [JobLedger.get?_put, if_pos hown.symm] at hfound
    cases hfound
    exact ⟨hown, .inl rfl, Nat.ne_of_gt hretries⟩
  · refine h.settle hget (get?_put_of_ne hown) fun found hfound => ?_
    rw [JobLedger.get?_put, if_pos hown.symm] at hfound
    cases hfound
    exact ⟨hown, (h.isSound_of_not_failed hget hlive).1, Nat.ne_of_gt hretries⟩

/-- **Every accepted command keeps jobs and incidents together.** -/
theorem accepted {evaluator : Evaluator} {command : Record} {final : EngineState} {answer : Event}
    {others : List Event} (h : Aligned state)
    (haccepted : Accepted evaluator state command final answer others)
    (hcapacity : final.keyCounter < 2 ^ keyCounterBits) : Aligned final := by
  cases haccepted with
  | deployed request starts hintent hvalue hid hunique hstarts hdeploy =>
      exact h.keepsJobs (keepsJobs_deployed hdeploy)
  | instanceCreated => exact h.keepsJobs (keepsJobs_startInstance _ _ _)
  | timerCreated => exact h.keepsJobs ⟨⟨rfl, Nat.le_succ _⟩, rfl, rfl⟩
  | timerUnresolved => exact h.other hcapacity rfl
  | timerFired => exact h.keepsJobs (keepsJobs_fired _ _ _ _)
  | timerCanceled => exact h.keepsJobs ⟨⟨rfl, Nat.le_refl _⟩, rfl, rfl⟩
  | jobCreated request offered jobs hintent hvalue htype hretries hoffered =>
      exact h.jobCreated hcapacity hretries hoffered
  | jobsActivated request jobKeys jobs hintent hvalue htype htimeout hmax hactivate =>
      exact h.jobsActivated hactivate
  | jobCompleted key job jobs hintent hkey hcomplete =>
      obtain ⟨old, hget, hactivated, -, rfl⟩ := JobLedger.complete_ok hcomplete
      have hown := (h.job key old hget).1
      refine h.replace hget (by rw [hactivated]; decide) (get?_remove_of_ne hown) ?_
      intro found hfound
      rw [JobLedger.get?_remove, if_pos hown.symm] at hfound
      cases hfound
  | jobFailed key request job jobs hintent hkey hvalue hfail => exact h.jobFailed hfail hcapacity
  | jobTimedOut key observed job jobs hintent hkey hobserved htimeOut =>
      exact h.jobTimedOut htimeOut
  | retriesUpdated key request revived job jobs hintent hkey hvalue hretries hupdate hjob =>
      exact h.retriesUpdated hretries hupdate
  | jobCanceled key job jobs hintent hkey hcancel =>
      obtain ⟨old, hget, -, rfl⟩ := JobLedger.cancel_ok hcancel
      have hown := (h.job key old hget).1
      refine h.settle hget (get?_remove_of_ne hown) fun found hfound => ?_
      rw [JobLedger.get?_remove, if_pos hown.symm] at hfound
      cases hfound

end Aligned

/-- Jobs and incidents agree after any commands, while keys fit into their counter. -/
theorem aligned_after (partitionId : Nat) (evaluator : Evaluator) (commands : List Record)
    (hcapacity : ((Processor.start partitionId .builtin evaluator).after commands).state.keyCounter
      < 2 ^ keyCounterBits) :
    Aligned ((Processor.start partitionId .builtin evaluator).after commands).state := by
  refine Processor.after_induction evaluator
    (fun state => state.keyCounter < 2 ^ keyCounterBits → Aligned state) ?_ commands _ rfl rfl
    (fun _ => aligned_initial partitionId) hcapacity
  intro state command final answer others h haccepted hfinal
  have hbefore : state.keyCounter < 2 ^ keyCounterBits :=
    Nat.lt_of_le_of_lt haccepted.grows.keyCounter hfinal
  exact (h hbefore).accepted haccepted hfinal

namespace Aligned

variable {state : EngineState}

theorem mem_active_iff (h : Aligned state) (incident : Incident) :
    incident ∈ state.incidents.active ↔
      state.incidents.get? incident.key = some incident ∧ incident.isActive = true := by
  unfold IncidentLedger.active IncidentLedger.all SortedMap.values
  rw [List.mem_filter, List.mem_map]
  constructor
  · rintro ⟨⟨entry, hentry, rfl⟩, hactive⟩
    have hget : state.incidents.get? entry.1 = some entry.2 :=
      (SortedMap.mem_toList_iff _ _ _).mp hentry
    rw [(h.incident _ _ hget).1]
    exact ⟨hget, hactive⟩
  · rintro ⟨hget, hactive⟩
    exact ⟨⟨(incident.key, incident), (SortedMap.mem_toList_iff _ _ _).mpr hget, rfl⟩, hactive⟩

variable {incident other : Incident} {key : Nat}

/-- The ledger leads to an open incident from the job that it names. -/
theorem byJob_of_active (h : Aligned state) (hmem : incident ∈ state.incidents.active)
    (hnames : incident.value.jobKey = some key) :
    state.incidents.byJob.get? key = some incident.key := by
  obtain ⟨hget, hactive⟩ := (h.mem_active_iff incident).mp hmem
  exact h.opened _ _ _ hget hactive hnames

/-- That job is live and has failed. -/
theorem failed_of_active (h : Aligned state) (hmem : incident ∈ state.incidents.active)
    (hnames : incident.value.jobKey = some key) :
    ∃ job, state.jobs.get? key = some job ∧ job.state = .failed := by
  obtain ⟨job, -, hget, hstate, -⟩ := h.linked _ _ (h.byJob_of_active hmem hnames)
  exact ⟨job, hget, hstate⟩

/-- No two open incidents name the same job. -/
theorem active_unique (h : Aligned state) (hmem : incident ∈ state.incidents.active)
    (hnames : incident.value.jobKey = some key) (hother : other ∈ state.incidents.active)
    (hnames' : other.value.jobKey = some key) : other = incident := by
  have hsame := (h.byJob_of_active hmem hnames).symm.trans (h.byJob_of_active hother hnames')
  have hgets := ((h.mem_active_iff incident).mp hmem).1
  rw [Option.some.inj hsame, ((h.mem_active_iff other).mp hother).1] at hgets
  exact Option.some.inj hgets

/-- The ledger finds the incident that reports a failed job. -/
theorem forJob_of_failed (h : Aligned state) {job : Job} (hget : state.jobs.get? key = some job)
    (hstate : job.state = .failed) :
    ∃ incident, state.incidents.forJob key = some incident ∧
      incident ∈ state.incidents.active ∧ incident.Reports job := by
  obtain ⟨i, hi⟩ := h.failed key job hget hstate
  obtain ⟨found, incident, hfound, -, hincident, hreports⟩ := h.linked key i hi
  rw [hget] at hfound
  cases hfound
  refine ⟨incident, ?_, (h.mem_active_iff incident).mpr ⟨?_, hreports.active⟩, hreports⟩
  · unfold IncidentLedger.forJob
    rw [hi]
    exact hincident
  · rw [(h.incident i incident hincident).1]
    exact hincident

end Aligned

/-- **Jobs and incidents never drift apart.**  After any commands, a live job is activatable,
activated or failed; it has failed exactly when it is out of retries, and exactly when an open
incident names it.  That incident is the only one, it is the one the ledger finds for the job, and
it says why.  No open incident names a job that is gone or has not failed. -/
theorem jobs_match_incidents (partitionId : Nat) (evaluator : Evaluator) (commands : List Record)
    (hcapacity : ((Processor.start partitionId .builtin evaluator).after commands).state.keyCounter
      < 2 ^ keyCounterBits) :
    let state := ((Processor.start partitionId .builtin evaluator).after commands).state
    (∀ key job, state.jobs.get? key = some job →
      job.key = key ∧
      (job.state = .activatable ∨ job.state = .activated ∨ job.state = .failed) ∧
      (job.state = .failed ↔ job.retries = 0) ∧
      (job.state = .failed ↔
        ∃ incident ∈ state.incidents.active, incident.value.jobKey = some key) ∧
      (job.state = .failed → ∃ incident, state.incidents.forJob key = some incident ∧
        incident ∈ state.incidents.active ∧ incident.value.jobKey = some key ∧
        incident.value.cause = .jobNoRetries ∧ incident.value.instanceKey = job.instanceKey ∧
        ∀ other ∈ state.incidents.active, other.value.jobKey = some key → other = incident)) ∧
    ∀ incident ∈ state.incidents.active, ∀ key, incident.value.jobKey = some key →
      ∃ job, state.jobs.get? key = some job ∧ job.state = .failed := by
  intro state
  have h : Aligned state := aligned_after partitionId evaluator commands hcapacity
  refine ⟨fun key job hget => ?_, fun incident hmem key hnames => h.failed_of_active hmem hnames⟩
  obtain ⟨hkey, -, hcases⟩ := h.job key job hget
  refine ⟨hkey, ?_, ?_, ⟨fun hstate => ?_, ?_⟩, fun hstate => ?_⟩
  · rcases hcases with ⟨hstate, -⟩ | ⟨hstate | hstate, -⟩
    · exact .inr (.inr hstate)
    · exact .inl hstate
    · exact .inr (.inl hstate)
  · rcases hcases with ⟨hstate, hretries⟩ | ⟨hstate | hstate, hretries⟩ <;> simp [hstate, hretries]
  · obtain ⟨incident, -, hmem, hreports⟩ := h.forJob_of_failed hget hstate
    exact ⟨incident, hmem, by rw [hreports.jobKey, hkey]⟩
  · rintro ⟨incident, hmem, hnames⟩
    obtain ⟨found, hfound, hstate⟩ := h.failed_of_active hmem hnames
    rw [hget] at hfound
    cases hfound
    exact hstate
  · obtain ⟨incident, hfind, hmem, hreports⟩ := h.forJob_of_failed hget hstate
    have hnames : incident.value.jobKey = some key := by rw [hreports.jobKey, hkey]
    exact ⟨incident, hfind, hmem, hnames, hreports.cause, hreports.instanceKey,
      fun other hother hnames' => h.active_unique hmem hnames hother hnames'⟩

/-- Commands after which a job is out of retries. -/
def exhaustingCommands : List Record :=
  [.ofDraft 1 (.command none (.job .create) (.job { jobType := "task", retries := 1 })),
    .ofDraft 2 (.command none (.jobBatch .activate)
      (.jobBatch { jobType := "task", worker := "worker", timeout := ⟨1⟩, maxJobs := 1 })),
    .ofDraft 3 (.command (some (keyAt 1 1)) (.job .fail) (.job { jobType := "task" }))]

theorem jobs_match_incidents_exhausted :
    let state := ((Processor.start 1 .builtin .unavailable).after exhaustingCommands).state
    state.keyCounter < 2 ^ keyCounterBits ∧
      (state.jobs.get? (keyAt 1 1)).isSome = true ∧ state.incidents.active.length = 1 ∧
      ∀ incident ∈ state.incidents.active, ∀ key, incident.value.jobKey = some key →
        ∃ job, state.jobs.get? key = some job ∧ job.state = .failed := by
  have hcapacity : ((Processor.start 1 .builtin .unavailable).after
      exhaustingCommands).state.keyCounter < 2 ^ keyCounterBits := by decide +kernel
  refine ⟨hcapacity, by decide +kernel, by decide +kernel, ?_⟩
  exact (jobs_match_incidents 1 .unavailable exhaustingCommands hcapacity).2

end EngineState

end Workflow
