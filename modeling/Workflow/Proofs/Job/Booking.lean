/-
The leases that are kept beside the jobs are those that the jobs are under.

Whoever looks for expired leases looks at the leases alone, in the order of their deadlines, and
never at the jobs.  `Booked` says that this is enough: a lease is kept exactly when a job is under
it, and the jobs under a lease are the activated ones.

Nothing is asked of keys here.  A job that is created under a key that is taken stays as it is, so
the agreement does not depend on keys being new.

A lease is added by an activation only, and ends a duration after the command
(`Accepted.booked`); every other operation on a job takes its lease away or leaves it.
-/
import Workflow.Partition.Round
import Workflow.Proofs.Engine.Keys

namespace Workflow

open Decide

namespace JobLedger

variable {ledger after : JobLedger} {key : Nat} {job ended : Job} {lease : Lease}

/-- The leases that are over at a time are those with an earlier deadline. -/
theorem mem_expiredLeases_iff {now : Instant} :
    lease ∈ ledger.expiredLeases now ↔ lease ∈ ledger.leases ∧ lease.deadline < now := by
  unfold expiredLeases
  rw [SortedSet.mem_takeWhile_iff, decide_eq_true_eq]
  intro a b hab hover
  rw [decide_eq_true_eq] at hover ⊢
  rcases (Lease.lt_iff _ _).mp hab with hearlier | ⟨hsame, -⟩
  · exact StrictOrder.trans hearlier hover
  · exact hsame ▸ hover

/-- The leases are those that jobs are under. -/
structure Booked (ledger : JobLedger) : Prop where
  /-- A job is stored under its own key. -/
  key : ∀ key job, ledger.get? key = some job → job.key = key
  /-- The jobs with a deadline are the activated ones. -/
  activated : ∀ key job, ledger.get? key = some job →
    (job.state = .activated ↔ job.deadline.isSome)
  /-- A lease is kept exactly when a job is under it. -/
  lease : ∀ lease, lease ∈ ledger.leases ↔
    ∃ job, ledger.get? lease.key = some job ∧ job.deadline = some lease.deadline

theorem booked_empty : Booked empty where
  key := fun _ _ h => by cases h
  activated := fun _ _ h => by cases h
  lease := fun lease => by
    refine ⟨fun h => absurd h (SortedSet.not_mem_empty lease), ?_⟩
    rintro ⟨job, hget, -⟩
    cases hget

namespace Booked

/-- A job that is not activated is under no lease. -/
theorem deadline_eq_none (h : ledger.Booked) (hget : ledger.get? key = some job)
    (hstate : job.state ≠ .activated) : job.deadline = none := by
  cases hdeadline : job.deadline with
  | none => rfl
  | some deadline =>
      refine absurd ((h.activated key job hget).mpr ?_) hstate
      rw [hdeadline]
      rfl

/-- Of one job at most one lease is kept. -/
theorem deadline_of_mem (h : ledger.Booked) (hmem : lease ∈ ledger.leases)
    (hget : ledger.get? lease.key = some job) : job.deadline = some lease.deadline := by
  obtain ⟨found, hfound, hdeadline⟩ := (h.lease lease).mp hmem
  rw [hget] at hfound
  cases hfound
  exact hdeadline

/-- Writing to a job leaves the leases in order if it leaves the deadline alone. -/
theorem put (h : ledger.Booked)
    (hsame : (ledger.get? job.key).bind Job.deadline = job.deadline)
    (hstate : job.state = .activated ↔ job.deadline.isSome) : (ledger.put job).Booked := by
  refine ⟨?_, ?_, ?_⟩
  · intro key found hget
    rw [get?_put] at hget
    by_cases hkey : key = job.key
    · rw [if_pos hkey] at hget
      cases hget
      exact hkey.symm
    · rw [if_neg hkey] at hget
      exact h.key key found hget
  · intro key found hget
    rw [get?_put] at hget
    by_cases hkey : key = job.key
    · rw [if_pos hkey] at hget
      cases hget
      exact hstate
    · rw [if_neg hkey] at hget
      exact h.activated key found hget
  · intro lease
    rw [get?_put]
    refine (h.lease lease).trans ?_
    by_cases hkey : lease.key = job.key
    · rw [if_pos hkey, hkey]
      constructor
      · rintro ⟨found, hfound, hdeadline⟩
        rw [hfound] at hsame
        exact ⟨job, rfl, hsame.symm.trans hdeadline⟩
      · rintro ⟨found, hfound, hdeadline⟩
        cases hfound
        rw [hdeadline] at hsame
        exact Option.bind_eq_some_iff.mp hsame
    · rw [if_neg hkey]

/-- Giving up the lease of a job leaves the leases of the others. -/
theorem mem_release (h : ledger.Booked) (hget : ledger.get? key = some job) :
    lease ∈ (ledger.release job).leases ↔ lease ∈ ledger.leases ∧ lease.key ≠ key := by
  have hself : lease ∈ ledger.leases → lease.key = key → job.deadline = some lease.deadline :=
    fun hmem hkey => h.deadline_of_mem hmem (hkey ▸ hget)
  have hjob := h.key key job hget
  unfold release
  cases hdeadline : job.deadline with
  | none =>
      refine ⟨fun hmem => ⟨hmem, fun hkey => ?_⟩, And.left⟩
      have hheld := hself hmem hkey
      rw [hdeadline] at hheld
      cases hheld
  | some deadline =>
      rw [SortedSet.mem_erase]
      refine and_congr_right fun hmem => not_congr ?_
      refine ⟨fun heq => by rw [heq]; exact hjob, fun hkey => ?_⟩
      have hheld := hself hmem hkey
      rw [hdeadline] at hheld
      rw [Lease.ext_iff]
      exact ⟨(Option.some.inj hheld).symm, hkey.trans hjob.symm⟩

/-- When a job has given up its lease the leases of the others are still in order. -/
theorem unleased (h : ledger.Booked)
    (hothers : ∀ other, other ≠ key → after.get? other = ledger.get? other)
    (hself : ∀ job, after.get? key = some job →
      job.key = key ∧ job.state ≠ .activated ∧ job.deadline = none)
    (hleases : ∀ lease, lease ∈ after.leases ↔ lease ∈ ledger.leases ∧ lease.key ≠ key) :
    after.Booked := by
  refine ⟨?_, ?_, ?_⟩
  · intro other job hget
    by_cases hkey : other = key
    · subst hkey
      exact (hself job hget).1
    · exact h.key other job ((hothers other hkey).symm.trans hget)
  · intro other job hget
    by_cases hkey : other = key
    · subst hkey
      obtain ⟨-, hstate, hdeadline⟩ := hself job hget
      simp [hstate, hdeadline]
    · exact h.activated other job ((hothers other hkey).symm.trans hget)
  · intro lease
    rw [hleases]
    by_cases hkey : lease.key = key
    · refine ⟨fun hboth => absurd hkey hboth.2, ?_⟩
      rintro ⟨job, hget, hdeadline⟩
      rw [(hself job (hkey ▸ hget)).2.2] at hdeadline
      cases hdeadline
    · rw [hothers lease.key hkey, and_iff_left hkey]
      exact h.lease lease

/-- Taking a job out of the ledger takes its lease along. -/
theorem remove (h : ledger.Booked) (hget : ledger.get? key = some job) :
    (ledger.remove job).Booked ∧ ∀ lease ∈ (ledger.remove job).leases, lease ∈ ledger.leases := by
  have hleases : ∀ lease, lease ∈ (ledger.remove job).leases ↔
      lease ∈ ledger.leases ∧ lease.key ≠ key := fun lease => h.mem_release hget
  have hjob := h.key key job hget
  refine ⟨h.unleased (fun other hne => ?_) (fun found hfound => ?_) hleases,
    fun lease hl => ((hleases lease).mp hl).1⟩
  · rw [get?_remove, if_neg (by rw [hjob]; exact hne)]
  · rw [get?_remove, if_pos hjob.symm] at hfound
    cases hfound

/-- A job that gives up its lease and stays. -/
theorem release_put (h : ledger.Booked) (hget : ledger.get? key = some job)
    (hkey : ended.key = key) (hstate : ended.state ≠ .activated)
    (hdeadline : ended.deadline = none) :
    ((ledger.release job).put ended).Booked ∧
      ∀ lease ∈ ((ledger.release job).put ended).leases, lease ∈ ledger.leases := by
  have hleases : ∀ lease, lease ∈ ((ledger.release job).put ended).leases ↔
      lease ∈ ledger.leases ∧ lease.key ≠ key := fun lease => h.mem_release hget
  refine ⟨h.unleased (fun other hne => ?_) (fun found hfound => ?_) hleases,
    fun lease hl => ((hleases lease).mp hl).1⟩
  · rw [get?_put, if_neg (by rw [hkey]; exact hne), get?_release]
  · rw [get?_put, if_pos hkey.symm] at hfound
    cases hfound
    exact ⟨hkey, hstate, hdeadline⟩

/-! ### The operations -/

theorem complete (h : ledger.Booked) (hok : ledger.complete key = .ok (ended, after)) :
    after.Booked ∧ ∀ lease ∈ after.leases, lease ∈ ledger.leases := by
  obtain ⟨job, hget, -, -, rfl⟩ := complete_ok hok
  exact h.remove hget

theorem cancel (h : ledger.Booked) (hok : ledger.cancel key = .ok (ended, after)) :
    after.Booked ∧ ∀ lease ∈ after.leases, lease ∈ ledger.leases := by
  obtain ⟨job, hget, -, rfl⟩ := cancel_ok hok
  exact h.remove hget

theorem fail (h : ledger.Booked) {backoff : Option Duration} {errorMessage : Option String}
    {now : Instant} (hok : ledger.fail key backoff errorMessage now = .ok (ended, after)) :
    after.Booked ∧ ∀ lease ∈ after.leases, lease ∈ ledger.leases := by
  obtain ⟨job, hget, -, hended, rfl⟩ := fail_ok hok
  obtain ⟨hkey, hcases⟩ := failedJob_cases job backoff errorMessage now
  rw [← hended] at hkey hcases
  have hstate : ended.state ≠ .activated := by
    rcases hcases with ⟨hstate, -⟩ | ⟨hstate, -⟩ <;> rw [hstate] <;> decide
  have hdeadline : ended.deadline = none := by
    rw [hended]
    unfold failedJob
    dsimp only
    split <;> rfl
  exact h.release_put hget (hkey.trans (h.key key job hget)) hstate hdeadline

/-- A lease that is reclaimed is gone, and the others are as they were. -/
theorem timeOut (h : ledger.Booked) {observed now : Instant}
    (hok : ledger.timeOut key observed now = .ok (ended, after)) :
    after.Booked ∧ ∀ lease, lease ∈ after.leases ↔
      lease ∈ ledger.leases ∧ lease ≠ ⟨observed, key⟩ := by
  obtain ⟨job, hget, -, hdeadline, -, hended, rfl⟩ := timeOut_ok hok
  have hkey : ended.key = key := by
    rw [hended]
    exact h.key key job hget
  have hmem : ∀ lease, lease ∈ (ledger.leases.erase ⟨observed, key⟩) ↔
      lease ∈ ledger.leases ∧ lease ≠ ⟨observed, key⟩ := SortedSet.mem_erase _ _
  refine ⟨h.unleased (fun other (hne : other ≠ key) => ?_) (fun found hfound => ?_)
    fun lease => ?_, hmem⟩
  · exact (get?_put ledger ended other).trans (if_neg (by rw [hkey]; exact hne))
  · have hput := (get?_put ledger ended key).symm.trans hfound
    rw [if_pos hkey.symm] at hput
    cases hput
    rw [hended] at hkey ⊢
    exact ⟨hkey, (fun hstate => by cases hstate), rfl⟩
  · refine (hmem lease).trans (and_congr_right fun hheld => not_congr ?_)
    refine ⟨fun heq => by rw [heq], fun hsame => ?_⟩
    have hbound := h.deadline_of_mem hheld (hsame ▸ hget)
    rw [hdeadline] at hbound
    rw [Lease.ext_iff]
    exact ⟨(Option.some.inj hbound).symm, hsame⟩

theorem updateRetries (h : ledger.Booked) {retries : Nat} {answer : Bool}
    (hok : ledger.updateRetries key retries = .ok (answer, after)) :
    after.Booked ∧ after.leases = ledger.leases := by
  obtain ⟨job, hget, ⟨⟨hstate, -⟩, -, rfl⟩ | ⟨-, -, rfl⟩⟩ := updateRetries_cases hok
  · have hnone := h.deadline_eq_none hget (by rw [hstate]; decide)
    have hkey := h.key key job hget
    refine ⟨h.put ?_ ?_, rfl⟩
    · show (ledger.get? job.key).bind Job.deadline = job.deadline
      rw [hkey, hget]
      rfl
    · simp [revived, hnone]
  · have hkey := h.key key job hget
    refine ⟨h.put ?_ (h.activated key job hget), rfl⟩
    show (ledger.get? job.key).bind Job.deadline = job.deadline
    rw [hkey, hget]
    rfl

theorem create (h : ledger.Booked) (key : Nat) (request : JobPayload) :
    (ledger.create key request).2.Booked ∧
      (ledger.create key request).2.leases = ledger.leases := by
  unfold JobLedger.create
  cases hget : ledger.get? key with
  | some job => exact ⟨h, rfl⟩
  | none =>
      refine ⟨h.put ?_ ?_, rfl⟩
      · show (ledger.get? key).bind Job.deadline = none
        rw [hget]
        rfl
      · simp [Job.ofPayload]

theorem markActivatable (h : ledger.Booked)
    (hok : ledger.markActivatable key = some (ended, after)) :
    after.Booked ∧ after.leases = ledger.leases := by
  unfold JobLedger.markActivatable at hok
  obtain ⟨job, hget, heq⟩ := Option.map_eq_some_iff.mp hok
  by_cases hstate : job.state = .created
  · rw [if_pos hstate] at heq
    cases heq
    have hnone := h.deadline_eq_none hget (by rw [hstate]; decide)
    have hkey := h.key key job hget
    refine ⟨h.put ?_ ?_, rfl⟩
    · show (ledger.get? job.key).bind Job.deadline = job.deadline
      rw [hkey, hget]
      rfl
    · simp [hnone]
  · rw [if_neg hstate] at heq
    cases heq
    exact ⟨h, rfl⟩

/-! ### Activation -/

/-- Leasing a job that is under no other lease. -/
theorem leaseJob (h : ledger.Booked) (worker : String) {deadline : Instant}
    (hget : ledger.get? key = some job)
    (hfree : job.deadline = none ∨ job.deadline = some deadline) :
    (ledger.lease worker deadline key).Booked := by
  have hself : (ledger.lease worker deadline key).get? key = some (leased worker deadline job) := by
    rw [get?_lease, if_pos rfl, hget]
    rfl
  have hothers : ∀ other, other ≠ key →
      (ledger.lease worker deadline key).get? other = ledger.get? other := by
    intro other hne
    rw [get?_lease, if_neg hne]
  refine ⟨?_, ?_, ?_⟩
  · intro other found hfound
    by_cases hkey : other = key
    · subst hkey
      rw [hself] at hfound
      cases hfound
      exact h.key other job hget
    · exact h.key other found ((hothers other hkey).symm.trans hfound)
  · intro other found hfound
    by_cases hkey : other = key
    · subst hkey
      rw [hself] at hfound
      cases hfound
      simp [leased]
    · exact h.activated other found ((hothers other hkey).symm.trans hfound)
  · intro lease
    have hmem : lease ∈ (ledger.lease worker deadline key).leases ↔
        lease = ⟨deadline, key⟩ ∨ lease ∈ ledger.leases := SortedSet.mem_insert _ _ _
    rw [hmem]
    by_cases hkey : lease.key = key
    · rw [hkey, hself]
      constructor
      · rintro (rfl | hheld)
        · exact ⟨_, rfl, rfl⟩
        · -- What the job was under before can only be this lease.
          have hbound := h.deadline_of_mem hheld (hkey ▸ hget)
          rcases hfree with hnone | hsame
          · rw [hnone] at hbound
            cases hbound
          · exact ⟨_, rfl, hsame.symm.trans hbound⟩
      · rintro ⟨found, hfound, hdeadline⟩
        cases hfound
        refine .inl ((Lease.ext_iff _ _).mpr ⟨?_, hkey⟩)
        exact (Option.some.inj hdeadline).symm
    · rw [hothers lease.key hkey]
      refine Iff.trans ⟨fun hor => hor.resolve_left fun heq => hkey (by rw [heq]), .inr⟩
        (h.lease lease)

/-- Leasing several jobs to one deadline. -/
theorem leaseJobs {worker : String} {deadline : Instant} (keys : List Nat) :
    ∀ ledger : JobLedger, ledger.Booked →
      (∀ key ∈ keys, ∃ job, ledger.get? key = some job ∧
        (job.deadline = none ∨ job.deadline = some deadline)) →
      (keys.foldl (fun l key => l.lease worker deadline key) ledger).Booked ∧
        ∀ lease ∈ (keys.foldl (fun l key => l.lease worker deadline key) ledger).leases,
          lease ∈ ledger.leases ∨ lease.deadline = deadline := by
  induction keys with
  | nil => intro ledger h _; exact ⟨h, fun _ hl => .inl hl⟩
  | cons first rest ih =>
      intro ledger h hfree
      obtain ⟨job, hget, hjob⟩ := hfree first List.mem_cons_self
      have hnext := h.leaseJob worker hget hjob
      obtain ⟨hbooked, hleases⟩ := ih _ hnext fun key hk => by
        obtain ⟨other, hother, hdeadline⟩ := hfree key (List.mem_cons_of_mem _ hk)
        rw [get?_lease]
        by_cases hkey : key = first
        · rw [if_pos hkey, hother]
          exact ⟨_, rfl, .inr rfl⟩
        · rw [if_neg hkey]
          exact ⟨other, hother, hdeadline⟩
      refine ⟨hbooked, fun lease hl => ?_⟩
      rcases hleases lease hl with hold | hnew
      · rcases (SortedSet.mem_insert _ _ _).mp hold with heq | hold
        · exact .inr (by rw [heq])
        · exact .inl hold
      · exact .inr hnew

/-- Activation adds leases that end a timeout later. -/
theorem activate (h : ledger.Booked) (jobType worker : String) (timeout : Duration) (max : Nat)
    (now : Instant) :
    (ledger.activate jobType worker timeout max now).2.Booked ∧
      ∀ lease ∈ (ledger.activate jobType worker timeout max now).2.leases,
        lease ∈ ledger.leases ∨ lease.deadline = now.add timeout := by
  refine leaseJobs _ ledger h fun key hk => ?_
  obtain ⟨job, hget, hoffered⟩ := state_of_mem_offeredKeys hk
  refine ⟨job, hget, .inl (h.deadline_eq_none hget ?_)⟩
  simp only [Job.isOffered, Bool.and_eq_true, beq_iff_eq] at hoffered
  rw [hoffered.1.1]
  decide

end Booked

end JobLedger

/-! ### Commands -/

open JobLedger EngineState in
/-- However a command is accepted, leases stay in order, and those that are new end a duration
after the command. -/
theorem Accepted.booked {evaluator : Evaluator} {state final : EngineState} {command : Record}
    {answer : Event} {others : List Event}
    (h : Accepted evaluator state command final answer others) (hbooked : state.jobs.Booked) :
    final.jobs.Booked ∧ ∀ lease ∈ final.jobs.leases, lease ∈ state.jobs.leases ∨
      ∃ timeout, lease.deadline = command.timestamp.add timeout := by
  have hkept : final.jobs = state.jobs → final.jobs.Booked ∧ ∀ lease ∈ final.jobs.leases,
      lease ∈ state.jobs.leases ∨ ∃ timeout, lease.deadline = command.timestamp.add timeout := by
    intro hjobs
    rw [hjobs]
    exact ⟨hbooked, fun _ hl => .inl hl⟩
  have hnone : ∀ {jobs : JobLedger}, final.jobs = jobs →
      (jobs.Booked ∧ ∀ lease ∈ jobs.leases, lease ∈ state.jobs.leases) →
      final.jobs.Booked ∧ ∀ lease ∈ final.jobs.leases, lease ∈ state.jobs.leases ∨
        ∃ timeout, lease.deadline = command.timestamp.add timeout := by
    rintro jobs rfl ⟨hjobs, hleases⟩
    exact ⟨hjobs, fun lease hl => .inl (hleases lease hl)⟩
  cases h with
  | deployed request starts hintent hvalue hid hunique hstarts hdeploy =>
      exact hkept (keepsJobs_deployed hdeploy).jobs
  | instanceCreated => exact hkept rfl
  | timerCreated => exact hkept rfl
  | timerUnresolved => exact hkept rfl
  | timerFired => exact hkept (keepsJobs_fired _ _ _ _).jobs
  | timerCanceled => exact hkept rfl
  | jobCreated request offered jobs hintent hvalue htype hretries hoffered =>
      obtain ⟨hcreated, hleases⟩ := hbooked.create state.nextKey.1 request
      obtain ⟨hbooked', hleases'⟩ := hcreated.markActivatable hoffered
      exact hnone rfl ⟨hbooked', fun lease hl => by rwa [hleases', hleases] at hl⟩
  | jobsActivated request jobKeys jobs hintent hvalue htype htimeout hmax hactivate =>
      obtain ⟨hbooked', hleases⟩ := hbooked.activate request.jobType request.worker
        request.timeout request.maxJobs command.timestamp
      rw [hactivate] at hbooked' hleases
      exact ⟨hbooked', fun lease hl => (hleases lease hl).imp_right fun heq => ⟨_, heq⟩⟩
  | jobCompleted key job jobs hintent hkey hcomplete => exact hnone rfl (hbooked.complete hcomplete)
  | jobFailed key request job jobs hintent hkey hvalue hfail =>
      obtain ⟨keyCounter, incidents, -, heq⟩ := openIncident_with { state with jobs } job
      exact hnone (by rw [heq]) (hbooked.fail hfail)
  | jobTimedOut key observed job jobs hintent hkey hobserved htimeOut =>
      obtain ⟨hbooked', hleases⟩ := hbooked.timeOut htimeOut
      exact hnone rfl ⟨hbooked', fun lease hl => ((hleases lease).mp hl).1⟩
  | retriesUpdated key request revived job jobs hintent hkey hvalue hretries hupdate hjob =>
      obtain ⟨hbooked', hleases⟩ := hbooked.updateRetries hupdate
      obtain ⟨incidents, heq⟩ := resolveIncident_with { state with jobs } key
      exact hnone (by rw [heq]) ⟨hbooked', fun lease hl => by rwa [hleases] at hl⟩
  | jobCanceled key job jobs hintent hkey hcancel =>
      obtain ⟨incidents, heq⟩ := resolveIncident_with { state with jobs } key
      exact hnone (by rw [heq]) (hbooked.cancel hcancel)

namespace Processor

variable {processor : Processor} {command : Record}

/-- Whatever command is applied, leases stay in order, and those that are new end a duration after
it. -/
theorem booked_apply (hbuiltin : processor.registry = .builtin)
    (hbooked : processor.state.jobs.Booked) (command : Record) :
    (processor.apply command).2.state.jobs.Booked ∧
      ∀ lease ∈ (processor.apply command).2.state.jobs.leases,
        lease ∈ processor.state.jobs.leases ∨
          ∃ timeout, lease.deadline = command.timestamp.add timeout := by
  rcases apply_cases hbuiltin command with hsame | ⟨answer, others, -, haccepted, -⟩
  · rw [hsame]
    exact ⟨hbooked, fun _ hl => .inl hl⟩
  · exact haccepted.booked hbooked

/-- In an engine that only commands have changed, leases are in order. -/
theorem booked_after (partitionId : Nat) (evaluator : Evaluator) (commands : List Record) :
    ((start partitionId .builtin evaluator).after commands).state.jobs.Booked :=
  after_induction evaluator (fun state => state.jobs.Booked)
    (fun _ _ _ _ _ hbooked haccepted => (haccepted.booked hbooked).1) commands _ rfl rfl
    JobLedger.booked_empty

/-- **A time-out command for a lease that is over leaves nothing of that lease**, whether the job
is under it still or not. -/
theorem not_held_of_timeOut (hbuiltin : processor.registry = .builtin)
    (hbooked : processor.state.jobs.Booked) {now : Instant} {lease : Lease} {job : Job}
    (hdraft : command.toDraft = Partition.timeOutCommand now lease job)
    (hlate : lease.deadline < now) :
    lease ∉ (processor.apply command).2.state.jobs.leases := by
  have hcommand : command.isCommand = true := by
    show (command.toDraft.kind == .command) = true
    rw [hdraft]
    rfl
  have hintent : command.intent = .job .timeOut := congrArg Draft.intent hdraft
  have htime : command.timestamp = now := congrArg Draft.timestamp hdraft
  have hkey : command.key = some lease.key := congrArg Draft.key hdraft
  have hvalue : command.value = .job { job.toPayload with deadline := some lease.deadline } :=
    congrArg Draft.value hdraft
  have hconsistent : isConsistent command = true := by
    have htype : command.valueType = .job := congrArg Draft.valueType hdraft
    simp only [isConsistent, hintent, htype, hvalue]
    rfl
  have hpolicy : decision processor.evaluator processor.state command =
      timeOutJob processor.evaluator processor.state command := by
    unfold decision
    rw [if_pos hconsistent, hintent]
    rfl
  rw [apply_command hbuiltin hcommand, hpolicy]
  unfold timeOutJob withJobKey
  simp only [hkey, hvalue, htime, Payload.job?, Option.bind_some]
  cases hok : processor.state.jobs.timeOut lease.key lease.deadline now with
  | ok result =>
      obtain ⟨ended, jobs⟩ := result
      exact fun hheld => (((hbooked.timeOut hok).2 lease).mp hheld).2 rfl
  | error cause =>
      -- A job under the lease would have been timed out.
      intro hheld
      obtain ⟨found, hget, hdeadline⟩ := (hbooked.lease lease).mp hheld
      have hstate := (hbooked.activated _ _ hget).mpr (by rw [hdeadline]; rfl)
      have hnot : ¬ now ≤ lease.deadline := (Instant.not_le _ _).mpr hlate
      unfold JobLedger.timeOut JobLedger.find at hok
      simp [hget, hstate, hdeadline, hnot, bind, Except.bind] at hok

end Processor

end Workflow
