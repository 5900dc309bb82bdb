/-
Which jobs an activation takes, and how long a pause after a failure lasts.

An activation takes the first jobs that a worker may have, in key order, and touches nothing else;
that is said of one call, on any ledger that calls lead to.

A pause says when a job may be activated again, and it says so once: the job forgets the pause when
it is activated, and what happens to it afterwards has nothing to do with the failure.  So the pause
binds the first activation after the failure, whatever is called in between and whatever time each
call gives.  It binds a later one only as far as the times that calls give do not run backwards.
`Paused` is what all calls keep until that first activation.
-/
import Workflow.Proofs.Job.Calls

namespace Workflow

theorem Job.isOffered_iff {job : Job} {jobType : String} {now : Instant} :
    job.isOffered jobType now = true ↔ job.state = .activatable ∧ job.jobType = jobType ∧
      ∀ instant, job.eligibleAt = some instant → instant ≤ now := by
  unfold Job.isOffered Job.isEligible
  cases job.eligibleAt <;> simp [and_assoc]

namespace JobLedger

variable {ledger later : JobLedger} {key : Nat} {job : Job}

/-! ### What an activation takes -/

/-- The keys of all jobs that a worker may have, in key order. -/
def availableKeys (ledger : JobLedger) (jobType : String) (now : Instant) : List Nat :=
  (ledger.jobs.toList.filter fun entry => entry.2.isOffered jobType now).map Prod.fst

theorem availableKeys_ascending (ledger : JobLedger) (jobType : String) (now : Instant) :
    (ledger.availableKeys jobType now).Pairwise (· < ·) :=
  List.pairwise_map.mpr (ledger.jobs.ascending.sublist List.filter_sublist)

theorem mem_availableKeys {jobType : String} {now : Instant} :
    key ∈ ledger.availableKeys jobType now ↔ ∃ job, ledger.get? key = some job ∧
      job.state = .activatable ∧ job.jobType = jobType ∧
      ∀ instant, job.eligibleAt = some instant → instant ≤ now := by
  simp only [availableKeys, List.mem_map, List.mem_filter, Job.isOffered_iff]
  constructor
  · rintro ⟨⟨_, job⟩, ⟨hmem, hoffered⟩, rfl⟩
    exact ⟨job, (SortedMap.mem_toList_iff _ _ _).mp hmem, hoffered⟩
  · rintro ⟨job, hget, hoffered⟩
    exact ⟨(key, job), ⟨(SortedMap.mem_toList_iff _ _ _).mpr hget, hoffered⟩, rfl⟩

/-- What is offered is the first of what is available. -/
theorem offeredKeys_eq_take (ledger : JobLedger) (jobType : String) (max : Nat) (now : Instant) :
    ledger.offeredKeys jobType max now = (ledger.availableKeys jobType now).take max :=
  List.map_take

section Activate

variable {jobType worker : String} {timeout : Duration} {max : Nat} {now : Instant}

/-- What is taken was available. -/
theorem available_of_mem_activate
    (htaken : key ∈ (ledger.activate jobType worker timeout max now).1)
    (hget : ledger.get? key = some job) :
    job.state = .activatable ∧ job.jobType = jobType ∧
      ∀ instant, job.eligibleAt = some instant → instant ≤ now := by
  obtain ⟨other, hother, hoffered⟩ := state_of_mem_offeredKeys htaken
  rw [hget] at hother
  cases hother
  exact Job.isOffered_iff.mp hoffered

/-- Leasing jobs one by one adds a lease for each. -/
theorem mem_leases_foldl_lease (worker : String) (deadline : Instant) (keys : List Nat)
    (lease : Lease) : ∀ ledger : JobLedger,
      lease ∈ (keys.foldl (fun l key => l.lease worker deadline key) ledger).leases ↔
        lease ∈ ledger.leases ∨ (lease.key ∈ keys ∧ lease.deadline = deadline) := by
  induction keys with
  | nil => intro ledger; simp
  | cons first rest ih =>
      intro ledger
      have hfirst : lease ∈ (ledger.lease worker deadline first).leases ↔
          lease = ⟨deadline, first⟩ ∨ lease ∈ ledger.leases := SortedSet.mem_insert _ _ _
      rw [List.foldl_cons, ih, hfirst, Lease.ext_iff, List.mem_cons]
      tauto

theorem mem_leases_activate (lease : Lease) :
    lease ∈ (ledger.activate jobType worker timeout max now).2.leases ↔
      lease ∈ ledger.leases ∨
        (lease.key ∈ (ledger.activate jobType worker timeout max now).1 ∧
          lease.deadline = now.add timeout) :=
  mem_leases_foldl_lease worker (now.add timeout) _ lease ledger

/-- A job that is taken was under no lease. -/
theorem Kept.unleased (h : ledger.Kept)
    (htaken : key ∈ (ledger.activate jobType worker timeout max now).1) :
    ∀ lease ∈ ledger.leases, lease.key ≠ key := by
  rintro lease hmem rfl
  obtain ⟨job, hget, hstate, -⟩ := (h.mem_leases_iff lease).mp hmem
  rw [(available_of_mem_activate htaken hget).1] at hstate
  cases hstate

end Activate

/-! ### What outlasts calls -/

/-- A job can be activated, but not before a certain time. -/
def Paused (ledger : JobLedger) (key : Nat) (since : Instant) : Prop :=
  ∃ job, ledger.get? key = some job ∧ job.state = .activatable ∧ job.eligibleAt = some since

end JobLedger

/-- A call activates a job at a certain time or later. -/
def JobCall.Takes (ledger : JobLedger) (key : Nat) (since : Instant) (call : JobCall) : Prop :=
  ∃ jobType worker timeout max now, call = .activate jobType worker timeout max now ∧
    key ∈ (ledger.activate jobType worker timeout max now).1 ∧ since ≤ now

namespace JobLedger

namespace Paused

variable {ledger later : JobLedger} {key other : Nat} {job ended : Job} {since : Instant}

theorem congr (hpaused : ledger.Paused key since) (hsame : later.get? key = ledger.get? key) :
    later.Paused key since := by
  obtain ⟨job, hget, hjob⟩ := hpaused
  exact ⟨job, hsame.trans hget, hjob⟩

/-- A job in another state is another job. -/
theorem ne (hpaused : ledger.Paused key since) (hget : ledger.get? other = some job)
    (hstate : job.state ≠ .activatable) : key ≠ other := by
  rintro rfl
  obtain ⟨paused, hpaused, hactivatable, -⟩ := hpaused
  rw [hget] at hpaused
  cases hpaused
  exact hstate hactivatable

theorem put (hpaused : ledger.Paused key since) (hne : key ≠ job.key) :
    (ledger.put job).Paused key since :=
  hpaused.congr ((get?_put _ _ _).trans (if_neg hne))

theorem remove (hpaused : ledger.Paused key since) (hne : key ≠ job.key) :
    (ledger.remove job).Paused key since :=
  hpaused.congr ((get?_remove _ _ _).trans (if_neg hne))

theorem create (hpaused : ledger.Paused key since) (other : Nat) (value : JobPayload) :
    (ledger.create other value).2.Paused key since := by
  unfold JobLedger.create
  cases hget : ledger.get? other with
  | some job => exact hpaused
  | none =>
      refine hpaused.put ?_
      rintro rfl
      obtain ⟨job, hjob, -⟩ := hpaused
      exact Option.some_ne_none job (hjob.symm.trans hget)

theorem markActivatable (hpaused : ledger.Paused key since) (hkeyed : ledger.Keyed)
    (hok : ledger.markActivatable other = some (ended, later)) : later.Paused key since := by
  obtain ⟨job, hget, heq⟩ := Option.map_eq_some_iff.mp hok
  by_cases hstate : job.state = .created
  · rw [if_pos hstate] at heq
    cases heq
    have hne := hpaused.ne hget (by rw [hstate]; decide)
    rw [← hkeyed other job hget] at hne
    exact hpaused.put hne
  · rw [if_neg hstate] at heq
    cases heq
    exact hpaused

theorem complete (hpaused : ledger.Paused key since) (hkeyed : ledger.Keyed)
    (hok : ledger.complete other = .ok (ended, later)) : later.Paused key since := by
  obtain ⟨job, hget, hstate, -, rfl⟩ := complete_ok hok
  have hne := hpaused.ne hget (by rw [hstate]; decide)
  rw [← hkeyed other job hget] at hne
  exact hpaused.remove hne

theorem fail (hpaused : ledger.Paused key since) (hkeyed : ledger.Keyed)
    {backoff : Option Duration} {errorMessage : Option String} {now : Instant}
    (hok : ledger.fail other backoff errorMessage now = .ok (ended, later)) :
    later.Paused key since := by
  obtain ⟨job, hget, hstate, hended, rfl⟩ := fail_ok hok
  have hne := hpaused.ne hget (by rw [hstate]; decide)
  rw [← hkeyed other job hget, ← (failedJob_cases job backoff errorMessage now).1, ← hended] at hne
  exact (hpaused.congr (get?_release ledger job key)).put hne

theorem timeOut (hpaused : ledger.Paused key since) (hkeyed : ledger.Keyed)
    {observed now : Instant} (hok : ledger.timeOut other observed now = .ok (ended, later)) :
    later.Paused key since := by
  obtain ⟨job, hget, hstate, -, -, hended, rfl⟩ := timeOut_ok hok
  have hne := hpaused.ne hget (by rw [hstate]; decide)
  have hkey : ended.key = job.key := by rw [hended]
  rw [← hkeyed other job hget, ← hkey] at hne
  exact hpaused.put hne

theorem updateRetries (hpaused : ledger.Paused key since) (hkeyed : ledger.Keyed)
    {retries : Nat} {answer : Bool}
    (hok : ledger.updateRetries other retries = .ok (answer, later)) :
    later.Paused key since := by
  obtain ⟨job, hget, ⟨hrevived, -, rfl⟩ | ⟨-, -, rfl⟩⟩ := updateRetries_cases hok
  · have hne := hpaused.ne hget (by rw [hrevived.1]; decide)
    rw [← hkeyed other job hget] at hne
    exact hpaused.put hne
  · have hkey := hkeyed other job hget
    by_cases hsame : key = other
    · -- Other retries do not end the pause.
      obtain ⟨paused, hpaused, hstate⟩ := hpaused
      rw [hsame, hget] at hpaused
      cases hpaused
      refine ⟨retried retries job, ?_, hstate⟩
      exact (get?_put _ _ _).trans (if_pos (hsame.trans hkey.symm))
    · rw [← hkey] at hsame
      exact hpaused.put hsame

/-- **A call leaves a paused job paused, unless the pause is over and the job is activated.** -/
theorem after (hpaused : ledger.Paused key since) (h : ledger.Kept) (call : JobCall)
    (hstays : ((call.after ledger).get? key).isSome) :
    (call.after ledger).Paused key since ∨ call.Takes ledger key since := by
  rcases JobCall.after_cases h.keyed call with ⟨answer, hok⟩ | ⟨cause, -, hsame⟩
  · generalize call.after ledger = later at hok hstays
    cases call with
    | create other value =>
        obtain ⟨job, -, heq⟩ := JobCall.told_ok hok
        have hnext := hpaused.create other value
        rw [Except.ok.inj heq] at hnext
        exact .inl hnext
    | markActivatable other =>
        cases hmarked : ledger.markActivatable other with
        | none =>
            simp only [JobCall.outcome, hmarked, Option.map_none, Option.getD_none] at hok
            cases hok
            exact .inl hpaused
        | some marked =>
            simp only [JobCall.outcome, hmarked, Option.map_some, Option.getD_some] at hok
            cases hok
            exact .inl (hpaused.markActivatable h.keyed hmarked)
    | activate jobType worker timeout max now =>
        obtain ⟨keys, -, heq⟩ := JobCall.told_ok hok
        by_cases htaken : key ∈ (ledger.activate jobType worker timeout max now).1
        · obtain ⟨job, hget, -, heligible⟩ := hpaused
          exact .inr ⟨_, _, _, _, _, rfl, htaken,
            (available_of_mem_activate htaken hget).2.2 since heligible⟩
        · have hkept := (get?_activate ledger jobType worker timeout max now).trans (if_neg htaken)
          rw [Except.ok.inj heq] at hkept
          exact .inl (hpaused.congr hkept)
    | complete other =>
        obtain ⟨job, -, heq⟩ := JobCall.told_ok hok
        exact .inl (hpaused.complete h.keyed heq)
    | fail other =>
        obtain ⟨job, -, heq⟩ := JobCall.told_ok hok
        exact .inl (hpaused.fail h.keyed heq)
    | timeOut other =>
        obtain ⟨job, -, heq⟩ := JobCall.told_ok hok
        exact .inl (hpaused.timeOut h.keyed heq)
    | updateRetries other =>
        obtain ⟨revived, -, heq⟩ := JobCall.told_ok hok
        exact .inl (hpaused.updateRetries h.keyed heq)
    | cancel other =>
        obtain ⟨ended, -, heq⟩ := JobCall.told_ok hok
        obtain ⟨job, hget, -, rfl⟩ := cancel_ok heq
        refine .inl (hpaused.remove ?_)
        rintro rfl
        rw [get?_remove, if_pos rfl] at hstays
        cases hstays
  · rw [hsame]
    exact .inl hpaused

/-- **While a job stays, it stays paused until it is activated once the pause is over.** -/
theorem afterCalls (calls : List JobCall) : ∀ ledger : JobLedger, ledger.Kept →
    ledger.Paused key since →
    (∀ front, front <+: calls → ((ledger.afterCalls front).get? key).isSome) →
    (ledger.afterCalls calls).Paused key since ∨
      ∃ front call, front ++ [call] <+: calls ∧ call.Takes (ledger.afterCalls front) key since := by
  induction calls with
  | nil => intro ledger _ hpaused _; exact .inl hpaused
  | cons call rest ih =>
      intro ledger h hpaused hstays
      have hfirst := hstays [call] (List.prefix_append [call] rest)
      rcases hpaused.after h call hfirst with hnext | htakes
      · have hrest : ∀ front, front <+: rest →
            (((call.after ledger).afterCalls front).get? key).isSome :=
          fun front hfront => hstays (call :: front) (List.cons_prefix_cons.mpr ⟨rfl, hfront⟩)
        rcases ih (call.after ledger) (h.after call) hnext hrest with
          hlast | ⟨front, taker, hfront, htakes⟩
        · exact .inl hlast
        · exact .inr ⟨call :: front, taker, List.cons_prefix_cons.mpr ⟨rfl, hfront⟩, htakes⟩
      · exact .inr ⟨[], call, List.prefix_append [call] rest, htakes⟩

end Paused

section Pause

variable {ledger later : JobLedger} {key : Nat}

/-- A failure with a pause that leaves a job activatable pauses it. -/
theorem Kept.paused_of_fail (h : ledger.Kept) {pause : Duration} {errorMessage : Option String}
    {failedAt : Instant} {failed : Job}
    (hok : ledger.fail key (some pause) errorMessage failedAt = .ok (failed, later))
    (hpause : 0 < pause.nanos) (hstate : failed.state = .activatable) :
    later.Paused key (failedAt.add pause) := by
  obtain ⟨job, hget, -, hfailed, rfl⟩ := fail_ok hok
  obtain ⟨hkey, -⟩ := failedJob_cases job (some pause) errorMessage failedAt
  rw [← hfailed] at hkey
  refine ⟨failed, ?_, hstate, ?_⟩
  · rw [get?_put, if_pos ((h.keyed key job hget).symm.trans hkey.symm)]
  · rw [hfailed] at hstate ⊢
    unfold failedJob at hstate ⊢
    dsimp only at hstate ⊢
    by_cases hleft : 0 < job.retries - 1
    · rw [if_pos hleft]
      simp [Duration.isZero, Nat.ne_of_gt hpause]
    · rw [if_neg hleft] at hstate
      cases hstate

end Pause

/-- **An activation takes the first of the available jobs.**  On whatever ledger calls lead to, the
jobs that are taken are the first, at most `max`, in the ascending list of all jobs that are
activatable, have the type, and are not waiting for a later time.  Exactly those jobs are leased,
none of which was under a lease; their leases and no others are added; and all else stays as it was.

A failed job that is left activatable with a pause, and is not removed, is activated again only
after the pause: if an activation takes it earlier, then one that took it before did wait. -/
theorem activation_takes_first (calls : List JobCall) :
    let ledger := empty.afterCalls calls
    (∀ jobType worker timeout max now keys after,
      ledger.activate jobType worker timeout max now = (keys, after) →
      (JobCall.activate jobType worker timeout max now).procedure.run ledger =
        .ok (.leased keys) after ∧
      (∃ available : List Nat, available.Pairwise (· < ·) ∧
        (∀ key, key ∈ available ↔ ∃ job, ledger.get? key = some job ∧ job.state = .activatable ∧
          job.jobType = jobType ∧ ∀ instant, job.eligibleAt = some instant → instant ≤ now) ∧
        keys = available.take max) ∧
      (∀ key, after.get? key = if key ∈ keys
        then (ledger.get? key).map fun job =>
          { job with
            state := .activated, worker := some worker, deadline := some (now.add timeout),
            eligibleAt := none }
        else ledger.get? key) ∧
      (∀ lease, lease ∈ after.leases ↔
        lease ∈ ledger.leases ∨ (lease.key ∈ keys ∧ lease.deadline = now.add timeout)) ∧
      ∀ lease ∈ ledger.leases, lease.key ∉ keys) ∧
    ∀ key pause errorMessage failedAt failed after,
      ledger.fail key (some pause) errorMessage failedAt = .ok (failed, after) →
      0 < pause.nanos → failed.state = .activatable →
      ∀ later, (∀ front, front <+: later → ((after.afterCalls front).get? key).isSome) →
      ∀ jobType worker timeout max now,
        key ∈ ((after.afterCalls later).activate jobType worker timeout max now).1 →
        failedAt.add pause ≤ now ∨
          ∃ front jobType worker timeout max earlier,
            front ++ [.activate jobType worker timeout max earlier] <+: later ∧
            key ∈ ((after.afterCalls front).activate jobType worker timeout max earlier).1 ∧
            failedAt.add pause ≤ earlier := by
  intro ledger
  have h : ledger.Kept := Kept.afterCalls calls empty kept_empty
  constructor
  · rintro jobType worker timeout max now keys after hactivate
    have hkeys : keys = (ledger.activate jobType worker timeout max now).1 := by rw [hactivate]
    have hafter : after = (ledger.activate jobType worker timeout max now).2 := by rw [hactivate]
    refine ⟨?_, ⟨ledger.availableKeys jobType now, availableKeys_ascending _ _ _,
      fun key => mem_availableKeys, ?_⟩, fun key => ?_, fun lease => ?_, fun lease hmem hin => ?_⟩
    · rw [JobCall.run_procedure h.keyed]
      show Procedure.settled ledger
        (JobCall.told .leased (.ok (ledger.activate jobType worker timeout max now))) = _
      rw [hactivate]
      rfl
    · rw [hkeys]
      exact offeredKeys_eq_take ledger jobType max now
    · rw [hkeys, hafter]
      exact get?_activate ledger jobType worker timeout max now
    · rw [hkeys, hafter]
      exact mem_leases_activate lease
    · rw [hkeys] at hin
      exact h.unleased hin lease hmem rfl
  · intro key pause errorMessage failedAt failed after hfail hpause hstate later hstays
      jobType worker timeout max now htaken
    have hpaused := h.paused_of_fail hfail hpause hstate
    rcases Paused.afterCalls later after (h.fail hfail) hpaused hstays with
      ⟨job, hget, -, heligible⟩ |
      ⟨front, call, hfront, jobType, worker, timeout, max, earlier, rfl, hmem, hearlier⟩
    · exact .inl ((available_of_mem_activate htaken hget).2.2 _ heligible)
    · exact .inr ⟨front, _, _, _, _, earlier, hfront, hmem, hearlier⟩

/-- Calls that lease a job and fail it with a pause of ten. -/
def pausingCalls : List JobCall :=
  [.create 1 { jobType := "task", retries := 3 }, .markActivatable 1,
    .activate "task" "worker" ⟨5⟩ 1 .epoch, .fail 1 (some ⟨10⟩) none .epoch]

/-- Calls by which the job is activated once the pause is over, and its lease is reclaimed. -/
def reclaimingCalls : List JobCall :=
  [.activate "task" "worker" ⟨1⟩ 1 (Instant.epoch.add ⟨10⟩),
    .timeOut 1 (Instant.epoch.add ⟨11⟩) (Instant.epoch.add ⟨12⟩)]

/-- The job stays while its lease is reclaimed. -/
theorem reclaimed_stays (front : List JobCall) (hfront : front <+: reclaimingCalls) :
    (((empty.afterCalls pausingCalls).afterCalls front).get? 1).isSome := by
  rw [List.prefix_iff_eq_take.mp hfront]
  match front.length with
  | 0 => decide +kernel
  | 1 => decide +kernel
  | more + 2 =>
      rw [List.take_of_length_le (Nat.le_add_left 2 more)]
      decide +kernel

/-- The job is activated for the first time, and again after the pause and its reclaim. -/
theorem activation_takes_first_reclaimed :
    let offered := empty.afterCalls (pausingCalls.take 2)
    let leased := empty.afterCalls (pausingCalls.take 3)
    let after := empty.afterCalls pausingCalls
    (JobCall.activate "task" "worker" ⟨5⟩ 1 .epoch).procedure.run offered =
        .ok (.leased [1]) leased ∧
      (∃ failed, leased.fail 1 (some ⟨10⟩) none .epoch = .ok (failed, after) ∧
        failed.state = .activatable) ∧
      ∃ front jobType worker timeout max earlier,
        front ++ [.activate jobType worker timeout max earlier] <+: reclaimingCalls ∧
        1 ∈ ((after.afterCalls front).activate jobType worker timeout max earlier).1 ∧
        Instant.epoch.add ⟨10⟩ ≤ earlier := by
  intro offered leased after
  have htaken :=
    ((activation_takes_first (pausingCalls.take 2)).1 "task" "worker" ⟨5⟩ 1 .epoch [1] leased rfl).1
  have hwaited := (activation_takes_first (pausingCalls.take 3)).2 1 ⟨10⟩ none .epoch _ after rfl
    (by decide) rfl reclaimingCalls reclaimed_stays "task" "worker" ⟨5⟩ 1 .epoch (by decide +kernel)
  exact ⟨htaken, ⟨_, rfl, rfl⟩, hwaited.resolve_left (by decide +kernel)⟩

/-- A job that was activated after its pause can be activated again at a time before the end of the
pause, when its lease was reclaimed and the time that the call gives runs backwards. -/
theorem pause_ends_with_activation :
    let leased := empty.afterCalls (pausingCalls.take 3)
    let after := empty.afterCalls pausingCalls
    (∃ failed, leased.fail 1 (some ⟨10⟩) none .epoch = .ok (failed, after) ∧
        failed.state = .activatable) ∧
      (∀ front, front <+: reclaimingCalls → ((after.afterCalls front).get? 1).isSome) ∧
      ((after.afterCalls reclaimingCalls).activate "task" "worker" ⟨5⟩ 1 .epoch).1 = [1] ∧
      Instant.epoch < Instant.epoch.add ⟨10⟩ := by
  exact ⟨⟨_, rfl, rfl⟩, reclaimed_stays, by decide +kernel, by decide +kernel⟩

end JobLedger

end Workflow
