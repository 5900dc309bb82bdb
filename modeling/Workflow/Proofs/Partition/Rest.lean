/-
A partition that is idle has nothing left to do.

Rounds until idle end with a round that reads nothing (`last_round`).  The checkers have run in it,
so every timer that may fire and every lease that is over is remembered, from this round or from an
earlier one.  A timer that is remembered awaits its trigger, and a lease that is remembered its
time-out; but nothing is left in the log.  So no timer is due, and no lease is over.

The main result (`idle_leaves_nothing`) is about every run.  That the clock is not set back is used
for leases only, and that keys are new for timers only.  After the latest instant all leases end at
that instant, so a new one may be taken for one that was reclaimed (`idle_leaves_lease_overtime`).
-/
import Workflow.Proofs.Partition.Reclaim
import Workflow.Proofs.Partition.Watch

namespace Workflow

namespace Partition

variable {evaluator : Evaluator} {p q : Partition}

/-! ### The last round -/

/-- A round that succeeds applies as many commands as it reads. -/
theorem Sourced.count_applyCommands (commands : List Record) :
    ∀ p : Partition, Sourced evaluator p → p.config.partitionId ≤ maxPartitionId →
      p.cursor.needsRecovery = false → commands <+: p.unapplied →
      ∀ count q, applyCommands commands p = (.ok count, q) → count = commands.length := by
  induction commands with
  | nil => intro p _ _ _ _ count q hok; cases hok; rfl
  | cons command rest ih =>
      intro p h hid hcurrent hfront count q hok
      rcases h.applyCommands_cases hcurrent hfront with
        ⟨e, final, heq, -⟩ | ⟨link, others, -, -, hmove, hcurrent', hfront', heq⟩
      · rw [heq] at hok
        cases hok
      · obtain ⟨h', hsame⟩ := h.move hid hmove
        rw [heq] at hok
        rcases hrest : applyCommands rest (p.advanced link command) with ⟨e | applied, final⟩
        · rw [hrest] at hok
          cases hok
        · rw [hrest] at hok
          cases hok
          rw [ih _ h' (by rw [hsame]; exact hid) hcurrent' hfront' applied final hrest]
          rfl

/-- Rebuilding first is no other round. -/
theorem prepareRound_of_recoverIfNeeded {r : Partition} (hrecover : p.recoverIfNeeded = (.ok (), r))
    (hcurrent : r.cursor.needsRecovery = false) (max : Nat) :
    p.prepareRound max = r.prepareRound max := by
  unfold prepareRound
  rw [hrecover, recoverIfNeeded_of_current hcurrent]

/-- **A round that applies nothing** has read nothing, and nothing is left. -/
theorem Sourced.idle_round (h : Sourced evaluator p) (hid : p.config.partitionId ≤ maxPartitionId)
    (hlimit : 0 < p.config.maxCommandsPerRound) (hok : p.processRound = (.ok 0, q)) :
    ∃ r, SteadyMoves evaluator p r ∧ r.cursor.needsRecovery = false ∧
      r.prepareRound p.config.maxCommandsPerRound = (.ok [], q) ∧ q.unapplied = [] := by
  obtain ⟨r, hrecover, hmoves, hcurrent⟩ := recoverIfNeeded_steady h
  obtain ⟨result, p₁, hprepare, hmoves₁, hread⟩ :=
    prepareRound_moves h hid p.config.maxCommandsPerRound
  refine ⟨r, hmoves, hcurrent, ?_⟩
  rw [← prepareRound_of_recoverIfNeeded hrecover hcurrent, hprepare]
  unfold processRound at hok
  rw [hprepare] at hok
  cases result with
  | error e => cases hok
  | ok commands =>
      obtain ⟨hcurrent₁, hcommands⟩ := hread commands rfl
      obtain ⟨h₁, hsame⟩ := h.moves hid hmoves₁
      have hfront : commands <+: p₁.unapplied := by
        rw [hcommands]
        exact List.take_prefix _ _
      dsimp only at hok
      rw [processCommands_of_current hcurrent₁] at hok
      have hcount := Sourced.count_applyCommands commands p₁ h₁ (by rw [hsame]; exact hid)
        hcurrent₁ hfront 0 q hok
      have hnone : commands = [] := List.length_eq_zero_iff.mp hcount.symm
      rw [hnone] at hok hcommands
      cases hok
      refine ⟨by rw [hnone], ?_⟩
      rcases List.take_eq_nil_iff.mp hcommands.symm with hzero | hidle
      · exact absurd hzero (Nat.ne_of_gt hlimit)
      · exact hidle

/-- **Rounds until idle** end with a round that reads nothing. -/
theorem last_round (rounds : Nat) :
    ∀ p : Partition, Sourced evaluator p → p.config.partitionId ≤ maxPartitionId →
      0 < p.config.maxCommandsPerRound → ∀ count q, processUntilIdle rounds p = (.idle count, q) →
        ∃ r max, SteadyMoves evaluator p r ∧ r.cursor.needsRecovery = false ∧
          r.prepareRound max = (.ok [], q) ∧ q.unapplied = [] := by
  induction rounds with
  | zero => intro p _ _ _ count q hidle; cases hidle
  | succ rounds ih =>
      intro p h hid hlimit count q hidle
      obtain ⟨hround, -⟩ := processRound_steady h hid
      unfold processUntilIdle at hidle
      rcases heq : p.processRound with ⟨e | applied, p₁⟩
      · rw [heq] at hidle
        cases hidle
      · rw [heq] at hidle hround
        cases applied with
        | zero =>
            cases hidle
            obtain ⟨r, hmoves, hcurrent, hprepare, hleft⟩ := h.idle_round hid hlimit heq
            exact ⟨r, _, hmoves, hcurrent, hprepare, hleft⟩
        | succ applied =>
            obtain ⟨h₁, hsame⟩ := h.moves hid hround.moves
            have hlimit₁ : 0 < p₁.config.maxCommandsPerRound := by
              rw [hround.kept.2]
              exact hlimit
            rcases hrest : processUntilIdle rounds p₁ with ⟨run, final⟩
            simp only [hrest] at hidle
            cases run with
            | failed e => cases hidle
            | busy => cases hidle
            | idle left =>
                cases hidle
                obtain ⟨r, max, hmoves, hend⟩ :=
                  ih p₁ h₁ (by rw [hsame]; exact hid) hlimit₁ left q hrest
                exact ⟨r, max, hround.trans hmoves, hend⟩

/-! ### What the checkers have seen -/

/-- When preparing a round succeeds, all timers that may fire and all leases that are over are
remembered. -/
theorem Sourced.remembered (h : Sourced evaluator p) (hid : p.config.partitionId ≤ maxPartitionId)
    (hcurrent : p.cursor.needsRecovery = false) {max : Nat} {commands : List Record}
    (hok : p.prepareRound max = (.ok commands, q)) :
    (∀ timer ∈ q.state.timers.firingBatch q.now, timer.key ∈ q.pendingTriggers) ∧
      ∀ lease ∈ q.state.jobs.expiredLeases q.now, lease ∈ q.pendingTimeouts := by
  obtain ⟨p₁, p₂, calls, htimers, hmove₁, hleases, -, rfl⟩ := h.prepareRound_ok hid hcurrent hok
  obtain ⟨h₁, -⟩ := h.move hid hmove₁
  have heq₁ : ∃ link, p₁ = p.withTriggers.withLink link := by
    obtain ⟨link, -, ⟨e, heq, -⟩ | ⟨heq, -⟩⟩ := checkDueTimers_cases h.calm <;>
      rw [htimers] at heq <;> cases heq
    exact ⟨link, rfl⟩
  have heq₂ : ∃ link, p₂ = p₁.withTimeouts.withLink link := by
    obtain ⟨link, -, ⟨e, heq, -⟩ | ⟨heq, -⟩⟩ := sweepExpiredLeases_cases h₁.calm <;>
      rw [hleases] at heq <;> cases heq
    exact ⟨link, rfl⟩
  obtain ⟨link₁, rfl⟩ := heq₁
  obtain ⟨link₂, rfl⟩ := heq₂
  constructor
  · intro timer ht
    show timer.key ∈ p.keptTriggers ++ p.untriggered.map Timer.key
    by_cases hkept : timer.key ∈ p.keptTriggers
    · exact List.mem_append_left _ hkept
    · refine List.mem_append_right _ (List.mem_map_of_mem (List.mem_filter.mpr ⟨ht, ?_⟩))
      simpa using hkept
  · intro lease hl
    show lease ∈ (p.withTriggers.withLink link₁).keptTimeouts ++
      (p.withTriggers.withLink link₁).unreclaimed
    by_cases hkept : lease ∈ (p.withTriggers.withLink link₁).keptTimeouts
    · exact List.mem_append_left _ hkept
    · refine List.mem_append_right _ (List.mem_filter.mpr ⟨hl, ?_⟩)
      simpa using hkept

/-- If the timers that may fire await their triggers and none is left, then no timer is due. -/
theorem Watched.noneDue (hwatched : p.Watched) (h : Sourced evaluator p)
    (hcurrent : p.cursor.needsRecovery = false) (hleft : p.unapplied = [])
    (hremembered : ∀ timer ∈ p.state.timers.firingBatch p.now, timer.key ∈ p.pendingTriggers) :
    p.state.NoneDue p.now := by
  have hbatch : p.state.timers.firingBatch p.now = [] := by
    refine List.eq_nil_iff_forall_not_mem.mpr fun timer ht => ?_
    have hpending := (h.of_mem_batch hcurrent ht).1
    obtain ⟨command, hc, -⟩ := hwatched.awaits timer hpending (hremembered timer ht)
    rw [hleft] at hc
    exact List.not_mem_nil hc
  have hindexed := (h.scheduled hcurrent).indexed
  intro timer hpending
  exact hindexed.not_due_of_batch_nil hbatch timer (hindexed.mem_inOrder.mpr hpending)

/-- If the leases that are over are reclaimed and no command is left, then no lease is over, or it
ends at the end of the calendar. -/
theorem Remembers.held (hremembers : p.Remembers) (hleft : p.unapplied = [])
    (hremembered : ∀ lease ∈ p.state.jobs.expiredLeases p.now, lease ∈ p.pendingTimeouts)
    {lease : Lease} (hheld : lease ∈ p.state.jobs.leases) :
    p.now ≤ lease.deadline ∨ Instant.latest ≤ lease.deadline := by
  by_cases hover : lease.deadline < p.now
  · have hexpired := JobLedger.mem_expiredLeases_iff.mpr ⟨hheld, hover⟩
    refine .inr ((Instant.not_lt _ _).mp fun hsmall => ?_)
    rcases hremembers.awaits lease (hremembered lease hexpired) hsmall with
      ⟨command, hc, -⟩ | ⟨hfree, -⟩
    · rw [hleft] at hc
      exact absurd hc List.not_mem_nil
    · exact hfree hheld
  · exact .inl ((Instant.not_lt _ _).mp hover)

/-! ### Idle -/

/-- The partition is idle, after moves from its opening that never set the clock back. -/
structure AtRest (evaluator : Evaluator) (p₀ q : Partition) : Prop where
  opened : Sourced evaluator p₀
  id : p₀.config.partitionId ≤ maxPartitionId
  records : p₀.records = []
  pendingTriggers : p₀.pendingTriggers = []
  pendingTimeouts : p₀.pendingTimeouts = []
  moves : ForwardMoves evaluator p₀ q
  current : q.cursor.needsRecovery = false
  left : q.unapplied = []
  /-- The checkers have seen all timers that may fire, and all leases that are over. -/
  triggers : ∀ timer ∈ q.state.timers.firingBatch q.now, timer.key ∈ q.pendingTriggers
  timeouts : ∀ lease ∈ q.state.jobs.expiredLeases q.now, lease ∈ q.pendingTimeouts

namespace AtRest

variable {p₀ : Partition}

theorem sourced (h : AtRest evaluator p₀ q) :
    Sourced evaluator q ∧ q.config.partitionId = p₀.config.partitionId :=
  h.opened.moves h.id h.moves.moves

theorem keysFit (h : AtRest evaluator p₀ q) (hkeys : q.state.keyCounter < 2 ^ keyCounterBits) :
    KeysFit evaluator q := by
  unfold KeysFit
  rw [← h.sourced.1.engine_eq h.current]
  exact hkeys

/-- All commands of the log are applied. -/
theorem commands_eq (h : AtRest evaluator p₀ q) :
    q.records.filter Record.isCommand = q.applied := by
  have hcommands := Partition.commands_eq h.sourced.1.numbered
  rw [h.left, List.append_nil] at hcommands
  exact hcommands

/-- **No timer is due.** -/
theorem noneDue (h : AtRest evaluator p₀ q) (hkeys : q.state.keyCounter < 2 ^ keyCounterBits) :
    q.state.NoneDue q.now :=
  (Watched.moves h.opened h.id (fun _ => .of_nothing h.pendingTriggers) h.moves.moves
    (h.keysFit hkeys) h.current).noneDue h.sourced.1 h.current h.left h.triggers

/-- **No job is under a lease that is over**, if this can be told from a new one. -/
theorem held (h : AtRest evaluator p₀ q) {key : Nat} {job : Job}
    (hget : q.state.jobs.get? key = some job) (hstate : job.state = .activated) :
    ∃ deadline, job.deadline = some deadline ∧ (q.now ≤ deadline ∨ Instant.latest ≤ deadline) := by
  have hbooked := h.sourced.1.booked h.current
  have hremembers : q.Remembers := Remembers.moves h.opened h.id (timed_of_nil h.records)
    (fun _ => .of_nothing h.pendingTimeouts) h.moves h.current
  obtain ⟨deadline, hdeadline⟩ :=
    Option.isSome_iff_exists.mp ((hbooked.activated key job hget).mp hstate)
  have hheld : (⟨deadline, key⟩ : Lease) ∈ q.state.jobs.leases :=
    (hbooked.lease _).mpr ⟨job, hget, hdeadline⟩
  exact ⟨deadline, hdeadline, hremembers.held h.left h.timeouts hheld⟩

end AtRest

/-- After the latest instant a job is leased, which ends at the latest instant.  The checkers run,
and the job is asked for again. -/
def overtimeLeaseRun : List PartitionAction :=
  let activate : CommandRequest := ⟨none, .jobBatch .activate, .jobBatch
    { jobType := "task", worker := "worker", timeout := ⟨10000000000⟩, maxJobs := 1 }⟩
  [.arrive (.setClock ⟨.overtime 100000000⟩),
    .arrive (.submitInternal ⟨none, .job .create, .job { jobType := "task", retries := 1 }⟩),
    .arrive (.submitInternal activate), .processRound, .prepareRound 1,
    .arrive (.submitInternal activate)]

end Partition

end Workflow
