/-
Rounds until idle come to an end.

While the clock stands still every round that applies a command lowers the load, and loads are well
founded, so after finitely many rounds one applies nothing, or one fails.  The limit that
`processUntilIdle` has on rounds is then of no account: from some limit on, the result is the same
(`processUntilIdle_returns`).

It takes an evaluator whose intervals have a period, and a clock that shows no time at the end of
the calendar.  Otherwise the successor of a timer may be due when the timer is, again and again.
-/
import Workflow.Proofs.Partition.Load
import Workflow.Proofs.Partition.Reads

namespace Workflow

namespace Partition

variable {evaluator : Evaluator} {p q : Partition}

/-! ### Rounds lower the load -/

/-- The load is lower, or nothing has happened. -/
theorem load_applyCommands (hevaluator : evaluator.Advances) (commands : List Record) :
    ∀ p : Partition, Sourced evaluator p → p.config.partitionId ≤ maxPartitionId →
      p.cursor.needsRecovery = false → p.now < Instant.latest → commands <+: p.unapplied →
      ∀ count q, applyCommands commands p = (.ok count, q) →
        q.now = p.now ∧ (count = 0 ∧ q.load = p.load ∨ q.load < p.load) := by
  induction commands with
  | nil =>
      intro p _ _ _ _ _ count q hok
      cases hok
      exact ⟨rfl, .inl ⟨rfl, rfl⟩⟩
  | cons command rest ih =>
      intro p h hid hcurrent hnow hfront count q hok
      rcases h.applyCommands_cases hcurrent hfront with
        ⟨e, final, heq, -⟩ | ⟨link, others, hnext, hlog, hmove, hcurrent₁, hfront₁, heq⟩
      · rw [heq] at hok
        cases hok
      · obtain ⟨h₁, hsame⟩ := h.move hid hmove
        have hless := load_advanced_lt h hcurrent hevaluator hnow hnext hlog
        have hclock := p.advanced_now link command
        rw [heq] at hok
        rcases hrest : applyCommands rest (p.advanced link command) with ⟨e | applied, final⟩
        · rw [hrest] at hok
          cases hok
        · rw [hrest] at hok
          cases hok
          obtain ⟨hclock', hload⟩ := ih (p.advanced link command) h₁ (by rw [hsame]; exact hid)
            hcurrent₁ (by rw [hclock]; exact hnow) hfront₁ applied final hrest
          refine ⟨hclock'.trans hclock, .inr ?_⟩
          rcases hload with ⟨-, hsame⟩ | hlower
          · rw [hsame]
            exact hless
          · exact hlower.trans hless

/-- Preparing a round adds nothing to the load. -/
theorem load_prepareRound (h : Sourced evaluator p) (hid : p.config.partitionId ≤ maxPartitionId)
    (hcurrent : p.cursor.needsRecovery = false) {max : Nat} {commands : List Record}
    (hok : p.prepareRound max = (.ok commands, q)) : q.now = p.now ∧ q.load ≤ p.load := by
  obtain ⟨p₁, p₂, calls, htimers, hmove, hleases, -, rfl⟩ := h.prepareRound_ok hid hcurrent hok
  obtain ⟨h₁, -⟩ := h.move hid hmove
  obtain ⟨hclock₁, hload₁⟩ := load_checkDueTimers h hcurrent htimers
  obtain ⟨hclock₂, hload₂⟩ := load_sweepExpiredLeases h₁ hleases
  exact ⟨hclock₂.trans hclock₁, le_trans hload₂ hload₁⟩

/-- **A round that applies a command lowers the load.** -/
theorem load_processRound (h : Sourced evaluator p) (hid : p.config.partitionId ≤ maxPartitionId)
    (hcurrent : p.cursor.needsRecovery = false) (hevaluator : evaluator.Advances)
    (hnow : p.now < Instant.latest) {count : Nat} (hok : p.processRound = (.ok count, q)) :
    q.now = p.now ∧ (count = 0 ∨ q.load < p.load) := by
  obtain ⟨result, p₁, hprepare, hmoves, hread⟩ :=
    prepareRound_moves h hid p.config.maxCommandsPerRound
  obtain ⟨h₁, hsame⟩ := h.moves hid hmoves
  unfold processRound at hok
  rw [hprepare] at hok
  cases result with
  | error e => cases hok
  | ok commands =>
      obtain ⟨hcurrent₁, hcommands⟩ := hread commands rfl
      obtain ⟨hclock, hload⟩ := load_prepareRound h hid hcurrent hprepare
      have hfront : commands <+: p₁.unapplied := by
        rw [hcommands]
        exact List.take_prefix _ _
      dsimp only at hok
      rw [processCommands_of_current hcurrent₁] at hok
      obtain ⟨hclock', hload'⟩ := load_applyCommands hevaluator commands p₁ h₁
        (by rw [hsame]; exact hid) hcurrent₁ (by rw [hclock]; exact hnow) hfront count q hok
      refine ⟨hclock'.trans hclock, ?_⟩
      rcases hload' with ⟨hzero, -⟩ | hlower
      · exact .inl hzero
      · exact .inr (lt_of_lt_of_le hlower hload)

/-! ### Rounds until idle -/

theorem RunEnd.after_ne_busy {run : RunEnd} (h : run ≠ .busy) (count : Nat) :
    run.after count ≠ .busy := by
  cases run with
  | idle applied => exact fun hbusy => by cases hbusy
  | failed cause => exact fun hbusy => by cases hbusy
  | busy => exact absurd rfl h

/-- A round that applies commands is followed by others. -/
theorem processUntilIdle_succ {count : Nat} (hround : p.processRound = (.ok (count + 1), q))
    (rounds : Nat) : processUntilIdle (rounds + 1) p =
      ((processUntilIdle rounds q).1.after (count + 1), (processUntilIdle rounds q).2) := by
  conv_lhs => unfold processUntilIdle
  rw [hround]
  rfl

/-- A round that fails or applies nothing is the last one. -/
theorem processUntilIdle_last (hround : ∀ count q, p.processRound ≠ (.ok (count + 1), q)) :
    ∃ run, run ≠ .busy ∧ ∀ rounds, processUntilIdle (rounds + 1) p = (run, p.processRound.2) := by
  rcases heq : p.processRound with ⟨e | _ | count, q⟩
  · refine ⟨.failed e, (fun hbusy => by cases hbusy), fun rounds => ?_⟩
    unfold processUntilIdle
    rw [heq]
  · refine ⟨.idle 0, (fun hbusy => by cases hbusy), fun rounds => ?_⟩
    unfold processUntilIdle
    rw [heq]
    rfl
  · exact absurd heq (hround count q)

/-- Once rounds have come to an end, more of them are not run. -/
theorem processUntilIdle_add (rounds more : Nat) :
    ∀ p : Partition, (processUntilIdle rounds p).1 ≠ .busy →
      processUntilIdle (rounds + more) p = processUntilIdle rounds p := by
  induction rounds with
  | zero => intro p hend; exact absurd rfl hend
  | succ rounds ih =>
      intro p hend
      rw [Nat.succ_add]
      by_cases hround : ∃ count q, p.processRound = (.ok (count + 1), q)
      · obtain ⟨count, q, hround⟩ := hround
        rw [processUntilIdle_succ hround] at hend
        have hrest : (processUntilIdle rounds q).1 ≠ .busy := fun hbusy => hend (by rw [hbusy]; rfl)
        rw [processUntilIdle_succ hround, processUntilIdle_succ hround, ih q hrest]
      · push Not at hround
        obtain ⟨run, -, hlast⟩ := processUntilIdle_last hround
        rw [hlast, hlast]

/-- Rounds come to an end if they do after a first one that applies commands. -/
theorem exists_rounds_of_first
    (hrest : ∀ count q, p.processRound = (.ok (count + 1), q) →
      ∃ rounds, (processUntilIdle rounds q).1 ≠ .busy) :
    ∃ rounds, (processUntilIdle rounds p).1 ≠ .busy := by
  by_cases hround : ∃ count q, p.processRound = (.ok (count + 1), q)
  · obtain ⟨count, q, hround⟩ := hround
    obtain ⟨rounds, hrounds⟩ := hrest count q hround
    refine ⟨rounds + 1, ?_⟩
    rw [processUntilIdle_succ hround]
    exact RunEnd.after_ne_busy hrounds _
  · push Not at hround
    obtain ⟨run, hrun, hlast⟩ := processUntilIdle_last hround
    refine ⟨1, ?_⟩
    rw [hlast 0]
    exact hrun

/-- After a round that applies commands the state is not ahead of the log. -/
theorem Sourced.after_round (h : Sourced evaluator p) (hid : p.config.partitionId ≤ maxPartitionId)
    {count : Nat} (hround : p.processRound = (.ok count, q)) :
    Sourced evaluator q ∧ q.config.partitionId ≤ maxPartitionId ∧
      q.cursor.needsRecovery = false := by
  obtain ⟨hmoves, hend⟩ := runBatch_moves h hid p.config.maxCommandsPerRound []
  rw [runBatch_nil, hround] at hmoves hend
  obtain ⟨hq, hsame⟩ := h.moves hid hmoves
  exact ⟨hq, by rw [hsame]; exact hid, hend count rfl⟩

/-- From a state that is not ahead of the log, rounds come to an end. -/
theorem Sourced.exists_rounds_of_current (hevaluator : evaluator.Advances)
    (h : Sourced evaluator p) (hid : p.config.partitionId ≤ maxPartitionId)
    (hcurrent : p.cursor.needsRecovery = false) (hnow : p.now < Instant.latest) (reads : Outage) :
    ∃ rounds, (Partition.processUntilIdle rounds (p.withReads reads)).1 ≠ .busy := by
  generalize hload : p.load = load
  induction load using WellFoundedLT.induction generalizing p reads with
  | ind load ih =>
      refine exists_rounds_of_first fun count q hround => ?_
      -- The load is that of the round without outages, where each read gives what it should.
      obtain ⟨quiet, reads', hquiet, rfl⟩ := processRound_withReads h hid hround
      obtain ⟨hq, hidq, hcurrent'⟩ := h.after_round hid hquiet
      obtain ⟨hclock, hlower⟩ := load_processRound h hid hcurrent hevaluator hnow hquiet
      have hless : quiet.load < load := by
        rw [← hload]
        exact hlower.resolve_left (Nat.succ_ne_zero count)
      exact ih quiet.load hless hq hidq hcurrent' (by rw [hclock]; exact hnow) reads' rfl

/-- When the state is to be rebuilt, a round does that first. -/
theorem Sourced.processRound_recovered (h : Sourced evaluator p)
    (hid : p.config.partitionId ≤ maxPartitionId) :
    ∃ q, Sourced evaluator q ∧ q.config = p.config ∧ q.cursor.needsRecovery = false ∧
      q.now = p.now ∧ p.processRound = q.processRound := by
  cases hneeds : p.cursor.needsRecovery with
  | false => exact ⟨p, h, rfl, hneeds, rfl, rfl⟩
  | true =>
      obtain ⟨calls, heq⟩ := h.recover_eq rfl h.readable h.reset
      have hmove : Move evaluator p p.recover.2 := .recover
      rw [heq] at hmove
      obtain ⟨hq, -⟩ := h.move hid hmove
      refine ⟨_, hq, rfl, rfl, rfl, ?_⟩
      have hrecover : p.recoverIfNeeded =
          (.ok (), p.rebuilt (p.host.link.afterReads calls)) := by
        unfold recoverIfNeeded
        rw [if_pos hneeds, heq]
        rfl
      unfold Partition.processRound Partition.prepareRound
      rw [hrecover, recoverIfNeeded_of_current rfl]
      rfl

/-- **Rounds come to an end**, from any state that agrees with its log. -/
theorem Sourced.exists_rounds (hevaluator : evaluator.Advances) (h : Sourced evaluator p)
    (hid : p.config.partitionId ≤ maxPartitionId) (hnow : p.now < Instant.latest)
    (reads : Outage) :
    ∃ rounds, (Partition.processUntilIdle rounds (p.withReads reads)).1 ≠ .busy := by
  refine exists_rounds_of_first fun count q hround => ?_
  obtain ⟨quiet, reads', hquiet, rfl⟩ := processRound_withReads h hid hround
  obtain ⟨hq, hidq, hcurrent⟩ := h.after_round hid hquiet
  -- Rebuilding may add to the load, but only the first round does it: the measure starts with the
  -- second.
  obtain ⟨p₁, h₁, hconfig, hcurrent₁, hclock₁, hsame⟩ := h.processRound_recovered hid
  obtain ⟨hclock, -⟩ := load_processRound h₁ (by rw [hconfig]; exact hid) hcurrent₁ hevaluator
    (by rw [hclock₁]; exact hnow) (hsame.symm.trans hquiet)
  exact hq.exists_rounds_of_current hevaluator hidq hcurrent
    (by rw [hclock, hclock₁]; exact hnow) reads'

/-- **Rounds until idle come to an end.**  Take any state that a run reaches: any commands may be
left, any timers and leases due, and the state may be ahead of the log.  Take any outages of appends
and reads.  If the intervals that the evaluator produces have a period and the clock shows an
earlier time than the end of the calendar, then finitely many rounds apply a command; after those
one applies nothing or fails, and no limit beyond that changes the result. -/
theorem processUntilIdle_returns {clock : Clock} {config : PartitionConfig} {p₀ : Partition}
    (hopen : Partition.open { clock } .builtin evaluator config = .ok p₀)
    (hevaluator : ∀ expression vars cycle, evaluator expression vars = .ok (.cycle cycle) →
      cycle.period.isZero = false)
    (actions : List PartitionAction) (reads : Outage)
    (hnow : (PartitionAction.runAll evaluator p₀ actions).now < Instant.latest) :
    let p := (PartitionAction.runAll evaluator p₀ actions).withReads reads
    ∃ rounds run final, run ≠ .busy ∧
      ∀ more, processUntilIdle (rounds + more) p = (run, final) := by
  intro p
  obtain ⟨h₀, hconfig, hid⟩ := sourced_of_open hopen
  have hid₀ : p₀.config.partitionId ≤ maxPartitionId := by
    rw [hconfig]
    exact hid
  obtain ⟨h, hsame⟩ := h₀.moves hid₀ (PartitionAction.runAll_moves actions p₀ h₀ hid₀)
  have hadvances : evaluator.Advances := by
    intro expression vars cycle hvalue _ length hlength
    cases hlength
    exact hevaluator expression vars cycle hvalue
  obtain ⟨rounds, hrounds⟩ := h.exists_rounds hadvances (by rw [hsame]; exact hid₀) hnow reads
  exact ⟨rounds, _, _, hrounds, fun more => processUntilIdle_add rounds more p hrounds⟩

/-- An endless timer is scheduled, a job is leased, the follow-ups of a command are refused, and
then the clock passes over several due dates and the end of the lease. -/
def backlogRun : List PartitionAction :=
  [.arrive (.submitInternal ⟨none, .deployment .create, .deployment
      { processId := "p", timerStarts := [⟨"cycle", ⟨.cycle, true, "= interval"⟩⟩] }⟩),
    .arrive (.submitInternal ⟨none, .job .create, .job { jobType := "task", retries := 1 }⟩),
    .arrive (.submitInternal ⟨none, .jobBatch .activate, .jobBatch
      { jobType := "task", worker := "worker", timeout := ⟨10000000000⟩, maxJobs := 1 }⟩),
    .processUntilIdle 5,
    .arrive (.submitInternal ⟨none, .job .create, .job { jobType := "task", retries := 1 }⟩),
    .arrive (.outage (.window 0 1)), .processRound,
    .arrive (.setClock ⟨Instant.epoch.add ⟨35000000000⟩⟩)]

theorem processUntilIdle_returns_backlog :
    let evaluator := Evaluator.ofTable [("= interval", .ok (.cycle ⟨.infinite, ⟨10000000000⟩⟩))]
    let p₀ := (unbuilt { clock := ⟨.epoch⟩ } evaluator {}).rebuilt (LogLink.afterReads {} 1)
    let p := PartitionAction.runAll evaluator p₀ backlogRun
    p.cursor.needsRecovery = true ∧ p.unapplied.length = 1 ∧
      ∃ rounds final, ∀ more,
        processUntilIdle (rounds + more) (p.withReads .none) = (.idle 5, final) := by
  intro evaluator p₀ p
  have hopen : Partition.open { clock := ⟨.epoch⟩ } .builtin evaluator {} = .ok p₀ := rfl
  have hevaluator : ∀ expression vars cycle, evaluator expression vars = .ok (.cycle cycle) →
      cycle.period.isZero = false := by
    intro expression vars cycle hvalue
    by_cases hname : expression = "= interval"
    · rw [hname] at hvalue
      cases hvalue
      rfl
    · have hother : (expression == "= interval") = false := beq_false_of_ne hname
      unfold evaluator Evaluator.ofTable at hvalue
      rw [List.reverse_singleton, List.lookup_cons, hother] at hvalue
      cases hvalue
  obtain ⟨rounds, run, final, -, hend⟩ :=
    processUntilIdle_returns hopen hevaluator backlogRun .none (by decide +kernel)
  have hfive : (processUntilIdle 4 (p.withReads .none)).1 = .idle 5 := by decide +kernel
  refine ⟨by decide +kernel, by decide +kernel, rounds, final, fun more => ?_⟩
  have hsame := processUntilIdle_add 4 rounds (p.withReads .none) (by rw [hfive]; decide)
  rw [Nat.add_comm, hend 4] at hsame
  have hrun : run = .idle 5 := (congrArg Prod.fst hsame).trans hfive
  rw [hend more, hrun]

end Partition

end Workflow
