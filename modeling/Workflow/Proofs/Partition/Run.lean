/-
Every run of a partition is event-sourced.

A run opens a partition on an empty log and then does any actions in any order: commands arrive,
the clock moves, appends begin or cease to be refused, rounds are prepared and run, the state is
rebuilt, the partition is closed and opened again.  Things may also arrive between the reading of
a round and its applying.

Whatever the run, the log alone says what the state is: it is the fold of the applied commands
over the empty state, the log holds what that fold produces, and a rebuild changes neither.
-/
import Workflow.Proofs.Partition.Moves

namespace Workflow

/-- What comes to a partition from outside, at any moment. -/
inductive Arrival where
  /-- A request. -/
  | submit (request : CommandRequest) (correlation : Correlation)
  /-- A command that expects no response. -/
  | submitInternal (request : CommandRequest)
  /-- Somebody asks for a response. -/
  | take (pending : PendingResponse)
  /-- The clock is moved. -/
  | setClock (clock : Clock)
  /-- From now on these appends are refused on their way to the log. -/
  | outage (appends : Outage)
  /-- The log refuses its next appends. -/
  | refuseNext (count : Nat)

namespace Arrival

/-- The partition after an arrival. -/
def run (p : Partition) : Arrival → Partition
  | .submit request correlation => (p.submit request correlation).2
  | .submitInternal request => (p.submitInternal request).2
  | .take pending => (p.tryTake pending).2
  | .setClock clock => { p with host := { p.host with clock } }
  | .outage appends => p.withLink { p.host.link with appends }
  | .refuseNext count => p.withLink { p.host.link with log := p.host.link.log.refuseNext count }

variable {evaluator : Evaluator} {p : Partition}

theorem move (arrival : Arrival) : Partition.Move evaluator p (arrival.run p) := by
  cases arrival with
  | submit request correlation => exact .submit request correlation
  | submitInternal request => exact .submitInternal request
  | take pending => exact .take pending
  | setClock clock => exact .outside clock rfl rfl rfl
  | outage appends => exact .outside p.host.clock rfl rfl rfl
  | refuseNext count => exact .outside p.host.clock rfl rfl rfl

/-- What arrives changes what the partition is connected to, and nothing else. -/
theorem exists_run_eq (arrival : Arrival) (p : Partition) :
    ∃ host, arrival.run p = { p with host } := by
  cases arrival with
  | submit request correlation =>
      rcases p.submit_cases request correlation with
        ⟨e, heq⟩ | ⟨link, -, -, ⟨e, heq, -⟩ | ⟨heq, -⟩⟩
      · exact ⟨p.host, by rw [run, heq]⟩
      · exact ⟨_, by rw [run, heq]; rfl⟩
      · exact ⟨_, by rw [run, heq]; rfl⟩
  | submitInternal request =>
      obtain ⟨link, -, heq, -⟩ := p.submitInternal_cases request
      exact ⟨_, by rw [run, heq]; rfl⟩
  | take pending => exact ⟨_, rfl⟩
  | setClock clock => exact ⟨_, rfl⟩
  | outage appends => exact ⟨_, rfl⟩
  | refuseNext count => exact ⟨_, rfl⟩

theorem run_processor (arrival : Arrival) (p : Partition) :
    (arrival.run p).processor = p.processor := by
  obtain ⟨host, heq⟩ := arrival.exists_run_eq p
  rw [heq]

theorem run_config (arrival : Arrival) (p : Partition) :
    (arrival.run p).config = p.config := by
  obtain ⟨host, heq⟩ := arrival.exists_run_eq p
  rw [heq]

/-- What arrives stands behind what is left to apply. -/
theorem unapplied_kept (h : p.Sourced evaluator) (arrival : Arrival) :
    (arrival.run p).cursor = p.cursor ∧ p.unapplied <+: (arrival.run p).unapplied := by
  have hsame : ∀ q : Partition, q.cursor = p.cursor → q.records = p.records →
      q.cursor = p.cursor ∧ p.unapplied <+: q.unapplied := by
    intro q hcursor hlog
    have heq : p.unapplied = q.unapplied := by
      unfold Partition.unapplied Partition.isProcessed
      rw [hcursor, hlog]
    exact ⟨hcursor, heq ▸ List.prefix_rfl⟩
  have hmore : ∀ (q : Partition) (drafts : List Draft), q.cursor = p.cursor →
      q.records = p.records ++ Log.numbered (p.host.link.log.size + 1) drafts →
      q.cursor = p.cursor ∧ p.unapplied <+: q.unapplied := by
    intro q drafts hcursor hlog
    refine ⟨hcursor, ?_⟩
    rw [Partition.unapplied_extend h.cursor_le hcursor hlog]
    exact List.prefix_append _ _
  cases arrival with
  | submit request correlation =>
      rcases p.submit_cases request correlation with
        ⟨e, heq⟩ | ⟨link, -, -, ⟨e, heq, hlog⟩ | ⟨heq, hlog⟩⟩
      · rw [run, heq]
        exact hsame p rfl rfl
      · rw [run, heq]
        exact hsame _ rfl hlog
      · rw [run, heq]
        exact hmore _ _ rfl hlog
  | submitInternal request =>
      obtain ⟨link, -, heq, hlog | hlog⟩ := p.submitInternal_cases request
      · rw [run, heq]
        exact hsame _ rfl hlog
      · rw [run, heq]
        exact hmore _ _ rfl hlog
  | take pending => exact hsame _ rfl rfl
  | setClock clock => exact hsame _ rfl rfl
  | outage appends => exact hsame _ rfl rfl
  | refuseNext count => exact hsame _ rfl rfl

/-- Any number of arrivals. -/
theorem moves (h : p.Sourced evaluator) (hid : p.config.partitionId ≤ maxPartitionId)
    (arrivals : List Arrival) :
    Partition.Moves evaluator p (arrivals.foldl run p) ∧
      (arrivals.foldl run p).cursor = p.cursor ∧
      p.unapplied <+: (arrivals.foldl run p).unapplied := by
  induction arrivals generalizing p with
  | nil => exact ⟨.refl, rfl, List.prefix_rfl⟩
  | cons arrival rest ih =>
      obtain ⟨hcursor, hfront⟩ := unapplied_kept h arrival
      obtain ⟨hsourced, hsame⟩ := h.move hid arrival.move
      obtain ⟨hmoves, hcursors, hfronts⟩ := ih hsourced (by rw [hsame]; exact hid)
      exact ⟨.head arrival.move hmoves, hcursors.trans hcursor, hfront.trans hfronts⟩

end Arrival

namespace Partition

variable {evaluator : Evaluator} {p : Partition}

/-- A round of any size, with arrivals between its reading and its applying. -/
def runBatch (p : Partition) (max : Nat) (arrivals : List Arrival) :
    Except PartitionError Nat × Partition :=
  match p.prepareRound max with
  | (.error e, p) => (.error e, p)
  | (.ok commands, p) => (arrivals.foldl Arrival.run p).processCommands commands

theorem runBatch_nil (p : Partition) :
    p.runBatch p.config.maxCommandsPerRound [] = p.processRound := rfl

/-- A round is moves up to its reading and, if that succeeds, moves from where arrivals have led.
Then it ends in a state that is not ahead of the log, if it succeeds as a whole. -/
theorem runBatch_parts (h : Sourced evaluator p) (hid : p.config.partitionId ≤ maxPartitionId)
    (max : Nat) (arrivals : List Arrival) :
    ∃ q, SteadyMoves evaluator p q ∧
      ((∃ e, p.prepareRound max = (.error e, q) ∧ p.runBatch max arrivals = (.error e, q)) ∨
        ∃ commands, p.prepareRound max = (.ok commands, q) ∧
          p.runBatch max arrivals = (arrivals.foldl Arrival.run q).processCommands commands ∧
          SteadyMoves evaluator (arrivals.foldl Arrival.run q) (p.runBatch max arrivals).2 ∧
          ∀ count, (p.runBatch max arrivals).1 = .ok count →
            (p.runBatch max arrivals).2.cursor.needsRecovery = false) := by
  obtain ⟨result, q, hprepare, hmoves, hread⟩ := prepareRound_steady h hid max
  obtain ⟨hq, hsame⟩ := h.moves hid hmoves.moves
  refine ⟨q, hmoves, ?_⟩
  unfold runBatch
  rw [hprepare]
  cases result with
  | error e => exact .inl ⟨e, rfl, rfl⟩
  | ok commands =>
      obtain ⟨hcurrent, hcommands⟩ := hread commands rfl
      have hidq : q.config.partitionId ≤ maxPartitionId := by rw [hsame]; exact hid
      obtain ⟨harrive, hcursor, hfront⟩ := Arrival.moves hq hidq arrivals
      obtain ⟨hamid, hsame'⟩ := hq.moves hidq harrive
      have hcurrent' : (arrivals.foldl Arrival.run q).cursor.needsRecovery = false := by
        rw [hcursor]
        exact hcurrent
      have hfirst : commands <+: (arrivals.foldl Arrival.run q).unapplied := by
        rw [hcommands]
        exact (List.take_prefix _ _).trans hfront
      refine .inr ⟨commands, rfl, rfl, ?_⟩
      dsimp only
      rw [processCommands_of_current hcurrent']
      exact applyCommands_steady commands _ hamid (by rw [hsame']; exact hidq) hcurrent' hfirst

/-- A round is a sequence of moves, whatever arrives in its midst, and when it succeeds the state
is not ahead of the log. -/
theorem runBatch_moves (h : Sourced evaluator p) (hid : p.config.partitionId ≤ maxPartitionId)
    (max : Nat) (arrivals : List Arrival) : Moves evaluator p (p.runBatch max arrivals).2 ∧
      ∀ count, (p.runBatch max arrivals).1 = .ok count →
        (p.runBatch max arrivals).2.cursor.needsRecovery = false := by
  obtain ⟨q, hmoves, ⟨e, -, heq⟩ | ⟨commands, -, -, happly, hend⟩⟩ :=
    runBatch_parts h hid max arrivals
  · rw [heq]
    exact ⟨hmoves.moves, fun _ hok => by cases hok⟩
  · obtain ⟨hq, hsame⟩ := h.moves hid hmoves.moves
    obtain ⟨harrive, -, -⟩ := Arrival.moves hq (by rw [hsame]; exact hid) arrivals
    exact ⟨(hmoves.moves.trans harrive).trans happly.moves, hend⟩

/-- A round in which nothing arrives leaves the clock and the settings alone. -/
theorem processRound_steady (h : Sourced evaluator p)
    (hid : p.config.partitionId ≤ maxPartitionId) : SteadyMoves evaluator p p.processRound.2 ∧
      ∀ count, p.processRound.1 = .ok count → p.processRound.2.cursor.needsRecovery = false := by
  rw [← runBatch_nil]
  obtain ⟨q, hmoves, ⟨e, -, heq⟩ | ⟨commands, -, -, happly, hend⟩⟩ :=
    runBatch_parts h hid p.config.maxCommandsPerRound []
  · rw [heq]
    exact ⟨hmoves, fun _ hok => by cases hok⟩
  · exact ⟨hmoves.trans happly, hend⟩

/-- Rounds are sequences of moves, and when they end idle the state is not ahead of the log. -/
theorem processUntilIdle_steady (rounds : Nat) :
    ∀ p : Partition, Sourced evaluator p → p.config.partitionId ≤ maxPartitionId →
      SteadyMoves evaluator p (processUntilIdle rounds p).2 ∧
        ∀ count, (processUntilIdle rounds p).1 = .idle count →
          (processUntilIdle rounds p).2.cursor.needsRecovery = false := by
  induction rounds with
  | zero => intro p _ _; exact ⟨.refl, fun _ hidle => by cases hidle⟩
  | succ rounds ih =>
      intro p h hid
      obtain ⟨hround, hend⟩ := processRound_steady h hid
      unfold processUntilIdle
      rcases heq : p.processRound with ⟨e | count, q⟩
      · rw [heq] at hround
        exact ⟨hround, fun _ hidle => by cases hidle⟩
      · rw [heq] at hround hend
        obtain ⟨hq, hsame⟩ := h.moves hid hround.moves
        cases count with
        | zero => exact ⟨hround, fun _ _ => hend 0 rfl⟩
        | succ count =>
            obtain ⟨hrest, hlast⟩ := ih q hq (by rw [hsame]; exact hid)
            refine ⟨hround.trans hrest, ?_⟩
            intro total hidle
            change (processUntilIdle rounds q).1.after (count + 1) = .idle total at hidle
            cases hrun : (processUntilIdle rounds q).1 with
            | idle left => exact hlast left hrun
            | failed e =>
                rw [hrun] at hidle
                cases hidle
            | busy =>
                rw [hrun] at hidle
                cases hidle

theorem processUntilIdle_moves (rounds : Nat) (p : Partition) (h : Sourced evaluator p)
    (hid : p.config.partitionId ≤ maxPartitionId) :
    Moves evaluator p (processUntilIdle rounds p).2 ∧
      ∀ count, (processUntilIdle rounds p).1 = .idle count →
        (processUntilIdle rounds p).2.cursor.needsRecovery = false := by
  obtain ⟨hmoves, hend⟩ := processUntilIdle_steady rounds p h hid
  exact ⟨hmoves.moves, hend⟩

end Partition

/-- What a run of a partition consists of. -/
inductive PartitionAction where
  /-- Something arrives. -/
  | arrive (arrival : Arrival)
  /-- A round is prepared, and what it read is not applied. -/
  | prepareRound (max : Nat)
  /-- A round. -/
  | processRound
  /-- A round of any size, with arrivals between its reading and its applying. -/
  | runBatch (max : Nat) (arrivals : List Arrival)
  /-- Rounds until one applies nothing, at most so many. -/
  | processUntilIdle (rounds : Nat)
  /-- The state is rebuilt. -/
  | recover
  /-- The partition is closed and opened again, with another limit on its rounds. -/
  | reopen (maxCommandsPerRound : Nat)

namespace PartitionAction

variable {evaluator : Evaluator} {p : Partition}

/-- The partition after an action.  Opening does not fail (`Sourced.open_eq`). -/
def run (evaluator : Evaluator) (p : Partition) : PartitionAction → Partition
  | .arrive arrival => arrival.run p
  | .prepareRound max => (p.prepareRound max).2
  | .processRound => p.processRound.2
  | .runBatch max arrivals => (p.runBatch max arrivals).2
  | .processUntilIdle rounds => (Partition.processUntilIdle rounds p).2
  | .recover => p.recover.2
  | .reopen maxCommandsPerRound =>
      match Partition.open p.close .builtin evaluator
          ⟨p.config.partitionId, maxCommandsPerRound⟩ with
      | .ok q => q
      | .error _ => p

/-- The partition after all actions. -/
def runAll (evaluator : Evaluator) (p : Partition) (actions : List PartitionAction) : Partition :=
  actions.foldl (run evaluator) p

theorem moves (h : p.Sourced evaluator) (hid : p.config.partitionId ≤ maxPartitionId)
    (action : PartitionAction) : Partition.Moves evaluator p (action.run evaluator p) := by
  cases action with
  | arrive arrival => exact .single arrival.move
  | prepareRound max =>
      obtain ⟨result, q, heq, hmoves, -⟩ := Partition.prepareRound_moves h hid max
      show Partition.Moves evaluator p (p.prepareRound max).2
      rw [heq]
      exact hmoves
  | processRound => exact (Partition.runBatch_moves h hid p.config.maxCommandsPerRound []).1
  | runBatch max arrivals => exact (Partition.runBatch_moves h hid max arrivals).1
  | processUntilIdle rounds => exact (Partition.processUntilIdle_moves rounds p h hid).1
  | recover => exact .single .recover
  | reopen count =>
      have hsame : (⟨p.config.partitionId, count⟩ : PartitionConfig).partitionId =
          p.config.partitionId := rfl
      obtain ⟨calls, hopen⟩ := h.open_eq hid hsame
      simp only [run, hopen]
      exact .single (.reopen ⟨p.config.partitionId, count⟩ rfl hopen)

/-- **A run is a sequence of moves.** -/
theorem runAll_moves (actions : List PartitionAction) :
    ∀ p : Partition, p.Sourced evaluator → p.config.partitionId ≤ maxPartitionId →
      Partition.Moves evaluator p (runAll evaluator p actions) := by
  induction actions with
  | nil => intro p _ _; exact .refl
  | cons action rest ih =>
      intro p h hid
      have hmoves := moves h hid action
      obtain ⟨hnext, hsame⟩ := h.moves hid hmoves
      exact hmoves.trans (ih _ hnext (by rw [hsame]; exact hid))

end PartitionAction

namespace Partition

variable {evaluator : Evaluator} {p : Partition}

/-! ### Runs -/

/-- With an empty log there is nothing to disagree about. -/
theorem sourced_unbuilt (clock : Clock) (evaluator : Evaluator) (config : PartitionConfig) :
    (unbuilt { clock } evaluator config).Sourced evaluator where
  reset := rfl
  numbered := rfl
  readable := fun _ => rfl
  calm := rfl
  cursor_le := Nat.le_refl 0
  followUps := rfl
  sources := fun _ hr => absurd hr List.not_mem_nil
  current := fun _ => rfl

/-- Opening a partition on an empty log rebuilds it from nothing. -/
theorem eq_of_open {clock : Clock} {config : PartitionConfig}
    (hopen : Partition.open { clock } .builtin evaluator config = .ok p) :
    config.partitionId ≤ maxPartitionId ∧
      ∃ calls, p = (unbuilt { clock } evaluator config).reopened evaluator config calls := by
  have hid : config.partitionId ≤ maxPartitionId := by
    by_contra hlarge
    unfold Partition.open at hopen
    rw [if_pos (Nat.lt_of_not_le hlarge)] at hopen
    cases hopen
  obtain ⟨calls, heq⟩ := (sourced_unbuilt clock evaluator config).open_eq
    (p := unbuilt { clock } evaluator config) hid rfl
  exact ⟨hid, calls, (Except.ok.inj (heq.symm.trans hopen)).symm⟩

/-- A partition that was opened on an empty log agrees with it. -/
theorem sourced_of_open {clock : Clock} {config : PartitionConfig}
    (hopen : Partition.open { clock } .builtin evaluator config = .ok p) :
    p.Sourced evaluator ∧ p.config = config ∧ config.partitionId ≤ maxPartitionId := by
  obtain ⟨hid, calls, rfl⟩ := eq_of_open hopen
  exact ⟨(sourced_unbuilt clock evaluator config).reopened rfl calls, rfl, hid⟩

/-- **Every run is event-sourced.**  When the state is not known to be ahead of the log, it is the
fold of the applied commands, the log holds exactly what that fold produces, and no other command
has follow-ups.  A rebuild and a new opening always succeed, and lead to the same state. -/
theorem run_eventSourced {clock : Clock} {config : PartitionConfig} {p₀ : Partition}
    (hopen : Partition.open { clock } .builtin evaluator config = .ok p₀)
    (actions : List PartitionAction) :
    let p := PartitionAction.runAll evaluator p₀ actions
    let initial := Processor.start config.partitionId .builtin evaluator
    p.records.map Record.position = List.range' 1 p.records.length ∧
    (p.cursor.needsRecovery = false →
      p.state = (initial.after p.applied).state ∧
      (p.applied.map fun command => Recovery.followUpsOf p.records command.position) =
        (initial.outcomes p.applied).map Outcome.followUps ∧
      ∀ command ∈ p.unapplied, Recovery.followUpsOf p.records command.position = []) ∧
    (∃ count q, p.recover = (.ok count, q) ∧
      (p.cursor.needsRecovery = false → q.state = p.state)) ∧
    ∀ limit, ∃ q, Partition.open p.close .builtin evaluator ⟨config.partitionId, limit⟩ = .ok q ∧
      (p.cursor.needsRecovery = false → q.state = p.state) := by
  intro p initial
  obtain ⟨h₀, hconfig, hid⟩ := sourced_of_open hopen
  have hid₀ : p₀.config.partitionId ≤ maxPartitionId := by rw [hconfig]; exact hid
  obtain ⟨h, hsame⟩ := h₀.moves hid₀ (PartitionAction.runAll_moves actions p₀ h₀ hid₀)
  have hpid : p.config.partitionId = config.partitionId := hsame.trans (by rw [hconfig])
  have hinitial : p.initialEngine evaluator = initial := by
    show Processor.start p.config.partitionId .builtin evaluator = _
    rw [hpid]
  refine ⟨h.numbered, ?_, ?_, ?_⟩
  · intro hcurrent
    refine ⟨?_, ?_, ?_⟩
    · show p.processor.state = _
      rw [h.current hcurrent, hinitial]
    · rw [← hinitial]
      exact h.followUps
    · intro command hc
      exact h.followUpsOf_unapplied (lt_of_mem_unapplied h.numbered hc)
  · obtain ⟨calls, heq⟩ := h.recover_eq rfl h.readable h.reset
    refine ⟨_, _, heq, fun hcurrent => ?_⟩
    show (p.rebuilt _).processor.state = p.processor.state
    rw [h.rebuilt_processor rfl h.reset, ← h.current hcurrent]
  · intro limit
    have hsameId : (⟨config.partitionId, limit⟩ : PartitionConfig).partitionId =
        p.config.partitionId := hpid.symm
    obtain ⟨calls, heq⟩ := h.open_eq (hpid ▸ hid) hsameId
    refine ⟨_, heq, fun hcurrent => ?_⟩
    show (p.reopened evaluator ⟨config.partitionId, limit⟩ calls).processor.state =
      p.processor.state
    rw [h.reopened_processor hsameId, ← h.current hcurrent]

/-- A run in which the follow-ups of a command are refused, and the command is applied again. -/
def refusedRun : List PartitionAction :=
  [.arrive (.submitInternal ⟨none, .job .create, .job { jobType := "task", retries := 1 }⟩),
    .arrive (.outage (.window 0 1)), .processRound, .runBatch 1 [], .reopen 1]

theorem refusedRun_eventSourced :
    let p₀ := (unbuilt {} .unavailable {}).rebuilt (LogLink.afterReads {} 1)
    let p := PartitionAction.runAll .unavailable p₀ refusedRun
    Partition.open { clock := {} } .builtin .unavailable {} = .ok p₀ ∧
      p.cursor.needsRecovery = false ∧ p.applied.length = 1 ∧
      p.state = ((Processor.start ({} : PartitionConfig).partitionId .builtin
        .unavailable).after p.applied).state := by
  have hopen : Partition.open { clock := {} } .builtin .unavailable {} =
      .ok ((unbuilt {} .unavailable {}).rebuilt (LogLink.afterReads {} 1)) := rfl
  have hcurrent : (PartitionAction.runAll .unavailable
      ((unbuilt {} .unavailable {}).rebuilt (LogLink.afterReads {} 1))
      refusedRun).cursor.needsRecovery = false := by decide +kernel
  have hsourced := run_eventSourced hopen refusedRun
  exact ⟨hopen, hcurrent, by decide +kernel, (hsourced.2.1 hcurrent).1⟩

end Partition

end Workflow
