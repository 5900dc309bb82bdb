/-
Timers fire in turn, however the rounds are cut.

A partition that has nothing left to apply runs rounds until it is idle.  Each round puts the
firing batch into the queue and applies some of what is left; the first round that applies nothing
finds the queue and the batch empty.  What has fired until then is what fires when timers fire in
turn, one at a time, with nothing in between.

The limit on rounds decides how a batch is cut, how many timers wait while others fire, and at
which positions successors are created.  It has no influence on what fires (`idle_fires_in_turn`).
After the latest instant a successor may be due before its timer, and what fires in turn is then not
in the order of due dates (`firings_descend_overtime`).
-/
import Workflow.Proofs.Partition.Queue

namespace Workflow

namespace Partition

variable {evaluator : Evaluator} {p q : Partition} {now : Instant} {queue : List Timer}

/-! ### Rounds -/

/-- **Preparing a round** puts the whole batch into the queue. -/
theorem Queued.prepareRound (hq : Queued p now queue) (h : Sourced evaluator p)
    (hid : p.config.partitionId ≤ maxPartitionId) (hcurrent : p.cursor.needsRecovery = false)
    {max : Nat} {commands : List Record} (hok : p.prepareRound max = (.ok commands, q)) :
    Queued q now (q.state.timers.firingBatch now) ∧ Progress now [] p q ∧ Moves evaluator p q ∧
      q.cursor.needsRecovery = false ∧ commands = q.unapplied.take max := by
  obtain ⟨result, end_, heq, hmoves, hread⟩ := prepareRound_moves h hid max
  rw [hok] at heq
  cases heq
  obtain ⟨hend, hcommands⟩ := hread commands rfl
  obtain ⟨p₁, p₂, calls, htimers, hmove₁, hleases, hmove₂, rfl⟩ :=
    h.prepareRound_ok hid hcurrent hok
  obtain ⟨h₁, -⟩ := h.move hid hmove₁
  obtain ⟨hq₁, hprogress₁, hprocessor₁⟩ := hq.checkDueTimers h hcurrent htimers
  obtain ⟨hq₂, hprogress₂, hprocessor₂⟩ := hq₁.sweepExpiredLeases h₁ hleases
  have hstate : p₂.state = p.state := by
    unfold state
    rw [hprocessor₂, hprocessor₁]
  refine ⟨?_, (hprogress₁.trans hprogress₂).trans (.still rfl rfl rfl), hmoves, hend, hcommands⟩
  show Queued _ now (p₂.state.timers.firingBatch now)
  rw [hstate]
  exact hq₂.timeOuts rfl rfl rfl (List.append_nil _).symm
    fun command hc => absurd hc List.not_mem_nil

/-- **Applying the first commands that are left** lets the first timers of the queue fire. -/
theorem Queued.applyCommands (commands : List Record) :
    ∀ (p : Partition) (queue : List Timer), Sourced evaluator p →
      p.config.partitionId ≤ maxPartitionId → p.cursor.needsRecovery = false →
      Queued p now queue → commands <+: p.unapplied →
      ∀ count q, applyCommands commands p = (.ok count, q) → KeysFit evaluator q →
        ∃ fired left, Queued q now left ∧ Progress now fired p q ∧ count = commands.length := by
  induction commands with
  | nil =>
      intro p queue _ _ _ hq _ count q hok _
      cases hok
      exact ⟨[], queue, hq, .still rfl rfl rfl, rfl⟩
  | cons command rest ih =>
      intro p queue h hid hcurrent hq hfront count q hok hkeys
      rcases h.applyCommands_cases hcurrent hfront with
        ⟨e, final, heq, -⟩ | ⟨link, others, hnext, hlog, hmove, hcurrent₁, hfront₁, heq⟩
      · rw [heq] at hok
        cases hok
      · obtain ⟨h₁, hsame⟩ := h.move hid hmove
        have hid₁ : (p.advanced link command).config.partitionId ≤ maxPartitionId := by
          rw [hsame]
          exact hid
        have hmoves := (applyCommands_moves rest (p.advanced link command) h₁ hid₁ hcurrent₁
          hfront₁).1
        rw [heq] at hok
        rcases hrest : Partition.applyCommands rest (p.advanced link command) with
          ⟨e | applied, final⟩
        · rw [hrest] at hok
          cases hok
        · rw [hrest] at hok hmoves
          cases hok
          have hkeys₁ := hkeys.earlier h₁ hid₁ hmoves
          unfold KeysFit at hkeys₁
          rw [← h₁.engine_eq hcurrent₁] at hkeys₁
          obtain ⟨fired, queue₁, hq₁, hprogress⟩ := hq.advanced h hcurrent hnext hlog hkeys₁
          obtain ⟨more, left, hq₂, hmore, hcount⟩ := ih (p.advanced link command) queue₁ h₁ hid₁
            hcurrent₁ hq₁ hfront₁ applied final hrest hkeys
          refine ⟨fired ++ more, left, hq₂, hprogress.trans hmore, ?_⟩
          rw [hcount]
          rfl

/-- **A round** lets timers fire in turn; if it applies nothing, no timer is due. -/
theorem Queued.processRound (hq : Queued p now queue) (h : Sourced evaluator p)
    (hid : p.config.partitionId ≤ maxPartitionId) (hcurrent : p.cursor.needsRecovery = false)
    (hmax : 0 < p.config.maxCommandsPerRound) {count : Nat}
    (hok : p.processRound = (.ok count, q)) (hkeys : KeysFit evaluator q) :
    ∃ fired left, Queued q now left ∧ Progress now fired p q ∧
      (count = 0 → q.state.NoneDue now) := by
  unfold Partition.processRound at hok
  rcases hprepare : p.prepareRound p.config.maxCommandsPerRound with ⟨e | commands, p₁⟩
  · rw [hprepare] at hok
    cases hok
  · obtain ⟨hq₁, hprogress, hmoves, hcurrent₁, hcommands⟩ :=
      hq.prepareRound h hid hcurrent hprepare
    obtain ⟨h₁, hsame⟩ := h.moves hid hmoves
    rw [hprepare] at hok
    dsimp only at hok
    rw [processCommands_of_current hcurrent₁] at hok
    have hfront : commands <+: p₁.unapplied := by
      rw [hcommands]
      exact List.take_prefix _ _
    obtain ⟨fired, left, hq₂, hfired, hcount⟩ := Queued.applyCommands commands p₁ _ h₁
      (by rw [hsame]; exact hid) hcurrent₁ hq₁ hfront count q hok hkeys
    refine ⟨[] ++ fired, left, hq₂, hprogress.trans hfired, ?_⟩
    intro hzero
    -- Nothing was read, so nothing was left, and the batch was empty.
    have hnil : commands = [] := List.length_eq_zero_iff.mp (hcount.symm.trans hzero)
    have hidle : p₁.unapplied = [] := by
      rw [hnil] at hcommands
      rcases List.take_eq_nil_iff.mp hcommands.symm with hlimit | hidle
      · exact absurd hlimit (Nat.ne_of_gt hmax)
      · exact hidle
    have hbatch : p₁.state.timers.firingBatch now = [] := by
      have htriggers := hq₁.triggers
      rw [hidle] at htriggers
      exact List.map_eq_nil_iff.mp htriggers.symm
    have hindexed := (h₁.scheduled hcurrent₁).indexed
    rw [hnil] at hok
    cases hok
    intro timer hpending
    exact hindexed.not_due_of_batch_nil hbatch timer (hindexed.mem_inOrder.mpr hpending)

/-- **Rounds until idle** let timers fire in turn until none is due. -/
theorem Queued.processUntilIdle (rounds : Nat) :
    ∀ (p : Partition) (queue : List Timer), Sourced evaluator p →
      p.config.partitionId ≤ maxPartitionId → p.cursor.needsRecovery = false →
      Queued p now queue → 0 < p.config.maxCommandsPerRound →
      ∀ count q, processUntilIdle rounds p = (.idle count, q) → KeysFit evaluator q →
        ∃ fired, Progress now fired p q ∧ q.state.NoneDue now := by
  induction rounds with
  | zero => intro p queue _ _ _ _ _ count q hidle _; cases hidle
  | succ rounds ih =>
      intro p queue h hid hcurrent hq hmax count q hidle hkeys
      obtain ⟨hround, hend⟩ := runBatch_moves h hid p.config.maxCommandsPerRound []
      rw [runBatch_nil] at hround hend
      unfold Partition.processUntilIdle at hidle
      rcases heq : p.processRound with ⟨e | applied, p₁⟩
      · rw [heq] at hidle
        cases hidle
      · rw [heq] at hidle hround hend
        obtain ⟨h₁, hsame⟩ := h.moves hid hround
        have hid₁ : p₁.config.partitionId ≤ maxPartitionId := by
          rw [hsame]
          exact hid
        cases applied with
        | zero =>
            cases hidle
            obtain ⟨fired, -, -, hprogress, hnone⟩ :=
              hq.processRound h hid hcurrent hmax heq hkeys
            exact ⟨fired, hprogress, hnone rfl⟩
        | succ applied =>
            obtain ⟨hmoves, -⟩ := processUntilIdle_moves rounds p₁ h₁ hid₁
            rcases hrest : Partition.processUntilIdle rounds p₁ with ⟨run, final⟩
            rw [hrest] at hmoves
            simp only [hrest] at hidle
            cases run with
            | failed e => cases hidle
            | busy => cases hidle
            | idle left =>
                cases hidle
                obtain ⟨fired, queue₁, hq₁, hprogress, -⟩ :=
                  hq.processRound h hid hcurrent hmax heq (hkeys.earlier h₁ hid₁ hmoves)
                obtain ⟨others, hothers, hnone⟩ := ih p₁ queue₁ h₁ hid₁ (hend _ rfl) hq₁
                  (by rw [hprogress.config]; exact hmax) left q hrest hkeys
                exact ⟨fired ++ others, hprogress.trans hothers, hnone⟩

/-! ### Any limit -/

/-- The partition with another limit on its rounds. -/
def withLimit (p : Partition) (limit : Nat) : Partition :=
  { p with config := { p.config with maxCommandsPerRound := limit } }

theorem Sourced.withLimit (h : Sourced evaluator p) (limit : Nat) :
    Sourced evaluator (p.withLimit limit) :=
  { h with }

theorem Watched.withLimit (h : p.Watched) (limit : Nat) : (p.withLimit limit).Watched :=
  { h with }

/-- From an idle partition, whatever its limit, timers fire in turn until none is due. -/
theorem Watched.fires {limit rounds count : Nat} (hwatched : KeysFit evaluator p → p.Watched)
    (h : Sourced evaluator p) (hid : p.config.partitionId ≤ maxPartitionId)
    (hcurrent : p.cursor.needsRecovery = false) (hidle : p.unapplied = []) (hlimit : 0 < limit)
    (hrun : Partition.processUntilIdle rounds (p.withLimit limit) = (.idle count, q))
    (hkeys : q.state.keyCounter < 2 ^ keyCounterBits) :
    ∃ fired final, Fires p.now p.processor fired final ∧ final.state.NoneDue p.now ∧
      triggered (q.records.drop p.records.length) = fired.map Timer.name := by
  have h₀ := h.withLimit limit
  obtain ⟨hmoves, hend⟩ := processUntilIdle_moves rounds (p.withLimit limit) h₀ hid
  rw [hrun] at hmoves hend
  obtain ⟨hq, -⟩ := h₀.moves hid hmoves
  have hfit : KeysFit evaluator q := by
    unfold KeysFit
    rw [← hq.engine_eq (hend count rfl)]
    exact hkeys
  have hfit₀ : KeysFit evaluator (p.withLimit limit) := hfit.earlier h₀ hid hmoves
  have hready := (hwatched hfit₀).withLimit limit
  obtain ⟨fired, hprogress, hnone⟩ := Queued.processUntilIdle rounds (p.withLimit limit) []
    h₀ hid hcurrent (hready.queued hidle) hlimit count q hrun hfit
  obtain ⟨final, hfires, -, hmirror⟩ := hprogress.fires p.processor h.builtin rfl
  refine ⟨fired, final, hfires, hmirror.noneDue hnone, ?_⟩
  obtain ⟨more, hmore, htold⟩ := hprogress.log
  have hdrop : q.records.drop p.records.length = more := by
    rw [hmore]
    exact List.drop_left
  rw [hdrop]
  exact htold

/-- After an opening nothing is remembered, so timers that are remembered await their triggers
after any run. -/
theorem watched_of_run {clock : Clock} {config : PartitionConfig} {p₀ : Partition}
    (hopen : Partition.open { clock } .builtin evaluator config = .ok p₀)
    (actions : List PartitionAction)
    (hcurrent : (PartitionAction.runAll evaluator p₀ actions).cursor.needsRecovery = false)
    (hkeys : KeysFit evaluator (PartitionAction.runAll evaluator p₀ actions)) :
    (PartitionAction.runAll evaluator p₀ actions).Watched := by
  obtain ⟨h₀, hconfig, hid⟩ := sourced_of_open hopen
  obtain ⟨-, calls, hopened⟩ := eq_of_open hopen
  have hid₀ : p₀.config.partitionId ≤ maxPartitionId := by
    rw [hconfig]
    exact hid
  have hnothing : p₀.pendingTriggers = [] := by
    rw [hopened]
    rfl
  exact Watched.moves h₀ hid₀ (fun _ => .of_nothing hnothing)
    (PartitionAction.runAll_moves actions p₀ h₀ hid₀) hkeys hcurrent

/-- Names are told by what does not depend on positions. -/
theorem map_name_of_unplaced {fired fired' : List Timer}
    (h : fired'.map Timer.unplaced = fired.map Timer.unplaced) :
    fired'.map Timer.name = fired.map Timer.name := by
  have hname : ∀ timers : List Timer,
      timers.map Timer.name = (timers.map Timer.unplaced).map Timer.name := by
    intro timers
    rw [List.map_map]
    rfl
  rw [hname, h, ← hname]

/-- **Timers fire in turn.**  Rounds that end idle, from any state that a run reaches with nothing
left to apply, tell in the log of exactly the timers that fire one at a time, always the first that
is due, each making its successor after all others.  That sequence is the only one, and no limit on
rounds changes it; up to the latest instant it is in the order of slots.  Keys have to be new for
this, which they are while their counter fits into its bits. -/
theorem idle_fires_in_turn {clock : Clock} {config : PartitionConfig} {p₀ : Partition}
    (hopen : Partition.open { clock } .builtin evaluator config = .ok p₀)
    (actions : List PartitionAction) {limit rounds count : Nat}
    (hidle : (PartitionAction.runAll evaluator p₀ actions).unapplied = [])
    (hcurrent : (PartitionAction.runAll evaluator p₀ actions).cursor.needsRecovery = false)
    (hlimit : 0 < limit)
    (hrun : Partition.processUntilIdle rounds
      ((PartitionAction.runAll evaluator p₀ actions).withLimit limit) = (.idle count, q))
    (hkeys : q.state.keyCounter < 2 ^ keyCounterBits) :
    let p := PartitionAction.runAll evaluator p₀ actions
    let told := triggered (q.records.drop p.records.length)
    (∃ fired final, Fires p.now p.processor fired final ∧ final.state.NoneDue p.now ∧
      told = fired.map Timer.name ∧
      (p.now ≤ Instant.latest → fired.Pairwise fun a b => a.slot < b.slot)) ∧
    (∀ fired final, Fires p.now p.processor fired final → final.state.NoneDue p.now →
      told = fired.map Timer.name) ∧
    ∀ limit' rounds' count' q', 0 < limit' →
      Partition.processUntilIdle rounds' (p.withLimit limit') = (.idle count', q') →
      q'.state.keyCounter < 2 ^ keyCounterBits →
      triggered (q'.records.drop p.records.length) = told := by
  intro p told
  obtain ⟨h₀, hconfig, hid⟩ := sourced_of_open hopen
  have hid₀ : p₀.config.partitionId ≤ maxPartitionId := by
    rw [hconfig]
    exact hid
  obtain ⟨h, hsame⟩ := h₀.moves hid₀ (PartitionAction.runAll_moves actions p₀ h₀ hid₀)
  have hidp : p.config.partitionId ≤ maxPartitionId := by
    rw [hsame]
    exact hid₀
  have hwatched := watched_of_run hopen actions hcurrent
  obtain ⟨fired, final, hfires, hnone, htold⟩ :=
    Watched.fires hwatched h hidp hcurrent hidle hlimit hrun hkeys
  have honly : ∀ fired' final', Fires p.now p.processor fired' final' →
      final'.state.NoneDue p.now → told = fired'.map Timer.name := by
    intro fired' final' hfires' hnone'
    have hsame' := hfires.alike hfires' h.builtin h.builtin (.refl _) hnone hnone'
    exact htold.trans (map_name_of_unplaced hsame').symm
  refine ⟨⟨fired, final, hfires, hnone, htold, hfires.ascending h.builtin⟩, honly, ?_⟩
  intro limit' rounds' count' q' hlimit' hrun' hkeys'
  obtain ⟨fired', final', hfires', hnone', htold'⟩ :=
    Watched.fires hwatched h hidp hcurrent hidle hlimit' hrun' hkeys'
  exact htold'.trans (honly fired' final' hfires' hnone').symm

/-- In the leap second after the latest instant a process with a repeating timer is deployed, and
the clock moves on to the end of that second. -/
def overtimeRun : List PartitionAction :=
  [.arrive (.setClock ⟨.overtime 100000000⟩),
    .arrive (.submitInternal ⟨none, .deployment .create, .deployment
      { processId := "p", timerStarts := [⟨"cycle", ⟨.cycle, false, "R3/PT0.3S"⟩⟩] }⟩),
    .processUntilIdle 5, .arrive (.setClock ⟨.overtime 999999999⟩)]

/-- **After the latest instant the order is lost.**  The third firing of the timer would be due
after that second, so it is due at the latest instant, before the two that come first. -/
theorem firings_descend_overtime :
    let p₀ := (unbuilt {} .unavailable {}).rebuilt (LogLink.afterReads {} 1)
    let p := PartitionAction.runAll .unavailable p₀ overtimeRun
    let run := Partition.processUntilIdle 5 p
    Partition.open { clock := {} } .builtin .unavailable {} = .ok p₀ ∧
      p.unapplied = [] ∧ p.cursor.needsRecovery = false ∧ run.1 = .idle 3 ∧
      (triggered (run.2.records.drop p.records.length)).map Prod.snd =
        [some (.overtime 400000000), some (.overtime 700000000), some .latest] ∧
      Instant.latest < .overtime 400000000 :=
  ⟨rfl, by decide +kernel⟩

/-- A process with a repeating timer and one that fires once is deployed, and the clock passes over
all of their due dates. -/
def cyclesRun : List PartitionAction :=
  let starts : List TimerStart :=
    [⟨"cycle", ⟨.cycle, false, "R2/PT10S"⟩⟩, ⟨"once", ⟨.duration, false, "PT15S"⟩⟩]
  [.arrive (.submitInternal ⟨none, .deployment .create,
      .deployment { processId := "p", timerStarts := starts }⟩),
    .processUntilIdle 5, .arrive (.setClock ⟨.latest⟩)]

theorem idle_fires_in_turn_cycles :
    let p₀ := (unbuilt {} .unavailable {}).rebuilt (LogLink.afterReads {} 1)
    let p := PartitionAction.runAll .unavailable p₀ cyclesRun
    let q := (Partition.processUntilIdle 5 (p.withLimit 1)).2
    ∃ fired final, Fires p.now p.processor fired final ∧ final.state.NoneDue p.now ∧
      triggered (q.records.drop p.records.length) = fired.map Timer.name ∧ fired.length = 3 := by
  intro p₀ p q
  have hopen : Partition.open { clock := {} } .builtin .unavailable {} = .ok p₀ := rfl
  have hcount : (Partition.processUntilIdle 5 (p.withLimit 1)).1 = .idle 3 := by decide +kernel
  have hrun : Partition.processUntilIdle 5 (p.withLimit 1) =
      (.idle 3, (Partition.processUntilIdle 5 (p.withLimit 1)).2) := Prod.fst_eq_iff.mp hcount
  obtain ⟨⟨fired, final, hfires, hnone, htold, -⟩, -, -⟩ :=
    idle_fires_in_turn hopen cyclesRun (by decide +kernel) (by decide +kernel) Nat.one_pos hrun
      (by decide +kernel)
  refine ⟨fired, final, hfires, hnone, htold, ?_⟩
  have hthree : (triggered (q.records.drop p.records.length)).length = 3 := by decide +kernel
  rw [htold, List.length_map] at hthree
  exact hthree

end Partition

end Workflow
