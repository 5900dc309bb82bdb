/-
A scheduler that drives a partition does what rounds of the partition do.

The limit in the settings of a partition is read by `processRound` alone, so everything else that a
partition does is the same under another limit (the `_withLimit` lemmas), and a scheduler may take
its batch size from elsewhere.  A round of the scheduler leaves out the processing of an empty
batch.  That processing would begin with a rebuild if the state were ahead of the log; but a batch
is only pulled from a partition whose state is not, so nothing is left out.
-/
import Workflow.Partition.Work
import Workflow.Proofs.Batch.Signal
import Workflow.Proofs.Partition.Firing
import Workflow.Proofs.Partition.Recast

namespace Workflow

/-! ### Outcomes and answers -/

/-- The outcome of a scheduled round says what a round of the partition answered. -/
structure RoundOutcome.Agrees (outcome : RoundOutcome) (answer : Except PartitionError Nat) :
    Prop where
  /-- Commands were processed just if some were applied. -/
  processed : ∀ count, outcome = .processed count ↔ answer = .ok count ∧ 0 < count
  /-- The round was idle just if none was applied. -/
  idle : outcome = .idle ↔ answer = .ok 0
  /-- The round failed just if there was an error. -/
  failed : (∃ reason, outcome = .failed reason) ↔ ∃ e, answer = .error e
  /-- The reason names the error, and the half of the round that it ended. -/
  reason : ∀ e, answer = .error e →
    outcome = .failed (BatchError.source e.message).message ∨
      outcome = .failed (BatchError.processing e.message).message

theorem RoundOutcome.agrees_processed (count : Nat) :
    Agrees (.processed (count + 1)) (.ok (count + 1)) := by
  constructor <;> simp

theorem RoundOutcome.agrees_idle : Agrees .idle (.ok 0) := by
  constructor <;> simp

theorem RoundOutcome.agrees_failed {e : PartitionError} {reason : String}
    (hreason : reason = (BatchError.source e.message).message ∨
      reason = (BatchError.processing e.message).message) :
    Agrees (.failed reason) (.error e) := by
  constructor <;> simp [hreason]

namespace Partition

/-! ### The limit is read by rounds alone -/

variable (p : Partition) (limit : Nat)

theorem recover_withLimit :
    (p.withLimit limit).recover = (p.recover.1, p.recover.2.withLimit limit) := by
  have hread : (p.withLimit limit).host.link.readAll = p.host.link.readAll := rfl
  unfold recover
  rw [hread]
  rcases p.host.link.readAll with ⟨e | records, link⟩
  · rfl
  · have hreset : ((p.withLimit limit).withLink link).processor.reset =
        (p.withLink link).processor.reset := rfl
    dsimp only
    rw [hreset]
    rcases Recovery.replay records (Recovery.appliedCommands records)
      (p.withLink link).processor.reset with ⟨e | count, processor⟩ <;> rfl

theorem recoverIfNeeded_withLimit :
    (p.withLimit limit).recoverIfNeeded =
      (p.recoverIfNeeded.1, p.recoverIfNeeded.2.withLimit limit) := by
  have hneeded : (p.withLimit limit).cursor.needsRecovery = p.cursor.needsRecovery := rfl
  unfold recoverIfNeeded
  rw [hneeded, recover_withLimit]
  cases p.cursor.needsRecovery <;> rfl

theorem rebuildIfDue_withLimit (applying : Bool) :
    (p.withLimit limit).rebuildIfDue applying = (p.rebuildIfDue applying).withLimit limit := by
  have hdue : (p.withLimit limit).host.link.rebuildDue = p.host.link.rebuildDue := rfl
  have hrecover := recover_withLimit (p.withLink { p.host.link with rebuildDue := false }) limit
  unfold rebuildIfDue
  rw [hdue]
  cases p.host.link.rebuildDue with
  | false => rfl
  | true =>
      cases applying with
      | true => rfl
      | false =>
          simp only [if_true, Bool.false_eq_true, if_false]
          exact congrArg (fun run : Except PartitionError Nat × Partition =>
            { run.2 with lastRebuild := some run.1 }) hrecover

theorem appendBatch_withLimit (applying : Bool) (drafts : List Draft) :
    (p.withLimit limit).appendBatch applying drafts =
      ((p.appendBatch applying drafts).1, (p.appendBatch applying drafts).2.withLimit limit) := by
  have hlink : ((p.rebuildIfDue applying).withLimit limit).host.link =
      (p.rebuildIfDue applying).host.link := rfl
  unfold appendBatch
  rw [rebuildIfDue_withLimit]
  dsimp only
  rw [hlink]
  rcases (p.rebuildIfDue applying).host.link.appendBatch drafts with ⟨e | positions, link⟩ <;> rfl

/-- Another limit, as a change to the settings. -/
def otherLimit (limit : Nat) : Recast :=
  { config := fun config => { config with maxCommandsPerRound := limit } }

theorem checkDueTimers_withLimit :
    (p.withLimit limit).checkDueTimers =
      (p.checkDueTimers.1, p.checkDueTimers.2.withLimit limit) :=
  checkDueTimers_on (otherLimit limit) (p.withTriggers.appendBatch_withLimit limit false _)

theorem sweepExpiredLeases_withLimit :
    (p.withLimit limit).sweepExpiredLeases =
      (p.sweepExpiredLeases.1, p.sweepExpiredLeases.2.withLimit limit) :=
  sweepExpiredLeases_on (otherLimit limit) (p.withTimeouts.appendBatch_withLimit limit false _)

theorem prepareRound_withLimit (max : Nat) :
    (p.withLimit limit).prepareRound max =
      ((p.prepareRound max).1, (p.prepareRound max).2.withLimit limit) := by
  unfold prepareRound
  rw [recoverIfNeeded_withLimit]
  rcases p.recoverIfNeeded with ⟨e | _, p₁⟩
  · rfl
  · dsimp only
    rw [checkDueTimers_withLimit]
    rcases p₁.checkDueTimers with ⟨e | _, p₂⟩
    · rfl
    · dsimp only
      rw [sweepExpiredLeases_withLimit]
      rcases p₂.sweepExpiredLeases with ⟨e | _, p₃⟩
      · rfl
      · have hread : (p₃.withLimit limit).host.link.readCommands
            (p₃.withLimit limit).cursor.lastProcessed max =
              p₃.host.link.readCommands p₃.cursor.lastProcessed max := rfl
        unfold readUnprocessed
        dsimp only
        rw [hread]
        rcases p₃.host.link.readCommands p₃.cursor.lastProcessed max with ⟨e | _, link⟩ <;> rfl

theorem applyCommand_withLimit (command : Record) :
    (p.withLimit limit).applyCommand command =
      ((p.applyCommand command).1, (p.applyCommand command).2.withLimit limit) := by
  have hdeliver : ∀ (q : Partition) (response : Option Response),
      (q.withLimit limit).deliver response = (q.deliver response).withLimit limit := by
    intro q response
    cases response <;> rfl
  have happend := appendBatch_withLimit { p with processor := (p.processor.apply command).2 } limit
    true (p.processor.apply command).1.followUps
  exact applyCommand_on (otherLimit limit) rfl rfl rfl rfl happend fun q => hdeliver q _

theorem applyCommands_withLimit (commands : List Record) :
    applyCommands commands (p.withLimit limit) =
      ((applyCommands commands p).1, (applyCommands commands p).2.withLimit limit) := by
  have hall := applyCommands_on (otherLimit limit) (fun _ => rfl) (fun _ => rfl)
    (fun p command (_ : True) => ⟨applyCommand_withLimit p limit command, trivial⟩) commands p
    trivial
  rwa [List.map_id'] at hall

theorem processCommands_withLimit (commands : List Record) :
    (p.withLimit limit).processCommands commands =
      ((p.processCommands commands).1, (p.processCommands commands).2.withLimit limit) := by
  unfold processCommands
  rw [recoverIfNeeded_withLimit]
  rcases p.recoverIfNeeded with ⟨e | _, q⟩
  · rfl
  · exact applyCommands_withLimit q limit commands

/-! ### What is pulled is pulled from a state that is not ahead of the log -/

variable {p} {q : Partition}

/-- A rebuild leaves the state ahead of the log only if it was so before, and the rebuild failed. -/
theorem needsRecovery_recover
    (h : p.cursor.needsRecovery = false ∨ ∃ count, p.recover.1 = .ok count) :
    p.recover.2.cursor.needsRecovery = false := by
  unfold recover at h ⊢
  rcases hread : p.host.link.readAll with ⟨e | records, link⟩
  · rw [hread] at h
    exact h.resolve_right fun ⟨_, hok⟩ => by cases hok
  · rw [hread] at h
    dsimp only at h ⊢
    rcases hreplay : Recovery.replay records (Recovery.appliedCommands records)
      (p.withLink link).processor.reset with ⟨e | count, processor⟩
    · rw [hreplay] at h
      exact h.resolve_right fun ⟨_, hok⟩ => by cases hok
    · rfl

theorem needsRecovery_recoverIfNeeded (hok : p.recoverIfNeeded = (.ok (), q)) :
    q.cursor.needsRecovery = false := by
  unfold recoverIfNeeded at hok
  cases hneeded : p.cursor.needsRecovery with
  | false =>
      rw [hneeded, if_neg Bool.false_ne_true] at hok
      cases hok
      exact hneeded
  | true =>
      rw [hneeded, if_pos rfl] at hok
      rcases hrecover : p.recover with ⟨e | count, p₁⟩
      · rw [hrecover] at hok
        cases hok
      · have hcurrent := needsRecovery_recover (p := p) (.inr ⟨count, by rw [hrecover]⟩)
        rw [hrecover] at hok hcurrent
        cases hok
        exact hcurrent

theorem needsRecovery_appendBatch (hcurrent : p.cursor.needsRecovery = false) (applying : Bool)
    (drafts : List Draft) : (p.appendBatch applying drafts).2.cursor.needsRecovery = false := by
  have hrebuild : (p.rebuildIfDue applying).cursor.needsRecovery = false := by
    unfold rebuildIfDue
    cases p.host.link.rebuildDue with
    | false => exact hcurrent
    | true =>
        cases applying with
        | true => exact hcurrent
        | false => exact needsRecovery_recover (p := p.withLink _) (.inl hcurrent)
  unfold appendBatch
  dsimp only
  rcases (p.rebuildIfDue applying).host.link.appendBatch drafts with ⟨e | positions, link⟩ <;>
    exact hrebuild

theorem needsRecovery_checkDueTimers (hcurrent : p.cursor.needsRecovery = false) :
    p.checkDueTimers.2.cursor.needsRecovery = false := by
  have happend := needsRecovery_appendBatch (p := p.withTriggers) hcurrent false
    (p.untriggered.map (triggerCommand p.now))
  rw [checkDueTimers_eq]
  by_cases hnone : p.untriggered.isEmpty
  · rw [if_pos hnone]
    exact hcurrent
  · rw [if_neg hnone]
    rcases hresult : p.withTriggers.appendBatch false (p.untriggered.map (triggerCommand p.now))
      with ⟨e | _, p₁⟩ <;> (rw [hresult] at happend; exact happend)

theorem needsRecovery_sweepExpiredLeases (hcurrent : p.cursor.needsRecovery = false) :
    p.sweepExpiredLeases.2.cursor.needsRecovery = false := by
  have happend := needsRecovery_appendBatch (p := p.withTimeouts) hcurrent false
    (p.swept.map Prod.snd)
  rw [sweepExpiredLeases_eq]
  by_cases hnone : p.swept.isEmpty
  · rw [if_pos hnone]
    exact hcurrent
  · rw [if_neg hnone]
    rcases hresult : p.withTimeouts.appendBatch false (p.swept.map Prod.snd)
      with ⟨e | _, p₁⟩ <;> (rw [hresult] at happend; exact happend)

/-- **A batch is pulled from a state that is not ahead of the log.** -/
theorem needsRecovery_prepareRound {max : Nat} {commands : List Record}
    (hok : p.prepareRound max = (.ok commands, q)) : q.cursor.needsRecovery = false := by
  unfold prepareRound at hok
  rcases hrecover : p.recoverIfNeeded with ⟨e | _, p₁⟩
  · rw [hrecover] at hok
    cases hok
  · have h₁ := needsRecovery_recoverIfNeeded hrecover
    have h₂ := needsRecovery_checkDueTimers h₁
    rw [hrecover] at hok
    dsimp only at hok
    rcases htimers : p₁.checkDueTimers with ⟨e | _, p₂⟩
    · rw [htimers] at hok
      cases hok
    · rw [htimers] at hok h₂
      have h₃ := needsRecovery_sweepExpiredLeases h₂
      dsimp only at hok
      rcases hleases : p₂.sweepExpiredLeases with ⟨e | _, p₃⟩
      · rw [hleases] at hok
        cases hok
      · rw [hleases] at hok h₃
        unfold readUnprocessed at hok
        dsimp only at hok
        rcases hread : p₃.host.link.readCommands p₃.cursor.lastProcessed max with ⟨e | _, link⟩
        · rw [hread] at hok
          cases hok
        · rw [hread] at hok
          cases hok
          exact h₃

/-! ### One round -/

variable (p) in
/-- **A scheduled round leaves the partition as a round of that size does, and says so.** -/
theorem round_workSource (size : Nat) :
    (p.withLimit size).processRound.2 = (workSource.round size p).2.withLimit size ∧
      (workSource.round size p).1.Agrees (p.withLimit size).processRound.1 := by
  have hlimit : (p.withLimit size).config.maxCommandsPerRound = size := rfl
  unfold processRound WorkSource.round workSource
  rw [hlimit, prepareRound_withLimit]
  dsimp only
  rcases hprepare : p.prepareRound size with ⟨e | commands, q⟩
  · exact ⟨rfl, RoundOutcome.agrees_failed (.inl rfl)⟩
  · dsimp only [Except.mapError]
    rw [processCommands_withLimit]
    cases commands with
    | nil =>
        rw [processCommands_of_current (needsRecovery_prepareRound hprepare)]
        exact ⟨rfl, RoundOutcome.agrees_idle⟩
    | cons command rest =>
        dsimp only
        rcases q.processCommands (command :: rest) with ⟨e | _ | count, r⟩
        · exact ⟨rfl, RoundOutcome.agrees_failed (.inr rfl)⟩
        · exact ⟨rfl, RoundOutcome.agrees_idle⟩
        · exact ⟨rfl, RoundOutcome.agrees_processed count⟩

/-! ### Any number of rounds -/

variable (limit : Nat)

theorem run_withLimit (arrival : Arrival) (p : Partition) :
    arrival.run (p.withLimit limit) = (arrival.run p).withLimit limit := by
  cases arrival with
  | submit request correlation =>
      have hregister : (p.withLimit limit).host.router.register correlation =
          p.host.router.register correlation := rfl
      show ((p.withLimit limit).submit request correlation).2 =
        (p.submit request correlation).2.withLimit limit
      unfold submit
      rw [hregister]
      rcases p.host.router.register correlation with e | ⟨ticket, router⟩
      · rfl
      · have hlink : ((p.withLimit limit).withRouter router).host.link =
            (p.withRouter router).host.link := rfl
        have hnow : ((p.withLimit limit).withRouter router).now = (p.withRouter router).now := rfl
        dsimp only
        rw [hlink, hnow]
        rcases (p.withRouter router).host.link.append
          ((request.toDraft.withCorrelation correlation).withTimestamp (p.withRouter router).now)
          with ⟨e | position, link⟩ <;> rfl
  | submitInternal request =>
      have happend : (p.withLimit limit).host.link.append
          (request.toDraft.withTimestamp (p.withLimit limit).now) =
            p.host.link.append (request.toDraft.withTimestamp p.now) := rfl
      show ((p.withLimit limit).submitInternal request).2 =
        (p.submitInternal request).2.withLimit limit
      unfold submitInternal
      rw [happend]
      rcases p.host.link.append (request.toDraft.withTimestamp p.now) with ⟨e | position, link⟩ <;>
        rfl
  | take pending => rfl
  | setClock clock => rfl
  | outage appends => rfl
  | refuseNext count => rfl

theorem arrive_withLimit (arrivals : List Arrival) :
    ∀ p : Partition, arrivals.foldl Arrival.run (p.withLimit limit) =
      (arrivals.foldl Arrival.run p).withLimit limit := by
  induction arrivals with
  | nil => intro p; rfl
  | cons arrival rest ih =>
      intro p
      rw [List.foldl_cons, List.foldl_cons, run_withLimit, ih]

/-- Rounds of a partition, and the arrivals before each of them. -/
def drive : List (List Arrival) → Partition → List (Except PartitionError Nat) × Partition
  | [], p => ([], p)
  | arrivals :: turns, p =>
      let (answer, p) := (arrivals.foldl Arrival.run p).processRound
      let (answers, p) := drive turns p
      (answer :: answers, p)

end Partition

/-- Rounds by hand of a scheduler that drives a partition, and the arrivals before each of them. -/
def Scheduler.drive : List (List Arrival) → Scheduler Partition Record →
    List (Except BatchError RoundOutcome) × Scheduler Partition Record
  | [], s => ([], s)
  | arrivals :: turns, s =>
      let (answer, s) := runRound { s with work := arrivals.foldl Arrival.run s.work }
      let (answers, s) := drive turns s
      (answer :: answers, s)

namespace Partition

/-- One turn of both. -/
theorem turn_agrees {s : Scheduler Partition Record} (hsource : s.source = workSource)
    (hloop : s.loop = .resting) (arrivals : List Arrival) :
    let t : Scheduler Partition Record :=
      { s with work := arrivals.foldl Arrival.run s.work }
    let direct := (arrivals.foldl Arrival.run
      (s.work.withLimit s.config.maxBatchSize)).processRound
    t.runRound = (.ok t.executeRound.1, t.executeRound.2) ∧
      direct.2 = t.executeRound.2.work.withLimit s.config.maxBatchSize ∧
      t.executeRound.1.Agrees direct.1 := by
  intro t direct
  have hround := round_workSource (arrivals.foldl Arrival.run s.work) s.config.maxBatchSize
  have hdirect : direct = ((arrivals.foldl Arrival.run s.work).withLimit
      s.config.maxBatchSize).processRound := by
    show (arrivals.foldl Arrival.run (s.work.withLimit s.config.maxBatchSize)).processRound = _
    rw [arrive_withLimit]
  have hexecute : t.executeRound = ((workSource.round s.config.maxBatchSize
      (arrivals.foldl Arrival.run s.work)).1, t.executeRound.2) ∧
      t.executeRound.2.work = (workSource.round s.config.maxBatchSize
        (arrivals.foldl Arrival.run s.work)).2 := by
    rw [← hsource]
    exact ⟨rfl, rfl⟩
  have hrun : t.runRound = (.ok t.executeRound.1, t.executeRound.2) := by
    have hresting : t.loop = .resting := hloop
    unfold Scheduler.runRound
    rw [hresting]
  refine ⟨hrun, ?_, ?_⟩
  · rw [hdirect, hexecute.2]
    exact hround.1
  · rw [hdirect, hexecute.1]
    exact hround.2

/-- **All turns of both**, by induction on the turns. -/
theorem drive_agrees (turns : List (List Arrival)) :
    ∀ s : Scheduler Partition Record, s.source = workSource → s.loop = .resting →
      ∃ outcomes, (s.drive turns).1 = outcomes.map .ok ∧ s.Course outcomes (s.drive turns).2 ∧
        (drive turns (s.work.withLimit s.config.maxBatchSize)).2 =
          (s.drive turns).2.work.withLimit s.config.maxBatchSize ∧
        List.Forall₂ RoundOutcome.Agrees outcomes
          (drive turns (s.work.withLimit s.config.maxBatchSize)).1 := by
  induction turns with
  | nil => intro s _ _; exact ⟨[], rfl, .refl, rfl, .nil⟩
  | cons arrivals turns ih =>
      intro s hsource hloop
      obtain ⟨hrun, hwork, hagrees⟩ := turn_agrees hsource hloop arrivals
      obtain ⟨outcomes, hanswers, hcourse, hend, hall⟩ :=
        ih ((Scheduler.executeRound { s with work := arrivals.foldl Arrival.run s.work }).2)
          hsource hloop
      have harrive : s.Course [] { s with work := arrivals.foldl Arrival.run s.work } :=
        .aside _ s.loop s.now s.signal.stopped .refl
      simp only [Scheduler.drive, drive, hrun]
      rw [hwork]
      refine ⟨_ :: outcomes, ?_, harrive.round.trans hcourse, hend, .cons hagrees hall⟩
      rw [List.map_cons, hanswers]

theorem length_drive (turns : List (List Arrival)) :
    ∀ s : Scheduler Partition Record, (s.drive turns).1.length = turns.length := by
  induction turns with
  | nil => intro s; rfl
  | cons arrivals turns ih => intro s; exact congrArg (· + 1) (ih _)

/--
**A scheduler that drives a partition does what rounds of the partition do.**

Let things arrive, then let a round be run, any number of times: by a scheduler of the partition, or
by the partition itself under the batch size of the scheduler as its limit.  Both leave the same
partition but for that limit, so the same log, state, cursor, requests and responses; each round by
hand is carried out, and its outcome agrees with the answer of the round of the partition.  The
signal counts these rounds, and those of any other course of the scheduler.  Whatever is called, the
scheduler goes through a course, and who waits for a round that settles is told its outcome as the
signal tells it.
-/
theorem scheduler_does_rounds (p : Partition) (config : BatchConfig)
    (turns : List (List Arrival)) :
    let driven := (p.scheduler config).drive turns
    let direct := drive turns (p.withLimit config.maxBatchSize)
    driven.2.work.withLimit config.maxBatchSize = direct.2 ∧
    (∃ outcomes, driven.1 = outcomes.map .ok ∧
      List.Forall₂ RoundOutcome.Agrees outcomes direct.1 ∧
      outcomes.length = turns.length ∧ driven.2.signal.Tells outcomes) ∧
    (∀ outcomes s, (p.scheduler config).Course outcomes s → s.signal.Tells outcomes) ∧
    ∀ calls : List (Scheduler.Call Partition),
      let s := calls.foldl Scheduler.call (p.scheduler config)
      (∃ outcomes, (p.scheduler config).Course outcomes s) ∧
      ∀ rounds outcome, (s.waitIdle rounds).1 = .ok (some outcome) →
        (s.waitIdle rounds).2.signal.lastSettled = some outcome := by
  intro driven direct
  have htold : ∀ outcomes s, (p.scheduler config).Course outcomes s → s.signal.Tells outcomes :=
    fun _ _ hcourse => hcourse.tells RoundSignal.tells_nil
  obtain ⟨outcomes, hanswers, hcourse, hend, hall⟩ :=
    drive_agrees turns (p.scheduler config) rfl rfl
  refine ⟨hend.symm, ⟨outcomes, hanswers, hall, ?_, htold _ _ hcourse⟩, htold, fun calls => ?_⟩
  · rw [← length_drive turns (p.scheduler config), hanswers, List.length_map]
  · obtain ⟨called, hcalled⟩ := Scheduler.course_calls calls (p.scheduler config)
    exact ⟨⟨called, hcalled⟩,
      fun _ _ hsettles => hcalled.lastSettled_waitIdle RoundSignal.tells_nil hsettles⟩

/-- The follow-ups of a command are refused once; the next round rebuilds the state and goes on. -/
example :
    let p := (unbuilt {} .unavailable {}).rebuilt (LogLink.afterReads {} 1)
    let request : CommandRequest := ⟨none, .job .create, .job { jobType := "task", retries := 1 }⟩
    (p.scheduler {}).drive [[.submitInternal request, .outage (.window 0 1)], [], []] |>.1 =
      [.ok (.failed "failed to process batch: record log unavailable: append refused"),
        .ok (.processed 1), .ok .idle] := by
  decide +kernel

end Partition

end Workflow
