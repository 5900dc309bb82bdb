/-
What rounds can change, whatever the log holds and whoever handles the commands.

Nothing is asked of the partition here: its log may be damaged, the storage may ask for a rebuild,
and the handlers may be any.  A step of a round then does little that others have to know of
(`Change`).  The clock stays, and the engine stays, or is led from the empty state again, or is
applied to one more command.  Rounds and rebuilds are sequences of such steps.
-/
import Workflow.Proofs.Partition.Rebuild

namespace Workflow

namespace Partition

variable {p q r : Partition}

/-- What a step does to the engine. -/
inductive EngineChange (engine after : Processor) : Prop
  /-- It stays. -/
  | kept (hsame : after = engine)
  /-- It is applied to commands from the empty state on. -/
  | replayed (commands : List Record) (hreplayed : after = engine.reset.after commands)
  /-- It is applied to one command. -/
  | applied (command : Record) (happlied : after = (engine.apply command).2)

/-- A step of a partition that nothing from outside has a part in. -/
structure Change (p q : Partition) : Prop where
  clock : q.host.clock = p.host.clock
  engine : EngineChange p.processor q.processor

/-- Any number of such steps. -/
abbrev Changes : Partition → Partition → Prop := Relation.ReflTransGen Change

/-- A step that leaves the engine alone. -/
theorem Change.kept (hclock : q.host.clock = p.host.clock) (hsame : q.processor = p.processor) :
    Change p q := ⟨hclock, .kept hsame⟩

theorem Changes.clock (h : Changes p q) : q.host.clock = p.host.clock := by
  induction h with
  | refl => rfl
  | tail _ hstep ih => exact hstep.clock.trans ih

theorem Changes.now (h : Changes p q) : q.now = p.now := congrArg Clock.now h.clock

/-- A replay applies commands from where it begins. -/
theorem replay_after (records commands : List Record) (engine : Processor) :
    ∃ applied, (Recovery.replay records commands engine).2 = engine.after applied := by
  rcases Recovery.replay_cases records commands engine with
    ⟨-, heq⟩ | ⟨before, command, rest, -, -, -, heq⟩ <;> rw [heq]
  · exact ⟨commands, rfl⟩
  · exact ⟨before ++ [command], rfl⟩

theorem recover_change (p : Partition) : Change p p.recover.2 := by
  unfold recover
  rcases p.host.link.readAll with ⟨e | records, link⟩
  · exact .kept rfl rfl
  · obtain ⟨applied, hreplayed⟩ :=
      replay_after records (Recovery.appliedCommands records) p.processor.reset
    dsimp only
    rcases hreplay : Recovery.replay records (Recovery.appliedCommands records)
      (p.withLink link).processor.reset with ⟨e | count, processor⟩
    all_goals exact ⟨rfl, .replayed applied ((congrArg Prod.snd hreplay).symm.trans hreplayed)⟩

theorem recoverIfNeeded_changes (p : Partition) : Changes p p.recoverIfNeeded.2 := by
  unfold recoverIfNeeded
  by_cases hneeds : p.cursor.needsRecovery
  · rw [if_pos hneeds]
    exact .single p.recover_change
  · rw [if_neg hneeds]

/-- A rebuild that the storage asks for is done, unless a command is applied. -/
theorem rebuildIfDue_changes (p : Partition) (applying : Bool) :
    Changes p (p.rebuildIfDue applying) := by
  unfold rebuildIfDue
  by_cases hdue : p.host.link.rebuildDue
  · rw [if_pos hdue]
    cases applying with
    | true => exact .single (.kept rfl rfl)
    | false =>
        have hasked : Change p (p.withLink { p.host.link with rebuildDue := false }) :=
          .kept rfl rfl
        exact ((Relation.ReflTransGen.single hasked).tail (recover_change _)).tail (.kept rfl rfl)
  · rw [if_neg hdue]

theorem appendBatch_changes (p : Partition) (applying : Bool) (drafts : List Draft) :
    Changes p (p.appendBatch applying drafts).2 := by
  refine (p.rebuildIfDue_changes applying).tail ?_
  unfold appendBatch
  dsimp only
  rcases (p.rebuildIfDue applying).host.link.appendBatch drafts with ⟨e | positions, link⟩
  all_goals exact .kept rfl rfl

/-- While a command is applied no rebuild is done. -/
theorem appendBatch_applying (p : Partition) (drafts : List Draft) :
    Change p (p.appendBatch true drafts).2 ∧
      (p.appendBatch true drafts).2.processor = p.processor := by
  have hdue : (p.rebuildIfDue true).host.clock = p.host.clock ∧
      (p.rebuildIfDue true).processor = p.processor := by
    unfold rebuildIfDue
    by_cases hdue : p.host.link.rebuildDue
    · rw [if_pos hdue]
      exact ⟨rfl, rfl⟩
    · rw [if_neg hdue]
      exact ⟨rfl, rfl⟩
  unfold appendBatch
  dsimp only
  rcases (p.rebuildIfDue true).host.link.appendBatch drafts with ⟨e | positions, link⟩
  all_goals exact ⟨.kept hdue.1 hdue.2, hdue.2⟩

theorem checkDueTimers_changes (p : Partition) : Changes p p.checkDueTimers.2 := by
  rw [checkDueTimers_eq]
  have hwatched : Changes p p.withTriggers := .single (.kept rfl rfl)
  split
  · exact hwatched
  · have happended := hwatched.trans (p.withTriggers.appendBatch_changes false
      (p.untriggered.map (triggerCommand p.now)))
    split
    · rename_i heq
      rw [heq] at happended
      exact happended.tail (.kept rfl rfl)
    · rename_i heq
      rw [heq] at happended
      exact happended

theorem sweepExpiredLeases_changes (p : Partition) : Changes p p.sweepExpiredLeases.2 := by
  rw [sweepExpiredLeases_eq]
  have hwatched : Changes p p.withTimeouts := .single (.kept rfl rfl)
  split
  · exact hwatched
  · have happended := hwatched.trans (p.withTimeouts.appendBatch_changes false
      (p.swept.map Prod.snd))
    split
    · rename_i heq
      rw [heq] at happended
      exact happended.tail (.kept rfl rfl)
    · rename_i heq
      rw [heq] at happended
      exact happended

theorem readUnprocessed_change (p : Partition) (max : Nat) :
    Change p (p.readUnprocessed max).2 := by
  unfold readUnprocessed
  rcases p.host.link.readCommands p.cursor.lastProcessed max with ⟨e | commands, link⟩
  all_goals exact .kept rfl rfl

theorem prepareRound_changes (p : Partition) (max : Nat) : Changes p (p.prepareRound max).2 := by
  have hrecovered := p.recoverIfNeeded_changes
  unfold prepareRound
  rcases hrecover : p.recoverIfNeeded with ⟨e | ⟨⟩, q₁⟩ <;> rw [hrecover] at hrecovered
  · exact hrecovered
  have hchecked := hrecovered.trans q₁.checkDueTimers_changes
  dsimp only
  rcases hcheck : q₁.checkDueTimers with ⟨e | ⟨⟩, q₂⟩ <;> rw [hcheck] at hchecked
  · exact hchecked
  have hswept := hchecked.trans q₂.sweepExpiredLeases_changes
  dsimp only
  rcases hsweep : q₂.sweepExpiredLeases with ⟨e | ⟨⟩, q₃⟩ <;> rw [hsweep] at hswept
  · exact hswept
  · exact hswept.tail (q₃.readUnprocessed_change max)

/-! ### Applying -/

theorem applyCommand_change (p : Partition) (command : Record) :
    Change p (p.applyCommand command).2 := by
  let r : Partition := { p with processor := (p.processor.apply command).2 }
  -- Whatever becomes of the follow-ups, the engine is the one that the command has led to.
  have happlied : ∀ q : Partition, q.host.clock = r.host.clock → q.processor = r.processor →
      Change p q := fun q hclock hsame => ⟨hclock, .applied command hsame⟩
  obtain ⟨happend, hsame⟩ := r.appendBatch_applying (p.processor.apply command).1.followUps
  have hdelivered : ∀ (q : Partition) (response : Option Response),
      (q.deliver response).host.clock = q.host.clock ∧
        (q.deliver response).processor = q.processor := by
    intro q response
    cases response <;> exact ⟨rfl, rfl⟩
  unfold applyCommand
  dsimp only
  by_cases hnone : (p.processor.apply command).1.followUps.isEmpty
  · rw [if_pos hnone]
    obtain ⟨hclock, hprocessor⟩ := hdelivered
      { r with cursor := { r.cursor with lastProcessed := some command.position } }
      (p.processor.apply command).1.response
    exact happlied _ hclock hprocessor
  · rw [if_neg hnone]
    rcases hbatch : r.appendBatch true (p.processor.apply command).1.followUps
      with ⟨e | ⟨⟩, q⟩
    · rw [hbatch] at happend hsame
      exact happlied _ happend.clock hsame
    · rw [hbatch] at happend hsame
      obtain ⟨hclock, hprocessor⟩ := hdelivered
        { q with cursor := { q.cursor with lastProcessed := some command.position } }
        (p.processor.apply command).1.response
      exact happlied _ (hclock.trans happend.clock) (hprocessor.trans hsame)

theorem applyCommands_changes (commands : List Record) :
    ∀ p : Partition, Changes p (applyCommands commands p).2 := by
  induction commands with
  | nil => intro p; exact .refl
  | cons command rest ih =>
      intro p
      unfold applyCommands
      split
      · exact ih p
      · have hfirst := p.applyCommand_change command
        rcases happly : p.applyCommand command with ⟨e | ⟨⟩, q⟩ <;> rw [happly] at hfirst
        · exact .single hfirst
        · exact .head hfirst (ih q)

theorem processCommands_changes (p : Partition) (commands : List Record) :
    Changes p (p.processCommands commands).2 := by
  have hrecovered := p.recoverIfNeeded_changes
  unfold processCommands
  rcases hrecover : p.recoverIfNeeded with ⟨e | ⟨⟩, q⟩ <;> rw [hrecover] at hrecovered
  · exact hrecovered
  · exact hrecovered.trans (applyCommands_changes commands q)

theorem processRound_changes (p : Partition) : Changes p p.processRound.2 := by
  have hprepared := p.prepareRound_changes p.config.maxCommandsPerRound
  unfold processRound
  rcases hprepare : p.prepareRound p.config.maxCommandsPerRound with ⟨e | commands, q⟩ <;>
    rw [hprepare] at hprepared
  · exact hprepared
  · exact hprepared.trans (q.processCommands_changes commands)

/-- **Rounds are sequences of changes.** -/
theorem processUntilIdle_changes (rounds : Nat) :
    ∀ p : Partition, Changes p (processUntilIdle rounds p).2 := by
  induction rounds with
  | zero => intro p; exact .refl
  | succ rounds ih =>
      intro p
      have hround := p.processRound_changes
      unfold processUntilIdle
      rcases hprocess : p.processRound with ⟨e | count, q⟩ <;> rw [hprocess] at hround
      · exact hround
      · cases count with
        | zero => exact hround
        | succ count => exact hround.trans (ih q)

/-- Opening a partition is a rebuild, from the engine without entities. -/
theorem changes_of_open {host : Host} {registry : Registry} {evaluator : Evaluator}
    {config : PartitionConfig} (hopen : Partition.open host registry evaluator config = .ok p) :
    Change { config, host, processor := .start config.partitionId registry evaluator } p := by
  have hchange := recover_change
    { config, host, processor := .start config.partitionId registry evaluator }
  unfold Partition.open at hopen
  split at hopen
  · cases hopen
  · split at hopen
    · cases hopen
    · rename_i heq
      rw [heq] at hchange
      cases hopen
      exact hchange

/-- A partition is opened with its settings. -/
theorem config_of_open {host : Host} {registry : Registry} {evaluator : Evaluator}
    {config : PartitionConfig} (hopen : Partition.open host registry evaluator config = .ok p) :
    p.config = config := by
  have hkept := recover_kept
    { config, host, processor := .start config.partitionId registry evaluator }
  unfold Partition.open at hopen
  split at hopen
  · cases hopen
  · split at hopen
    · cases hopen
    · rename_i heq
      rw [heq] at hkept
      cases hopen
      exact hkept.2.1

/-- What an engine keeps when it forgets its entities and when it is applied to commands is kept by
changes. -/
theorem Changes.engine_induction {invariant : Processor → Prop}
    (hreset : ∀ engine, invariant engine → invariant engine.reset)
    (happly : ∀ engine command, invariant engine → invariant (engine.apply command).2)
    (h : Changes p q) (hp : invariant p.processor) : invariant q.processor := by
  have hafter : ∀ (commands : List Record) (engine : Processor), invariant engine →
      invariant (engine.after commands) := by
    intro commands
    induction commands with
    | nil => intro engine hengine; exact hengine
    | cons command rest ih => intro engine hengine; exact ih _ (happly engine command hengine)
  induction h with
  | refl => exact hp
  | @tail q r _ hchange ih =>
      cases hchange.engine with
      | kept hkept =>
          rw [hkept]
          exact ih
      | replayed commands hreplayed =>
          rw [hreplayed]
          exact hafter commands _ (hreset _ ih)
      | applied command happlied =>
          rw [happlied]
          exact happly _ command ih

end Partition

end Workflow
