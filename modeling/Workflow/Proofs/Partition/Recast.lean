/-
What a partition does on another host.

Some changes to the settings and the host of a partition do not show in what it does: other outages
of reads, another limit on rounds, a log whose records name no request.  Such a change is a
`Recast`.  How appends go with it is particular to each; that the checkers and the applying of
commands go with it then follows for all of them, since they touch the host by appends and
deliveries alone.
-/
import Workflow.Proofs.Partition.Operations

namespace Workflow

/-- A change to the settings, the connection and the requests of a partition. -/
structure Recast where
  /-- The settings. -/
  config : PartitionConfig → PartitionConfig := id
  /-- The connection to the log. -/
  link : LogLink → LogLink := id
  /-- The requests and their responses. -/
  router : ResponseRouter → ResponseRouter := id

namespace Recast

/-- The partition after the change. -/
def on (recast : Recast) (p : Partition) : Partition :=
  { p with
    config := recast.config p.config
    host := { p.host with link := recast.link p.host.link, router := recast.router p.host.router } }

/-- An answer together with the partition after the change. -/
def onResult {α : Type} (recast : Recast) (result : α × Partition) : α × Partition :=
  (result.1, recast.on result.2)

end Recast

namespace Partition

variable (recast : Recast) {p : Partition}

/-- The check of timers goes with a change if the append of its commands does. -/
theorem checkDueTimers_on
    (happend : (recast.on p.withTriggers).appendBatch false
        (p.untriggered.map (triggerCommand p.now)) =
      recast.onResult (p.withTriggers.appendBatch false
        (p.untriggered.map (triggerCommand p.now)))) :
    (recast.on p).checkDueTimers = recast.onResult p.checkDueTimers := by
  have happend' : (recast.on p).withTriggers.appendBatch false
      ((recast.on p).untriggered.map (triggerCommand (recast.on p).now)) = _ := happend
  have huntriggered : (recast.on p).untriggered = p.untriggered := rfl
  rw [checkDueTimers_eq, checkDueTimers_eq, happend', huntriggered]
  by_cases hnone : p.untriggered.isEmpty
  · rw [if_pos hnone, if_pos hnone]
    rfl
  · rw [if_neg hnone, if_neg hnone]
    rcases p.withTriggers.appendBatch false (p.untriggered.map (triggerCommand p.now)) with
      ⟨e | _, q⟩ <;> rfl

/-- So does the check of leases. -/
theorem sweepExpiredLeases_on
    (happend : (recast.on p.withTimeouts).appendBatch false (p.swept.map Prod.snd) =
      recast.onResult (p.withTimeouts.appendBatch false (p.swept.map Prod.snd))) :
    (recast.on p).sweepExpiredLeases = recast.onResult p.sweepExpiredLeases := by
  have happend' : (recast.on p).withTimeouts.appendBatch false
      ((recast.on p).swept.map Prod.snd) = _ := happend
  have hswept : (recast.on p).swept = p.swept := rfl
  rw [sweepExpiredLeases_eq, sweepExpiredLeases_eq, happend', hswept]
  by_cases hnone : p.swept.isEmpty
  · rw [if_pos hnone, if_pos hnone]
    rfl
  · rw [if_neg hnone, if_neg hnone]
    rcases p.withTimeouts.appendBatch false (p.swept.map Prod.snd) with ⟨e | _, q⟩ <;> rfl

/-- A command is applied after the change as another one before it, if both have the same effect on
the engine and the append of what they leave behind and the delivery of the response go with the
change. -/
theorem applyCommand_on {command command' : Record} {outcome outcome' : Outcome}
    {processor : Processor} (happly : p.processor.apply command = (outcome, processor))
    (happly' : p.processor.apply command' = (outcome', processor))
    (hposition : command'.position = command.position)
    (hempty : outcome'.followUps.isEmpty = outcome.followUps.isEmpty)
    (happend : (recast.on { p with processor }).appendBatch true outcome'.followUps =
      recast.onResult (appendBatch { p with processor } true outcome.followUps))
    (hdeliver : ∀ q : Partition,
      (recast.on q).deliver outcome'.response = recast.on (q.deliver outcome.response)) :
    (recast.on p).applyCommand command' = recast.onResult (p.applyCommand command) := by
  have happly₁ : (recast.on p).processor.apply command' = _ := happly'
  have happend₁ : appendBatch { recast.on p with processor } true outcome'.followUps = _ := happend
  unfold applyCommand
  rw [happly, happly₁]
  dsimp only
  rw [hempty, hposition]
  cases outcome.followUps.isEmpty with
  | true =>
      exact Prod.ext rfl (hdeliver
        { p with processor, cursor := { p.cursor with lastProcessed := some command.position } })
  | false =>
      simp only [Bool.false_eq_true, if_false]
      rw [happend₁]
      rcases appendBatch { p with processor } true outcome.followUps with ⟨e | _, q⟩
      · rfl
      · exact Prod.ext rfl (hdeliver
          { q with cursor := { q.cursor with lastProcessed := some command.position } })

/-- Applying a command keeps the handlers, and does not make the storage ask for a rebuild. -/
theorem applyCommand_kept (hcalm : p.host.link.rebuildDue = false) (command : Record) :
    (p.applyCommand command).2.host.link.rebuildDue = false ∧
      (p.applyCommand command).2.processor.registry = p.processor.registry := by
  obtain ⟨link, hbeside, ⟨e, heq, -⟩ | ⟨heq, -⟩⟩ := applyCommand_cases hcalm command
  · rw [heq]
    exact ⟨hbeside.rebuildDue.trans hcalm, rfl⟩
  · rw [heq, advanced_eq]
    exact ⟨hbeside.rebuildDue.trans hcalm, rfl⟩

/-- Commands are applied one after the other after the change as others before it, if each of them
is. -/
theorem applyCommands_on {holds : Partition → Prop} {other : Record → Record}
    (hposition : ∀ command, (other command).position = command.position)
    (hcommand : ∀ command, (other command).isCommand = command.isCommand)
    (hstep : ∀ (p : Partition) (command : Record), holds p →
      (recast.on p).applyCommand (other command) = recast.onResult (p.applyCommand command) ∧
        holds (p.applyCommand command).2) (commands : List Record) :
    ∀ p : Partition, holds p →
      applyCommands (commands.map other) (recast.on p) =
        recast.onResult (applyCommands commands p) := by
  induction commands with
  | nil => intro p _; rfl
  | cons command rest ih =>
      intro p hp
      obtain ⟨hone, hnext⟩ := hstep p command hp
      have hprocessed : (recast.on p).isProcessed command.position =
          p.isProcessed command.position := rfl
      simp only [List.map_cons, applyCommands]
      rw [hposition, hcommand, hprocessed, hone]
      by_cases hskip : (!command.isCommand || p.isProcessed command.position) = true
      · rw [if_pos hskip, if_pos hskip]
        exact ih p hp
      · rw [if_neg hskip, if_neg hskip]
        rcases heq : p.applyCommand command with ⟨e | _, q⟩
        · rfl
        · rw [heq] at hnext
          dsimp only [Recast.onResult]
          rw [ih q hnext]
          rfl

end Partition

end Workflow
