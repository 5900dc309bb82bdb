/-
The log and the engine go together.

Beside its state a partition has the engine that the applied commands lead to, which is the state
unless that is ahead of the log.  The log and this engine change in two ways only: commands come to
the log, and then the engine stays, or the next command is applied, and then its follow-ups come to
the log (`Move.told`).  A refused append changes neither, and a rebuild finds both as they are.

So what every way of accepting a command keeps between the log and the engine holds after any run
(`Sourced.log_induction`).  It may be used there that the command is in the log, that it is the only
record at its position, and that nothing in the log follows from it or from a later record yet.
-/
import Workflow.Proofs.Partition.Run
import Workflow.Proofs.Timer.Schedule

namespace Workflow

namespace Partition

variable {evaluator : Evaluator} {p q : Partition}

theorem Sourced.engine_eq (h : Sourced evaluator p) (hcurrent : p.cursor.needsRecovery = false) :
    p.processor = p.engine evaluator := h.current hcurrent

/-- **Commands come to the log, or the next one is applied.** -/
theorem Move.told (h : Sourced evaluator p) (hid : p.config.partitionId ≤ maxPartitionId)
    (hmove : Move evaluator p q) :
    (q.engine evaluator = p.engine evaluator ∧ ∃ drafts,
        q.records = p.records ++ Log.numbered (p.host.link.log.size + 1) drafts ∧
        ∀ draft ∈ drafts, draft.Arrives p.now) ∨
      ∃ command ∈ p.unapplied, q.engine evaluator = ((p.engine evaluator).apply command).2 ∧
        q.records = p.records ++ Log.numbered (p.host.link.log.size + 1)
          ((p.engine evaluator).apply command).1.followUps := by
  have hengine : q.config.partitionId = p.config.partitionId → q.applied = p.applied →
      q.engine evaluator = p.engine evaluator := by
    intro hconfig happlied
    unfold engine initialEngine
    rw [happlied, hconfig]
  have hnothing : q.records = p.records → ∃ drafts,
      q.records = p.records ++ Log.numbered (p.host.link.log.size + 1) drafts ∧
        ∀ draft ∈ drafts, draft.Arrives p.now :=
    fun hlog => ⟨[], by rw [hlog]; exact (List.append_nil _).symm,
      fun draft hd => absurd hd List.not_mem_nil⟩
  cases hmove.effect h hid with
  | arrived drafts hconfig hprocessor hcursor hreads hcalm hlog harrives =>
      exact .inl ⟨hengine (congrArg PartitionConfig.partitionId hconfig)
        (applied_extend h.cursor_le hcursor hlog), drafts, hlog, harrives⟩
  | applied command rest link hcurrent hnext hbeside hend hlog =>
      obtain ⟨happlied, -⟩ := h.applied_advanced hnext hlog
      refine .inr ⟨command, hnext ▸ List.mem_cons_self, ?_, ?_⟩
      · unfold engine initialEngine
        rw [hend, happlied, advanced_config, Processor.after_append]
        rfl
      · rw [← h.engine_eq hcurrent, hend]
        exact (p.advanced_records link command).trans hlog
  | spoiled command link hbeside hend hlog =>
      have hrecords : q.records = p.records := by
        rw [hend]
        exact hlog
      refine .inl ⟨hengine (by rw [hend]; rfl) ?_, hnothing hrecords⟩
      have hprocessed : ∀ position, q.isProcessed position = p.isProcessed position := by
        intro position
        rw [hend]
        rfl
      unfold applied
      rw [hrecords]
      simp only [hprocessed]
  | rebuilt hsourced hid hlog hcurrent hengine =>
      exact .inl ⟨(hsourced.engine_eq hcurrent).symm.trans hengine, hnothing hlog⟩

/-! ### The counter of keys -/

/-- The engine that the applied commands lead to never goes back. -/
theorem Move.grows (h : Sourced evaluator p) (hid : p.config.partitionId ≤ maxPartitionId)
    (hmove : Move evaluator p q) :
    EngineState.Grows (p.engine evaluator).state (q.engine evaluator).state := by
  rcases Move.told h hid hmove with ⟨heq, -⟩ | ⟨command, -, heq, -⟩
  · rw [heq]
    exact .refl _
  · rw [heq]
    exact Processor.grows_apply (Processor.after_registry _ _) command

theorem Moves.grows (h : Sourced evaluator p) (hid : p.config.partitionId ≤ maxPartitionId)
    (hmoves : Moves evaluator p q) :
    EngineState.Grows (p.engine evaluator).state (q.engine evaluator).state :=
  h.induct (fun r => EngineState.Grows (p.engine evaluator).state (r.engine evaluator).state) id
    (fun hmid hidMid hmove hold => hold.trans (hmove.grows hmid hidMid)) hid hmoves (.refl _)

/-- The partition has handed out fewer keys than there are. -/
def KeysFit (evaluator : Evaluator) (p : Partition) : Prop :=
  (p.engine evaluator).state.keyCounter < 2 ^ keyCounterBits

theorem KeysFit.earlier (hq : KeysFit evaluator q) (h : Sourced evaluator p)
    (hid : p.config.partitionId ≤ maxPartitionId) (hmoves : Moves evaluator p q) :
    KeysFit evaluator p :=
  Nat.lt_of_le_of_lt (hmoves.grows h hid).keyCounter hq

/-! ### Induction over the log -/

/-- A command that is to be applied, as the log shows it. -/
structure NextIn (records : List Record) (command : Record) : Prop where
  mem : command ∈ records
  kind : command.isCommand = true
  /-- No other record is at its position. -/
  only : ∀ record ∈ records, record.position = command.position → record = command
  /-- Nothing follows from it or from a later one yet. -/
  last : ∀ record ∈ records, ∀ source, record.sourcePosition = some source →
    source < command.position

/-- The records that follow from a command that is accepted with these events. -/
def follow (position : Nat) (command : Record) (events : List Event) : List Record :=
  Log.numbered position (events.map fun event => (event.told command).2)

end Partition

end Workflow
