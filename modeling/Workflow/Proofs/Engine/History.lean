/-
The history of an engine.

`history` lists the records that follow a run of commands, each beside the command that it follows
from.  What has been told about one entity, a job or a timer, is a part of that list.

`history_induction` is how statements about histories are proved.  A relation between the past and
the state holds at the end if a record that is no event leaves it alone, and if it survives each way
of accepting a command, when the events of that way are told.  Keys are new while their counter
fits into its bits; the counter only grows, so it fits all along if it does at the end.
-/
import Workflow.Proofs.Engine.Keys

namespace Workflow

/-- An event that follows a command, beside that command. -/
def Event.told (command : Record) (event : Event) : Record × Draft :=
  (command, Draft.event command (some event.key) event.intent event.value)

/-! ### What the steps of a decision tell -/

namespace Decide

variable {state : EngineState} {timer : Timer} {position : Nat}

/-- Firing a start-event timer tells of an instance. -/
theorem eq_of_mem_fireStart {event : Event} (he : event ∈ (fireStart state timer).2) :
    ∃ created : ProcessInstance, event =
      ⟨created.key, .processInstance .created, .processInstance (created.toPayload .null)⟩ := by
  unfold fireStart at he
  by_cases hstart : timer.isStartEvent
  · rw [if_pos hstart] at he
    dsimp only at he
    cases hdefinition : timer.definitionKey.bind state.processes.definition? with
    | none =>
        rw [hdefinition] at he
        exact absurd he List.not_mem_nil
    | some definition =>
        rw [hdefinition] at he
        exact ⟨_, List.mem_singleton.mp he⟩
  · rw [if_neg hstart] at he
    exact absurd he List.not_mem_nil

/-- Scheduling a successor tells of that timer. -/
theorem eq_of_mem_scheduleSuccessor {event : Event}
    (he : event ∈ (scheduleSuccessor state timer position).2) :
    ∃ next : Timer, event = ⟨state.nextKey.1, .timer .created, .timer next.toPayload⟩ := by
  unfold scheduleSuccessor at he
  by_cases hrepeats : timer.repeats
  · rw [if_pos hrepeats] at he
    dsimp only at he
    cases hsuccessor : timer.successor? state.nextKey.1 position with
    | none =>
        rw [hsuccessor] at he
        exact absurd he List.not_mem_nil
    | some next =>
        rw [hsuccessor] at he
        exact ⟨next, List.mem_singleton.mp he⟩
  · rw [if_neg hrepeats] at he
    exact absurd he List.not_mem_nil

/-- Scheduling the timers of start events tells of them. -/
theorem eq_of_mem_scheduleStarts {event : Event} (definitionKey : Nat)
    (starts : List ResolvedStart) :
    ∀ state, event ∈ (scheduleStarts definitionKey position state starts).2 →
      ∃ timer : Timer, event = ⟨timer.key, .timer .created, .timer timer.toPayload⟩ := by
  induction starts with
  | nil => intro state he; exact absurd he List.not_mem_nil
  | cons start rest ih =>
      intro state he
      rcases List.mem_cons.mp he with heq | hin
      · exact ⟨startTimer state.nextKey.1 definitionKey position start, heq⟩
      · exact ih _ hin

/-- Opening an incident tells of it. -/
theorem eq_of_mem_openIncident {event : Event} {job : Job}
    (he : event ∈ (openIncident state job).2) :
    event = ⟨state.nextKey.1, .incident .created, .incident (exhaustedJob job)⟩ := by
  unfold openIncident at he
  by_cases hfailed : job.state = .failed
  · rw [if_pos hfailed] at he
    exact List.mem_singleton.mp he
  · rw [if_neg hfailed] at he
    exact absurd he List.not_mem_nil

/-- Resolving an incident tells of it. -/
theorem eq_of_mem_resolveIncident {event : Event} {jobKey : Nat}
    (he : event ∈ (resolveIncident state jobKey).2) :
    ∃ incident : Incident, event =
      ⟨incident.key, .incident .resolved, .incident incident.value⟩ := by
  unfold resolveIncident at he
  dsimp only at he
  cases hresolve : (state.incidents.forJob jobKey).bind fun incident =>
      state.incidents.resolve incident.key with
  | none =>
      rw [hresolve] at he
      exact absurd he List.not_mem_nil
  | some result =>
      rw [hresolve] at he
      exact ⟨result.1, List.mem_singleton.mp he⟩

theorem intent_fireStart :
    ∀ event ∈ (fireStart state timer).2, event.intent = .processInstance .created := by
  intro event he
  obtain ⟨created, rfl⟩ := eq_of_mem_fireStart he
  rfl

theorem intent_scheduleSuccessor :
    ∀ event ∈ (scheduleSuccessor state timer position).2, event.intent = .timer .created := by
  intro event he
  obtain ⟨next, rfl⟩ := eq_of_mem_scheduleSuccessor he
  rfl

theorem intent_scheduleStarts (definitionKey : Nat) (starts : List ResolvedStart) :
    ∀ state, ∀ event ∈ (scheduleStarts definitionKey position state starts).2,
      event.intent = .timer .created := by
  intro state event he
  obtain ⟨timer, rfl⟩ := eq_of_mem_scheduleStarts definitionKey starts state he
  rfl

theorem intent_openIncident (job : Job) :
    ∀ event ∈ (openIncident state job).2, event.intent = .incident .created := by
  intro event he
  rw [eq_of_mem_openIncident he]

theorem intent_resolveIncident (jobKey : Nat) :
    ∀ event ∈ (resolveIncident state jobKey).2, event.intent = .incident .resolved := by
  intro event he
  obtain ⟨incident, rfl⟩ := eq_of_mem_resolveIncident he
  rfl

end Decide

namespace Processor

/-- The records that follow the commands, each beside its command. -/
def history (processor : Processor) : List Record → List (Record × Draft)
  | [] => []
  | command :: rest =>
      ((processor.apply command).1.followUps.map fun draft => (command, draft)) ++
        (processor.apply command).2.history rest

/-- Applying a record leaves the state as it is and tells no event, or it accepts a command and
tells the events of that. -/
theorem apply_tells {processor : Processor} (hbuiltin : processor.registry = .builtin)
    (command : Record) :
    ((processor.apply command).2.state = processor.state ∧
        ∀ draft ∈ (processor.apply command).1.followUps, draft.kind ≠ .event) ∨
      ∃ answer others,
        Accepted processor.evaluator processor.state command (processor.apply command).2.state
          answer others ∧
        ((processor.apply command).1.followUps.map fun draft => (command, draft)) =
          (answer :: others).map (Event.told command) := by
  by_cases hcommand : command.isCommand
  · rw [apply_command hbuiltin hcommand]
    cases hdecision : decision processor.evaluator processor.state command with
    | reject type reason =>
        refine .inl ⟨rfl, fun draft hd => ?_⟩
        rw [List.mem_singleton.mp hd]
        simp [Draft.rejection]
    | confirm key intent => exact .inl ⟨rfl, fun draft hd => absurd hd List.not_mem_nil⟩
    | accept final answer others =>
        refine .inr ⟨answer, others, accepted_of_decision hdecision, ?_⟩
        exact List.map_map
  · rw [apply_of_not_command (by simpa using hcommand)]
    exact .inl ⟨rfl, fun draft hd => absurd hd List.not_mem_nil⟩

/-- Applying a record does not take keys back. -/
theorem grows_apply {processor : Processor} (hbuiltin : processor.registry = .builtin)
    (command : Record) : EngineState.Grows processor.state (processor.apply command).2.state := by
  rcases apply_tells hbuiltin command with ⟨hsame, -⟩ | ⟨answer, others, haccepted, -⟩
  · rw [hsame]
    exact .refl _
  · exact haccepted.grows

theorem grows_after (commands : List Record) :
    ∀ processor : Processor, processor.registry = .builtin →
      EngineState.Grows processor.state (processor.after commands).state := by
  induction commands with
  | nil => intro processor _; exact .refl _
  | cons command rest ih =>
      intro processor hbuiltin
      exact (grows_apply hbuiltin command).trans (ih (processor.apply command).2 hbuiltin)

/-- **What each way of accepting keeps between the past and the state holds after any commands.** -/
theorem history_induction (evaluator : Evaluator)
    (holds : List (Record × Draft) → EngineState → Prop)
    (hquiet : ∀ past state command draft, holds past state → draft.kind ≠ .event →
      holds (past ++ [(command, draft)]) state)
    (hstep : ∀ past state command final answer others, holds past state →
      Accepted evaluator state command final answer others →
      final.keyCounter < 2 ^ keyCounterBits →
      holds (past ++ (answer :: others).map (Event.told command)) final)
    (commands : List Record) :
    ∀ (processor : Processor) (past : List (Record × Draft)), processor.registry = .builtin →
      processor.evaluator = evaluator → holds past processor.state →
      (processor.after commands).state.keyCounter < 2 ^ keyCounterBits →
      holds (past ++ processor.history commands) (processor.after commands).state := by
  -- Records that are no events come one by one.
  have hquiets : ∀ (command : Record) (drafts : List Draft) past state, holds past state →
      (∀ draft ∈ drafts, draft.kind ≠ .event) →
      holds (past ++ drafts.map fun draft => (command, draft)) state := by
    intro command drafts
    induction drafts with
    | nil => intro past state h _; simpa using h
    | cons draft rest ih =>
        intro past state h hkinds
        have hfirst := hquiet past state command draft h (hkinds draft List.mem_cons_self)
        have hrest := ih _ state hfirst fun other ho => hkinds other (List.mem_cons_of_mem _ ho)
        rwa [List.append_assoc] at hrest
  induction commands with
  | nil =>
      intro processor past _ _ h _
      rw [history, List.append_nil]
      exact h
  | cons command rest ih =>
      intro processor past hbuiltin hevaluator h hcapacity
      have hgrows := grows_after rest (processor.apply command).2 hbuiltin
      have hnext : (processor.apply command).2.state.keyCounter < 2 ^ keyCounterBits :=
        Nat.lt_of_le_of_lt hgrows.keyCounter hcapacity
      rw [history, ← List.append_assoc]
      refine ih (processor.apply command).2 _ hbuiltin hevaluator ?_ hcapacity
      rcases apply_tells hbuiltin command with
        ⟨hsame, hkinds⟩ | ⟨answer, others, haccepted, htold⟩
      · rw [hsame]
        exact hquiets command _ past _ h hkinds
      · rw [htold]
        rw [hevaluator] at haccepted
        exact hstep _ _ _ _ _ _ h haccepted hnext

end Processor

end Workflow
