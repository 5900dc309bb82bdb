/-
What an engine with the built-in handlers does with commands.

Every built-in handler carries out a decision, and carrying out a decision is one equation
(`perform_start`): the new state, the records that follow and the response are each a function of
the decision alone.  `decision` says which decision it is, so `apply_command` replaces the look-up
in the registry, the handler and the response writer by three functions on decisions.

`after` and `outcomes` run an engine over a list of commands.  An engine that is applied to
commands one by one and an engine that replays them from the log are both described by these two,
which is what makes them comparable.
-/
import Workflow.Engine.Processor

namespace Workflow

namespace Decision

/-- The state when the decision is carried out. -/
def next (state : EngineState) : Decision → EngineState
  | .accept final _ _ => final
  | _ => state

/-- The records that follow the command. -/
def followUps (command : Record) : Decision → List Draft
  | .reject type reason => [Draft.rejection command type reason]
  | .accept _ answer others =>
      (answer :: others).map fun event =>
        Draft.event command (some event.key) event.intent event.value
  | .confirm _ _ => []

/-- The response to a request that the command came from. -/
def responseTo (command : Record) (correlation : Correlation) : Decision → Response
  | .reject type reason =>
      { kind := .rejection, key := command.key, intent := command.intent,
        valueType := command.valueType, value := command.value, rejectionType := some type,
        rejectionReason := reason, correlation }
  | .accept _ answer _ =>
      { kind := .event, key := some answer.key, intent := answer.intent,
        valueType := answer.value.valueType, value := answer.value, correlation }
  | .confirm key intent =>
      { kind := .event, key := some key, intent, valueType := intent.valueType,
        value := command.value, correlation }

/-- The response to the command, if it came from a request. -/
def response (command : Record) (decision : Decision) : Option Response :=
  command.correlation.map fun correlation => decision.responseTo command correlation

/-- Appending events one by one appends their drafts and leaves all else alone. -/
theorem foldl_appendEvent (events : List Event) :
    ∀ p : Processing,
      events.foldl (fun q event => q.appendEvent event.key event.intent event.value) p =
        { p with
          followUps := p.followUps ++ events.map fun event =>
            Draft.event p.command (some event.key) event.intent event.value } := by
  induction events with
  | nil => intro p; simp
  | cons event rest ih =>
      intro p
      rw [List.foldl_cons, ih]
      simp [Processing.appendEvent]

/-- **What carrying out a decision leaves behind.** -/
theorem perform_start (decision : Decision) (state : EngineState) (command : Record) :
    decision.perform (Processing.start state command) =
      ⟨command, decision.next state, decision.followUps command,
        { correlation := command.correlation, staged := decision.response command }⟩ := by
  cases decision with
  | reject type reason =>
      cases h : command.correlation <;>
        simp [perform, Processing.start, Processing.reject, ResponseWriter.forCommand,
          ResponseWriter.writeRejection, ResponseWriter.stage, next, followUps, response,
          responseTo, h]
  | accept final answer others =>
      simp only [perform, foldl_appendEvent]
      cases h : command.correlation <;>
        simp [Processing.start, Processing.appendAndRespond, ResponseWriter.forCommand,
          ResponseWriter.writeEvent, ResponseWriter.stage, Draft.event, next, followUps, response,
          responseTo, h]
  | confirm key intent =>
      cases h : command.correlation <;>
        simp [perform, Processing.start, ResponseWriter.forCommand, ResponseWriter.writeResponse,
          ResponseWriter.stage, next, followUps, response, responseTo, h]

/-- What follows a command names it as its source and is no command itself. -/
theorem of_mem_followUps {decision : Decision} {command : Record} {draft : Draft}
    (h : draft ∈ decision.followUps command) :
    draft.sourcePosition = some command.position ∧ draft.kind ≠ .command := by
  cases decision with
  | reject type reason =>
      simp only [followUps, List.mem_singleton] at h
      subst h
      exact ⟨rfl, by simp [Draft.rejection]⟩
  | accept final answer others =>
      simp only [followUps, List.mem_map] at h
      obtain ⟨event, -, rfl⟩ := h
      exact ⟨rfl, by simp [Draft.event]⟩
  | confirm key intent => simp [followUps] at h

theorem correlation_responseTo (decision : Decision) (command : Record)
    (correlation : Correlation) :
    (decision.responseTo command correlation).correlation = correlation := by
  cases decision <;> rfl

/-- A command that nothing follows leaves the state as it is. -/
theorem next_of_followUps_nil {decision : Decision} {command : Record} {state : EngineState}
    (h : decision.followUps command = []) : decision.next state = state := by
  cases decision with
  | reject type reason => simp [followUps] at h
  | accept final answer others => simp [followUps] at h
  | confirm key intent => rfl

end Decision

namespace Processor

/-- What the built-in handlers decide about a command. -/
def decision (evaluator : Evaluator) (state : EngineState) (command : Record) : Decision :=
  if isConsistent command then
    match Registry.builtinPolicies.lookup command.intent with
    | some policy => policy evaluator state command
    | none => .reject .invalidArgument (unhandled command)
  else .unexpectedValue command

/-- The look-up of a handler under its value type and intent is that of its policy. -/
theorem lookup_handlers (intent : Intent) (policies : List (Intent × Policy)) :
    (policies.map fun (i, policy) => ((i.valueType, i), policy.handler)).lookup
        (intent.valueType, intent) =
      (policies.lookup intent).map Policy.handler := by
  induction policies with
  | nil => rfl
  | cons entry rest ih =>
      obtain ⟨i, policy⟩ := entry
      by_cases h : intent = i
      · subst h
        simp
      · have hpair : ((intent.valueType, intent) == (i.valueType, i)) = false := by
          simp [Prod.ext_iff, h]
        have hone : (intent == i) = false := by simpa using h
        rw [List.map_cons, List.lookup_cons, List.lookup_cons, hpair, hone]
        exact ih

theorem get?_builtin (intent : Intent) :
    Registry.builtin.get? intent.valueType intent =
      (Registry.builtinPolicies.lookup intent).map Policy.handler :=
  lookup_handlers intent Registry.builtinPolicies

variable {processor : Processor} {command : Record}

/-- **What applying a command does, with the built-in handlers.** -/
theorem apply_command (hbuiltin : processor.registry = .builtin) (hcommand : command.isCommand) :
    processor.apply command =
      let decided := decision processor.evaluator processor.state command
      (⟨decided.followUps command, decided.response command, 0⟩,
        { processor with state := decided.next processor.state }) := by
  have hprocess : processor.process command =
      (decision processor.evaluator processor.state command).perform
        (Processing.start processor.state command) := by
    unfold process decision
    rw [hcommand]
    by_cases hc : isConsistent command
    · have htype : command.intent.valueType = command.valueType := by
        simp only [isConsistent, Bool.and_eq_true, beq_iff_eq] at hc
        exact hc.1
      simp only [hc, Bool.not_true, Bool.false_eq_true, if_false, if_true]
      rw [hbuiltin, ← htype, get?_builtin]
      cases Registry.builtinPolicies.lookup command.intent with
      | none => rfl
      | some policy => rfl
    · simp only [hc, Bool.not_true, Bool.false_eq_true, if_false]
      rfl
  simp only [apply, hprocess, Decision.perform_start]
  rfl

/-- A record that is no command changes nothing. -/
theorem apply_of_not_command (hcommand : command.isCommand = false) :
    processor.apply command = (⟨[], none, 0⟩, processor) := by
  simp only [apply, process, hcommand, Bool.not_false, if_true]
  rfl

@[simp] theorem apply_registry (processor : Processor) (command : Record) :
    (processor.apply command).2.registry = processor.registry := rfl

@[simp] theorem apply_reset (processor : Processor) (command : Record) :
    (processor.apply command).2.reset = processor.reset := rfl

/-- What follows a command names it as its source and is no command itself. -/
theorem of_mem_followUps_apply (hbuiltin : processor.registry = .builtin) {draft : Draft}
    (h : draft ∈ (processor.apply command).1.followUps) :
    draft.sourcePosition = some command.position ∧ draft.kind ≠ .command := by
  by_cases hcommand : command.isCommand
  · rw [apply_command hbuiltin hcommand] at h
    exact Decision.of_mem_followUps h
  · rw [apply_of_not_command (by simpa using hcommand)] at h
    simp at h

/-- A record that nothing follows leaves the engine as it is. -/
theorem apply_of_followUps_nil (hbuiltin : processor.registry = .builtin)
    (h : (processor.apply command).1.followUps = []) : (processor.apply command).2 = processor := by
  by_cases hcommand : command.isCommand
  · rw [apply_command hbuiltin hcommand] at h ⊢
    simp only [Decision.next_of_followUps_nil h]
  · rw [apply_of_not_command (by simpa using hcommand)]

/-! ### Running an engine over a list of commands -/

/-- The engine when the commands are applied in order. -/
def after (processor : Processor) : List Record → Processor
  | [] => processor
  | command :: rest => (processor.apply command).2.after rest

/-- What the commands leave behind when they are applied in order. -/
def outcomes (processor : Processor) : List Record → List Outcome
  | [] => []
  | command :: rest => (processor.apply command).1 :: (processor.apply command).2.outcomes rest

@[simp] theorem after_append (first second : List Record) :
    ∀ processor : Processor, processor.after (first ++ second) =
      (processor.after first).after second := by
  induction first with
  | nil => intro processor; rfl
  | cons command rest ih => intro processor; exact ih _

theorem outcomes_append (first second : List Record) :
    ∀ processor : Processor, processor.outcomes (first ++ second) =
      processor.outcomes first ++ (processor.after first).outcomes second := by
  induction first with
  | nil => intro processor; rfl
  | cons command rest ih =>
      intro processor
      simp only [List.cons_append, outcomes, after]
      rw [ih]

@[simp] theorem length_outcomes (commands : List Record) :
    ∀ processor : Processor, (processor.outcomes commands).length = commands.length := by
  induction commands with
  | nil => intro processor; rfl
  | cons command rest ih => intro processor; simp [outcomes, ih]

@[simp] theorem after_registry (commands : List Record) :
    ∀ processor : Processor, (processor.after commands).registry = processor.registry := by
  induction commands with
  | nil => intro processor; rfl
  | cons command rest ih => intro processor; exact ih _

@[simp] theorem after_reset (commands : List Record) :
    ∀ processor : Processor, (processor.after commands).reset = processor.reset := by
  induction commands with
  | nil => intro processor; rfl
  | cons command rest ih => intro processor; exact ih _

/-- Commands that nothing follows leave the engine as it is. -/
theorem after_of_followUps_nil (commands : List Record) :
    ∀ processor : Processor, processor.registry = .builtin →
      (∀ outcome ∈ processor.outcomes commands, outcome.followUps = []) →
      processor.after commands = processor := by
  induction commands with
  | nil => intro processor _ _; rfl
  | cons command rest ih =>
      intro processor hbuiltin h
      have hfirst : (processor.apply command).1.followUps = [] := h _ List.mem_cons_self
      have hsame := apply_of_followUps_nil hbuiltin hfirst
      show (processor.apply command).2.after rest = processor
      rw [hsame]
      refine ih processor hbuiltin fun outcome ho => h outcome (List.mem_cons_of_mem _ ?_)
      rwa [hsame]

end Processor

end Workflow
