/-
What a client may count on for a single command.

A command is settled in one of three ways: it is refused, it is accepted, or what it asks for is
the case already.  Each way fixes what follows in the log, what becomes of the state, and which
kind of response the request gets.  That there is no fourth way and no mixture of two is the main
result (`settles_once`).  It is about handlers that work in place, which might change the state and
then refuse; those that carry out a decision cannot, and in every state that commands lead to the
two do the same.

Two more facts are about the policies themselves: the only one that confirms is the cancellation of
a timer, and each event that is told carries a payload of the type that its intent belongs to.
-/
import Workflow.Proofs.Engine.InPlace

namespace Workflow

open Decide

/-! ### Events carry a payload of their own type -/

/-- The intent of the event belongs to the type of its payload. -/
def Event.WellTyped (event : Event) : Prop := event.intent.valueType = event.value.valueType

namespace Decide

variable {state : EngineState} {timer : Timer} {position : Nat}

theorem wellTyped_fireStart : ∀ event ∈ (fireStart state timer).2, event.WellTyped := by
  intro event he
  obtain ⟨created, rfl⟩ := eq_of_mem_fireStart he
  rfl

theorem wellTyped_scheduleSuccessor :
    ∀ event ∈ (scheduleSuccessor state timer position).2, event.WellTyped := by
  intro event he
  obtain ⟨next, rfl⟩ := eq_of_mem_scheduleSuccessor he
  rfl

theorem wellTyped_scheduleStarts (definitionKey : Nat) (starts : List ResolvedStart) :
    ∀ event ∈ (scheduleStarts definitionKey position state starts).2, event.WellTyped := by
  intro event he
  obtain ⟨timer, rfl⟩ := eq_of_mem_scheduleStarts definitionKey starts state he
  rfl

theorem wellTyped_cancelTimers (state : EngineState) (timers : List Timer) :
    ∀ event ∈ (cancelTimers timers state).2, event.WellTyped := by
  intro event he
  obtain ⟨timer, -, rfl⟩ := List.mem_map.mp he
  rfl

theorem wellTyped_openIncident (job : Job) :
    ∀ event ∈ (openIncident state job).2, event.WellTyped := by
  intro event he
  rw [eq_of_mem_openIncident he]
  rfl

theorem wellTyped_resolveIncident (jobKey : Nat) :
    ∀ event ∈ (resolveIncident state jobKey).2, event.WellTyped := by
  intro event he
  obtain ⟨incident, rfl⟩ := eq_of_mem_resolveIncident he
  rfl

end Decide

/-- However a command is accepted, its events carry payloads of their own types. -/
theorem Accepted.wellTyped {evaluator : Evaluator} {state final : EngineState} {command : Record}
    {answer : Event} {others : List Event}
    (h : Accepted evaluator state command final answer others) :
    ∀ event ∈ answer :: others, event.WellTyped := by
  refine List.forall_mem_cons.mpr ?_
  cases h with
  | deployed request starts hintent hvalue hid hunique hstarts hdeploy =>
      cases hdeploy
      exact ⟨rfl, List.forall_mem_append.mpr
        ⟨wellTyped_cancelTimers state _, wellTyped_scheduleStarts _ starts⟩⟩
  | instanceCreated => exact ⟨rfl, List.forall_mem_nil _⟩
  | timerCreated => exact ⟨rfl, List.forall_mem_nil _⟩
  | timerUnresolved => exact ⟨rfl, List.forall_mem_nil _⟩
  | timerFired =>
      exact ⟨rfl, List.forall_mem_append.mpr ⟨wellTyped_fireStart, wellTyped_scheduleSuccessor⟩⟩
  | timerCanceled => exact ⟨rfl, List.forall_mem_nil _⟩
  | jobCreated => exact ⟨rfl, List.forall_mem_singleton.mpr rfl⟩
  | jobsActivated => exact ⟨rfl, List.forall_mem_nil _⟩
  | jobCompleted => exact ⟨rfl, List.forall_mem_nil _⟩
  | jobFailed => exact ⟨rfl, wellTyped_openIncident _⟩
  | jobTimedOut => exact ⟨rfl, List.forall_mem_nil _⟩
  | retriesUpdated key request revived =>
      refine ⟨rfl, List.forall_mem_append.mpr ⟨wellTyped_resolveIncident _, ?_⟩⟩
      cases revived with
      | false => exact List.forall_mem_nil _
      | true => exact List.forall_mem_singleton.mpr rfl
  | jobCanceled => exact ⟨rfl, wellTyped_resolveIncident _⟩

/-! ### Only canceling a timer confirms -/

/-- The decision refuses the command or accepts it. -/
def Decision.IsFirm (decision : Decision) : Prop := ∀ key intent, decision ≠ .confirm key intent

namespace Decide

variable (evaluator : Evaluator) (state : EngineState) (command : Record)

theorem isFirm_deploy : (deploy evaluator state command).IsFirm := by
  intro key intent
  unfold deploy
  grind [deployResolved, Decision.unexpectedValue, Decision.refuse]

theorem isFirm_createInstance : (createInstance evaluator state command).IsFirm := by
  intro key intent
  unfold createInstance
  grind [Decision.unexpectedValue, Decision.refuse]

theorem isFirm_createTimer : (createTimer evaluator state command).IsFirm := by
  intro key intent
  unfold createTimer
  grind [Decision.unexpectedValue, Decision.refuse]

theorem isFirm_triggerTimer : (triggerTimer evaluator state command).IsFirm := by
  intro key intent
  unfold triggerTimer
  grind [Decision.refuse]

theorem isFirm_createJob : (createJob evaluator state command).IsFirm := by
  intro key intent
  unfold createJob
  grind [Decision.unexpectedValue, Decision.refuse]

theorem isFirm_activateJobs : (activateJobs evaluator state command).IsFirm := by
  intro key intent
  unfold activateJobs
  grind [Decision.unexpectedValue, Decision.refuse]

variable {command} in
/-- A command about a job confirms nothing if what is decided about the job does not. -/
theorem isFirm_withJobKey {operation : JobOperation} {decide : Nat → Decision}
    (h : ∀ key, (decide key).IsFirm) : (withJobKey command operation decide).IsFirm := by
  unfold withJobKey
  cases command.key with
  | none => intro key intent; exact Decision.noConfusion
  | some key => exact h key

theorem isFirm_completeJob : (completeJob evaluator state command).IsFirm :=
  isFirm_withJobKey fun jobKey key intent => by grind [rejectJob, Decision.refuse]

theorem isFirm_failJob : (failJob evaluator state command).IsFirm :=
  isFirm_withJobKey fun jobKey key intent => by
    grind [rejectJob, Decision.unexpectedValue, Decision.refuse]

theorem isFirm_timeOutJob : (timeOutJob evaluator state command).IsFirm :=
  isFirm_withJobKey fun jobKey key intent => by grind [rejectJob, Decision.refuse]

theorem isFirm_updateJobRetries : (updateJobRetries evaluator state command).IsFirm :=
  isFirm_withJobKey fun jobKey key intent => by
    grind [rejectJob, Decision.unexpectedValue, Decision.refuse]

theorem isFirm_cancelJob : (cancelJob evaluator state command).IsFirm :=
  isFirm_withJobKey fun jobKey key intent => by grind [rejectJob, Decision.refuse]

variable {evaluator state command} in
/-- What canceling a timer confirms is that no such timer is pending. -/
theorem of_cancelTimer_confirm {key : Nat} {intent : Intent}
    (h : cancelTimer evaluator state command = .confirm key intent) :
    command.key = some key ∧ state.timers.get? key = none := by
  unfold cancelTimer at h
  cases hkey : command.key with
  | none => rw [hkey] at h; cases h
  | some named =>
      rw [hkey] at h
      dsimp only at h
      cases htimer : state.timers.get? named with
      | some timer => rw [htimer] at h; cases h
      | none =>
          rw [htimer] at h
          cases h
          exact ⟨rfl, htimer⟩

end Decide

/-- A decision that confirms is about canceling a timer that is not pending. -/
theorem Processor.of_decision_confirm {evaluator : Evaluator} {state : EngineState}
    {command : Record} {key : Nat} {intent : Intent}
    (h : Processor.decision evaluator state command = .confirm key intent) :
    command.valueType = .timer ∧ command.intent = .timer .cancel ∧ command.key = some key ∧
      state.timers.get? key = none := by
  unfold Processor.decision at h
  by_cases hconsistent : Processor.isConsistent command
  · rw [if_pos hconsistent] at h
    cases hlookup : Registry.builtinPolicies.lookup command.intent with
    | none => rw [hlookup] at h; cases h
    | some policy =>
        rw [hlookup] at h
        dsimp only at h
        have hmem : (command.intent, policy) ∈ Registry.builtinPolicies := by
          obtain ⟨before, after, hsplit, -⟩ := List.lookup_eq_some_iff.mp hlookup
          rw [hsplit]
          exact List.mem_append_right _ List.mem_cons_self
        simp only [Registry.builtinPolicies, List.mem_cons, Prod.mk.injEq, List.not_mem_nil,
          or_false] at hmem
        rcases hmem with ⟨-, rfl⟩ | ⟨-, rfl⟩ | ⟨-, rfl⟩ | ⟨-, rfl⟩ | ⟨hintent, rfl⟩ | ⟨-, rfl⟩ |
          ⟨-, rfl⟩ | ⟨-, rfl⟩ | ⟨-, rfl⟩ | ⟨-, rfl⟩ | ⟨-, rfl⟩ | ⟨-, rfl⟩
        · exact absurd h (isFirm_deploy _ _ _ _ _)
        · exact absurd h (isFirm_createInstance _ _ _ _ _)
        · exact absurd h (isFirm_createTimer _ _ _ _ _)
        · exact absurd h (isFirm_triggerTimer _ _ _ _ _)
        · obtain ⟨hkey, hgone⟩ := of_cancelTimer_confirm h
          simp only [isConsistent, Bool.and_eq_true, beq_iff_eq] at hconsistent
          rw [hintent] at hconsistent
          exact ⟨hconsistent.1.symm, hintent, hkey, hgone⟩
        · exact absurd h (isFirm_createJob _ _ _ _ _)
        · exact absurd h (isFirm_activateJobs _ _ _ _ _)
        · exact absurd h (isFirm_completeJob _ _ _ _ _)
        · exact absurd h (isFirm_failJob _ _ _ _ _)
        · exact absurd h (isFirm_timeOutJob _ _ _ _ _)
        · exact absurd h (isFirm_updateJobRetries _ _ _ _ _)
        · exact absurd h (isFirm_cancelJob _ _ _ _ _)
  · rw [if_neg hconsistent] at h
    cases h

/-! ### How a command is settled -/

/-- The record refuses the command, whose request it repeats. -/
structure Draft.Refuses (draft : Draft) (command : Record) : Prop where
  kind : draft.kind = .rejection
  key : draft.key = command.key
  intent : draft.intent = command.intent
  valueType : draft.valueType = command.valueType
  value : draft.value = command.value
  correlation : draft.correlation = command.correlation
  cause : draft.rejectionType.isSome

/-- The ways in which a command is settled. -/
inductive Verdict where
  /-- It is refused. -/
  | refused
  /-- It is accepted. -/
  | accepted
  /-- What it asks for is the case already. -/
  | confirmed
deriving DecidableEq

namespace Verdict

/-- What a way of settling a command means for the log and the state. -/
def Describes (before : EngineState) (command : Record) (outcome : Outcome)
    (after : EngineState) : Verdict → Prop
  | .refused => (∃ draft, outcome.followUps = [draft] ∧ draft.Refuses command) ∧ after = before
  | .accepted => outcome.followUps ≠ [] ∧ ∀ draft ∈ outcome.followUps, draft.kind = .event
  | .confirmed => outcome.followUps = [] ∧ after = before ∧ command.valueType = .timer ∧
      command.intent = .timer .cancel ∧
      ∃ key, command.key = some key ∧ before.timers.get? key = none

/-- The kind of response that goes with it. -/
def responseKind : Verdict → RecordKind
  | .refused => .rejection
  | _ => .event

variable {before after : EngineState} {command : Record} {outcome : Outcome}

/-- No command is settled in two ways. -/
theorem Describes.unique {verdict other : Verdict}
    (h : verdict.Describes before command outcome after)
    (h' : other.Describes before command outcome after) : other = verdict := by
  -- The records that follow tell the ways apart: a rejection, events, or none.
  have hrefused : Verdict.refused.Describes before command outcome after →
      ¬ Verdict.accepted.Describes before command outcome after := by
    rintro ⟨⟨draft, hfollow, hrefuses⟩, -⟩ ⟨-, hkinds⟩
    have hkind := hkinds draft (by rw [hfollow]; exact List.mem_singleton_self _)
    rw [hrefuses.kind] at hkind
    cases hkind
  have hempty : Verdict.confirmed.Describes before command outcome after →
      outcome.followUps = [] := And.left
  cases verdict with
  | refused =>
      cases other with
      | refused => rfl
      | accepted => exact absurd h' (hrefused h)
      | confirmed =>
          obtain ⟨⟨draft, hfollow, -⟩, -⟩ := h
          rw [hempty h'] at hfollow
          cases hfollow
  | accepted =>
      cases other with
      | refused => exact absurd h (hrefused h')
      | accepted => rfl
      | confirmed => exact absurd (hempty h') h.1
  | confirmed =>
      cases other with
      | refused =>
          obtain ⟨⟨draft, hfollow, -⟩, -⟩ := h'
          rw [hempty h] at hfollow
          cases hfollow
      | accepted => exact absurd (hempty h) h'.1
      | confirmed => rfl

end Verdict

/-- A command is settled once: what follows it, the state afterwards and the response are those of
one way, and of no other. -/
structure Record.SettledOnce (command : Record) (before : EngineState) (outcome : Outcome)
    (after : EngineState) : Prop where
  /-- It is settled in exactly one way, and a request gets the response that goes with it. -/
  verdict : ∃ verdict : Verdict,
    (∀ other : Verdict, other.Describes before command outcome after ↔ other = verdict) ∧
    ∀ correlation, command.correlation = some correlation →
      ∃ response, outcome.response = some response ∧ response.correlation = correlation ∧
        response.kind = verdict.responseKind
  /-- Without a request there is no response. -/
  unasked : command.correlation = none → outcome.response = none
  /-- No response was written over another. -/
  overwrites : outcome.overwrites = 0
  /-- What follows names the command and its time, and events carry payloads of their own types. -/
  stamped : ∀ draft ∈ outcome.followUps, draft.sourcePosition = some command.position ∧
    draft.timestamp = command.timestamp ∧
    (draft.kind = .event → draft.intent.valueType = draft.valueType)

namespace Decision

/-- The way in which a decision settles a command. -/
def verdict : Decision → Verdict
  | .reject _ _ => .refused
  | .accept _ _ _ => .accepted
  | .confirm _ _ => .confirmed

theorem describes_verdict {evaluator : Evaluator} {state : EngineState} {command : Record}
    {decided : Decision} (h : Processor.decision evaluator state command = decided)
    (response : Option Response) :
    decided.verdict.Describes state command ⟨decided.followUps command, response, 0⟩
      (decided.next state) := by
  cases decided with
  | reject type reason =>
      exact ⟨⟨Draft.rejection command type reason, rfl, rfl, rfl, rfl, rfl, rfl, rfl, rfl⟩, rfl⟩
  | accept final answer others =>
      refine ⟨by simp [followUps], fun draft hd => ?_⟩
      obtain ⟨event, -, rfl⟩ := List.mem_map.mp hd
      rfl
  | confirm key intent =>
      obtain ⟨htype, hintent, hkey, hgone⟩ := Processor.of_decision_confirm h
      exact ⟨rfl, rfl, htype, hintent, key, hkey, hgone⟩

/-- What follows a command is of its time, and events carry payloads of their own types. -/
theorem stamped_followUps {evaluator : Evaluator} {state : EngineState} {command : Record}
    {draft : Draft} (h : draft ∈ (Processor.decision evaluator state command).followUps command) :
    draft.timestamp = command.timestamp ∧
      (draft.kind = .event → draft.intent.valueType = draft.valueType) := by
  cases hdecided : Processor.decision evaluator state command with
  | reject type reason =>
      rw [hdecided] at h
      rw [List.mem_singleton.mp h]
      exact ⟨rfl, fun hkind => by cases hkind⟩
  | accept final answer others =>
      rw [hdecided] at h
      obtain ⟨event, he, rfl⟩ := List.mem_map.mp h
      exact ⟨rfl, fun _ => (accepted_of_decision hdecided).wellTyped event he⟩
  | confirm key intent =>
      rw [hdecided] at h
      exact absurd h List.not_mem_nil

theorem kind_responseTo (decided : Decision) (command : Record) (correlation : Correlation) :
    (decided.responseTo command correlation).kind = decided.verdict.responseKind := by
  cases decided <;> rfl

end Decision

namespace Processor

/-- In whatever state it is, the engine with the built-in handlers settles a command once. -/
theorem settles (processor : Processor) (hbuiltin : processor.registry = .builtin)
    (command : Record) (hcommand : command.isCommand) :
    command.SettledOnce processor.state (processor.apply command).1
      (processor.apply command).2.state := by
  rw [apply_command hbuiltin hcommand]
  have hdescribes := fun response => Decision.describes_verdict
    (rfl : decision processor.evaluator processor.state command = _) response
  refine ⟨⟨_, fun other => ⟨(hdescribes _).unique, ?_⟩, fun correlation hcorrelation => ?_⟩, ?_,
    rfl, fun draft hd => ?_⟩
  · rintro rfl
    exact hdescribes _
  · refine ⟨Decision.responseTo command correlation _, ?_, Decision.correlation_responseTo _ _ _,
      Decision.kind_responseTo _ _ _⟩
    simp only [Decision.response, hcorrelation, Option.map_some]
  · intro hnone
    simp only [Decision.response, hnone, Option.map_none]
  · exact ⟨(Decision.of_mem_followUps hd).1, Decision.stamped_followUps hd⟩

/-- **A command is settled once, in one of three ways.**  Whatever commands came before it, handlers
that work in place refuse it by a single record that repeats its request, and leave the state as it
is; or they accept it with at least one event; or it cancels a timer that is not pending, and
nothing follows and nothing changes.  The engine that runs does the same. -/
theorem settles_once (partitionId : Nat) (evaluator : Evaluator) (commands : List Record)
    (command : Record) (hcommand : command.isCommand) :
    let processor := (start partitionId .inPlace evaluator).after commands
    let running := (start partitionId .builtin evaluator).after commands
    command.SettledOnce processor.state (processor.apply command).1
        (processor.apply command).2.state ∧
      running.state = processor.state ∧
      (running.apply command).1 = (processor.apply command).1 ∧
      (running.apply command).2.state = (processor.apply command).2.state := by
  intro processor running
  have hbuiltin : running.registry = .builtin := after_registry _ _
  have htidy : running.state.Tidy := tidy_after commands _ rfl (.initial partitionId)
  have hprocessor : processor = running.inPlace :=
    after_inPlace commands (start partitionId .builtin evaluator) rfl (.initial partitionId)
  have happly := apply_inPlace hbuiltin htidy command
  rw [hprocessor, happly]
  exact ⟨settles running hbuiltin command hcommand, rfl, rfl, rfl⟩

/-- A request to cancel a timer that is not pending. -/
def lateCancel : Record :=
  .ofDraft 5 ((Draft.command (some (EngineState.keyAt 1 1)) (.timer .cancel)
    (.timer { targetElementId := "element" })).withCorrelation ⟨1, 1⟩)

theorem settles_once_lateCancel :
    let processor := Processor.start 1 .inPlace .unavailable
    lateCancel.isCommand = true ∧
      (processor.apply lateCancel).1.followUps = [] ∧
      lateCancel.SettledOnce processor.state (processor.apply lateCancel).1
        (processor.apply lateCancel).2.state := by
  intro processor
  have hcommand : lateCancel.isCommand = true := by decide
  exact ⟨hcommand, by decide +kernel, (settles_once 1 .unavailable [] lateCancel hcommand).1⟩

end Processor

end Workflow
