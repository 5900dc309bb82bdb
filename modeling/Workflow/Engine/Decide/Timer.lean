/-
Decisions about timers.

A timer of an element is created from its definition; a definition that cannot be resolved opens an
incident instead.  A timer fires once: it is removed, a start-event timer makes a process instance,
and a repeating timer schedules its successor one period after its own due date, not after the time
at which it fired.  Canceling a timer that is gone succeeds.
-/
import Workflow.Engine.Decide.Process

namespace Workflow.Decide

/-- The incident of a timer definition that cannot be resolved. -/
def unresolvedTimer (request : TimerPayload) (instanceKey elementInstanceKey : Nat)
    (cause : TimerDefinitionError) : IncidentPayload :=
  { cause := .expressionEvaluation, errorMessage := cause.message, instanceKey := some instanceKey,
    elementInstanceKey := some elementInstanceKey, elementId := some request.targetElementId }

/-- The timer of an element. -/
def elementTimer (key position definitionKey instanceKey elementInstanceKey : Nat)
    (request : TimerPayload) (resolved : ResolvedTimer) : Timer :=
  { key, dueDate := resolved.dueDate, repetition := resolved.repetition, period := resolved.period,
    targetElementId := request.targetElementId, definitionKey := some definitionKey,
    instanceKey := some instanceKey, elementInstanceKey := some elementInstanceKey,
    creationPosition := position }

/-- Decides about the creation of a timer of an element. -/
def createTimer : Policy := fun evaluator state command =>
  match command.value with
  | .timer request =>
      match request.definition, request.instanceKey, request.elementInstanceKey with
      | none, _, _ => .refuse .noDefinition
      | some definition, some instanceKey, some elementInstanceKey =>
          match state.processes.instance? instanceKey with
          | none => .refuse (.unknownInstance instanceKey)
          | some owner =>
              match definition.resolve command.timestamp evaluator request.vars with
              | .ok resolved =>
                  let (key, state) := state.nextKey
                  let timer := elementTimer key command.position owner.definitionKey instanceKey
                    elementInstanceKey request resolved
                  .accept { state with timers := state.timers.schedule timer }
                    ⟨key, .timer .created, .timer timer.toPayload⟩ []
              | .error cause =>
                  let (key, state) := state.nextKey
                  let incident := unresolvedTimer request instanceKey elementInstanceKey cause
                  .accept { state with incidents := state.incidents.create key incident }
                    ⟨key, .incident .created, .incident incident⟩ []
      | _, _, _ => .refuse .noElementInstance
  | _ => .unexpectedValue command

/-- The instance that a start-event timer makes when it fires. -/
def fireStart (state : EngineState) (timer : Timer) : EngineState × List Event :=
  if timer.isStartEvent then
    match timer.definitionKey.bind state.processes.definition? with
    | none => (state, [])
    | some definition =>
        let (created, state) := startInstance state definition (some timer.targetElementId)
        (state, [⟨created.key, .processInstance .created,
          .processInstance (created.toPayload .null)⟩])
  else (state, [])

/-- The successor that a repeating timer schedules when it fires. -/
def scheduleSuccessor (state : EngineState) (timer : Timer) (position : Nat) :
    EngineState × List Event :=
  if timer.repeats then
    let (key, state) := state.nextKey
    match timer.successor? key position with
    | none => (state, [])
    | some next =>
        ({ state with timers := state.timers.schedule next },
          [⟨key, .timer .created, .timer next.toPayload⟩])
  else (state, [])

/-- Decides about the firing of a timer. -/
def triggerTimer : Policy := fun _ state command =>
  match command.key with
  | none => .refuse (.noTimerKey "trigger")
  | some key =>
      match state.timers.get? key with
      | none => .refuse (.unknownTimer key)
      | some timer =>
          if command.timestamp < timer.dueDate then .refuse (.notDue key timer)
          else
            let removed := { state with timers := state.timers.erase key }
            let (started, instances) := fireStart removed timer
            let (final, successors) := scheduleSuccessor started timer command.position
            .accept final ⟨key, .timer .triggered, .timer timer.toPayload⟩ (instances ++ successors)

/-- Decides about the cancellation of a timer. -/
def cancelTimer : Policy := fun _ state command =>
  match command.key with
  | none => .refuse (.noTimerKey "cancel")
  | some key =>
      match state.timers.get? key with
      | some timer =>
          .accept { state with timers := state.timers.erase key }
            ⟨key, .timer .canceled, .timer timer.toPayload⟩ []
      | none => .confirm key (.timer .canceled)

end Workflow.Decide
