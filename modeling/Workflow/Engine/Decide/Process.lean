/-
Decisions about deployments and process instances.

A deployment makes a new version of a process.  The start-event timers of earlier versions are
canceled and those of the new one are scheduled, so only the newest version starts instances.  All
timers are resolved before anything changes.
-/
import Workflow.Engine.Decision
import Workflow.Text.Blank

namespace Workflow.Decide

/-- The first element id that occurs a second time. -/
def repeatedElement? (starts : List TimerStart) : Option String :=
  go [] starts
where
  /-- Looks for the first id that was seen before. -/
  go (seen : List String) : List TimerStart → Option String
    | [] => none
    | start :: rest =>
        if start.elementId ∈ seen then some start.elementId else go (start.elementId :: seen) rest

/-- A start event whose timer was resolved. -/
structure ResolvedStart where
  /-- The element of the process. -/
  elementId : String
  /-- When its timer fires. -/
  timer : ResolvedTimer
deriving DecidableEq, Inhabited

/-- Resolves the timers of start events, or gives the first that cannot be and the cause. -/
def resolveStarts (evaluator : Evaluator) (now : Instant) :
    List TimerStart → Except (String × TimerDefinitionError) (List ResolvedStart)
  | [] => .ok []
  | start :: rest => do
      let timer ← (start.timer.resolve now evaluator .null).mapError fun cause =>
        (start.elementId, cause)
      let others ← resolveStarts evaluator now rest
      .ok (⟨start.elementId, timer⟩ :: others)

/-- The timer of a start event of a definition. -/
def startTimer (key definitionKey position : Nat) (start : ResolvedStart) : Timer :=
  { key, dueDate := start.timer.dueDate, repetition := start.timer.repetition,
    period := start.timer.period, targetElementId := start.elementId,
    definitionKey := some definitionKey, instanceKey := none, elementInstanceKey := none,
    creationPosition := position }

/-- Schedules the timers of start events, each under a new key, and tells the events. -/
def scheduleStarts (definitionKey position : Nat) (state : EngineState) :
    List ResolvedStart → EngineState × List Event
  | [] => (state, [])
  | start :: rest =>
      let (key, state) := state.nextKey
      let timer := startTimer key definitionKey position start
      let scheduled := { state with timers := state.timers.schedule timer }
      let (final, events) := scheduleStarts definitionKey position scheduled rest
      (final, ⟨key, .timer .created, .timer timer.toPayload⟩ :: events)

/-- Removes timers and tells the events. -/
def cancelTimers (timers : List Timer) (state : EngineState) : EngineState × List Event :=
  ({ state with timers := timers.foldl (fun agenda timer => agenda.erase timer.key) state.timers },
    timers.map fun timer => ⟨timer.key, .timer .canceled, .timer timer.toPayload⟩)

/-- Deploys a process whose timers were resolved. -/
def deployResolved (state : EngineState) (position : Nat) (request : DeploymentPayload)
    (starts : List ResolvedStart) : Decision :=
  let earlier := state.processes.versionsOf request.processId
  let version := match state.processes.latest? request.processId with
    | some latest => latest.version + 1
    | none => 1
  let (key, state) := state.nextKey
  let definition : ProcessDefinition := ⟨key, request.processId, version, request.timerStarts⟩
  let deployed := { state with processes := state.processes.deploy definition }
  let (cleared, canceled) := cancelTimers (deployed.timers.startTimersOf earlier) deployed
  let (final, created) := scheduleStarts key position cleared starts
  .accept final
    ⟨key, .deployment .created, .deployment { request with version, definitionKey := some key }⟩
    (canceled ++ created)

/-- Decides about the deployment of a process. -/
def deploy : Policy := fun evaluator state command =>
  match command.value with
  | .deployment request =>
      if isBlankText request.processId then .refuse .blankProcessId
      else
        match repeatedElement? request.timerStarts with
        | some elementId => .refuse (.repeatedElement elementId)
        | none =>
            match resolveStarts evaluator command.timestamp request.timerStarts with
            | .error (elementId, cause) => .refuse (.unresolvedStart elementId cause)
            | .ok starts => deployResolved state command.position request starts
  | _ => .unexpectedValue command

/-- Adds an instance of a definition under a new key. -/
def startInstance (state : EngineState) (definition : ProcessDefinition)
    (elementId : Option String) : ProcessInstance × EngineState :=
  let (key, state) := state.nextKey
  let created := definition.instantiate key elementId
  (created, { state with processes := state.processes.addInstance created })

/-- Decides about the creation of a process instance. -/
def createInstance : Policy := fun _ state command =>
  match command.value with
  | .processInstance request =>
      match state.processes.latest? request.processId with
      | none => .refuse (.unknownProcess request.processId)
      | some definition =>
          let (created, state) := startInstance state definition none
          .accept state
            ⟨created.key, .processInstance .created,
              .processInstance (created.toPayload request.vars)⟩
            []
  | _ => .unexpectedValue command

end Workflow.Decide
