/-
The built-in handlers as procedures that work in place.

A handler may be written without deciding first: it changes the state, appends records and stages
the response in the order in which the commands are carried out, and where it finds on the way that
there is nothing to do it goes on, or stops, with what it has changed by then.  In this form nothing
keeps a handler from changing the state and then refusing, from answering twice or from forgetting
to answer.

The lemmas named `..._eq` say that none does.  In a tidy state, which is each state that commands
lead to, a handler in place does what its policy decides, so an engine with these handlers behaves
as the one that runs (`Processor.apply_inPlace`, `Processor.after_inPlace`).  Two branches are shown
dead on the way: an instance that was added is found, and so is a job whose retries were updated.
-/
import Workflow.Proofs.Job.InPlace
import Workflow.Proofs.Timer.Schedule

namespace Workflow

open Decide

/-! ### Steps -/

namespace Processing

/-- Refuses the command. -/
def refuse (p : Processing) (refusal : Refusal) : Processing := p.reject refusal.type refusal.reason

/-- Writes to the state. -/
def write (p : Processing) (state : EngineState) : Processing := { p with state }

/-- Hands out a new key. -/
def nextKey (p : Processing) : Nat × Processing := (p.state.nextKey.1, p.write p.state.nextKey.2)

/-- Runs a procedure on the jobs, which stay as it leaves them even if it is refused. -/
def onJobs {α : Type} (p : Processing) (procedure : Procedure α) : Except JobError α × Processing :=
  match procedure.run p.state.jobs with
  | .ok answer jobs => (.ok answer, p.write { p.state with jobs })
  | .error cause jobs => (.error cause, p.write { p.state with jobs })

/-- Takes a timer off the agenda, if it is pending. -/
def takeTimer (p : Processing) (key : Nat) : Option Timer × Processing :=
  match p.state.timers.get? key with
  | none => (none, p)
  | some timer => (some timer, p.write { p.state with timers := p.state.timers.erase key })

/-- Adds a timer to the agenda. -/
def schedule (p : Processing) (timer : Timer) : Processing :=
  p.write { p.state with timers := p.state.timers.schedule timer }

/-- Opens an incident. -/
def raise (p : Processing) (key : Nat) (incident : IncidentPayload) : Processing :=
  p.write { p.state with incidents := p.state.incidents.create key incident }

/-- Adds an instance of a definition under a new key, and tells nothing yet. -/
def startInstance (p : Processing) (definition : ProcessDefinition) (elementId : Option String) :
    Nat × Processing :=
  let (key, p) := p.nextKey
  let processes := p.state.processes.addInstance (definition.instantiate key elementId)
  (key, p.write { p.state with processes })

end Processing

namespace InPlace

/-! ### Deployments and instances -/

/-- Cancels a start-event timer of an earlier version. -/
def cancelStale (p : Processing) (key : Nat) : Processing :=
  match p.takeTimer key with
  | (some timer, p) => p.appendEvent timer.key (.timer .canceled) (.timer timer.toPayload)
  | (none, p) => p

/-- Schedules the timer of a start event. -/
def scheduleStart (definitionKey : Nat) (p : Processing) (start : ResolvedStart) : Processing :=
  let (key, p) := p.nextKey
  let timer := startTimer key definitionKey p.command.position start
  (p.schedule timer).appendEvent key (.timer .created) (.timer timer.toPayload)

/-- Deploys a process whose timers were resolved. -/
def deployResolved (p : Processing) (request : DeploymentPayload) (starts : List ResolvedStart) :
    Processing :=
  let earlier := p.state.processes.versionsOf request.processId
  let version := match p.state.processes.latest? request.processId with
    | some latest => latest.version + 1
    | none => 1
  let (key, p) := p.nextKey
  let definition : ProcessDefinition := ⟨key, request.processId, version, request.timerStarts⟩
  let p := p.write { p.state with processes := p.state.processes.deploy definition }
  let p := p.appendAndRespond key (.deployment .created)
    (.deployment { request with version, definitionKey := some key })
  let stale := (p.state.timers.startTimersOf earlier).map Timer.key
  starts.foldl (scheduleStart key) (stale.foldl cancelStale p)

/-- Deploys a process. -/
def deploy : Handler := fun evaluator p =>
  match p.command.value with
  | .deployment request =>
      if isBlankText request.processId then p.refuse .blankProcessId
      else
        match repeatedElement? request.timerStarts with
        | some elementId => p.refuse (.repeatedElement elementId)
        | none =>
            match resolveStarts evaluator p.now request.timerStarts with
            | .error (elementId, cause) => p.refuse (.unresolvedStart elementId cause)
            | .ok starts => deployResolved p request starts
  | _ => p.rejectUnexpectedValue

/-- Creates a process instance; without one of the new key there is nothing to tell. -/
def createInstance : Handler := fun _ p =>
  match p.command.value with
  | .processInstance request =>
      match p.state.processes.latest? request.processId with
      | none => p.refuse (.unknownProcess request.processId)
      | some definition =>
          let (key, p) := p.startInstance definition none
          match p.state.processes.instance? key with
          | some created =>
              p.appendAndRespond key (.processInstance .created)
                (.processInstance (created.toPayload request.vars))
          | none => p
  | _ => p.rejectUnexpectedValue

/-! ### Timers -/

/-- Creates a timer of an element, or opens the incident of one that cannot be resolved. -/
def createTimer : Handler := fun evaluator p =>
  match p.command.value with
  | .timer request =>
      match request.definition, request.instanceKey, request.elementInstanceKey with
      | none, _, _ => p.refuse .noDefinition
      | some definition, some instanceKey, some elementInstanceKey =>
          match p.state.processes.instance? instanceKey with
          | none => p.refuse (.unknownInstance instanceKey)
          | some owner =>
              match definition.resolve p.now evaluator request.vars with
              | .ok resolved =>
                  let (key, p) := p.nextKey
                  let timer := elementTimer key p.command.position owner.definitionKey instanceKey
                    elementInstanceKey request resolved
                  (p.schedule timer).appendAndRespond key (.timer .created)
                    (.timer timer.toPayload)
              | .error cause =>
                  let (key, p) := p.nextKey
                  let incident := unresolvedTimer request instanceKey elementInstanceKey cause
                  (p.raise key incident).appendAndRespond key (.incident .created)
                    (.incident incident)
      | _, _, _ => p.refuse .noElementInstance
  | _ => p.rejectUnexpectedValue

/-- Makes the process instance of a start-event timer. -/
def fireStart (p : Processing) (timer : Timer) : Processing :=
  if timer.isStartEvent then
    match timer.definitionKey.bind p.state.processes.definition? with
    | none => p
    | some definition =>
        let (key, p) := p.startInstance definition (some timer.targetElementId)
        match p.state.processes.instance? key with
        | some created =>
            p.appendEvent key (.processInstance .created)
              (.processInstance (created.toPayload .null))
        | none => p
  else p

/-- Schedules the successor of a repeating timer. -/
def scheduleSuccessor (p : Processing) (timer : Timer) : Processing :=
  if timer.repeats then
    let (key, p) := p.nextKey
    match timer.successor? key p.command.position with
    | some next => (p.schedule next).appendEvent key (.timer .created) (.timer next.toPayload)
    | none => p
  else p

/-- Fires a timer. -/
def triggerTimer : Handler := fun _ p =>
  match p.command.key with
  | none => p.refuse (.noTimerKey "trigger")
  | some key =>
      match p.state.timers.get? key with
      | none => p.refuse (.unknownTimer key)
      | some timer =>
          if p.now < timer.dueDate then p.refuse (.notDue key timer)
          else
            let p := (p.takeTimer key).2
            let p := p.appendAndRespond key (.timer .triggered) (.timer timer.toPayload)
            scheduleSuccessor (fireStart p timer) timer

/-- Cancels a timer; one that is gone is only confirmed. -/
def cancelTimer : Handler := fun _ p =>
  match p.command.key with
  | none => p.refuse (.noTimerKey "cancel")
  | some key =>
      match p.takeTimer key with
      | (some timer, p) => p.appendAndRespond key (.timer .canceled) (.timer timer.toPayload)
      | (none, p) =>
          match p.command.correlation with
          | none => p
          | some correlation =>
              { p with
                writer := p.writer.writeResponse (some key) (.timer .canceled) .timer
                  p.command.value correlation }

/-! ### Jobs -/

/-- Carries out a command that must name a job. -/
def withJobKey (p : Processing) (operation : JobOperation) (carryOut : Nat → Processing) :
    Processing :=
  match p.command.key with
  | none => p.refuse (.noJobKey operation)
  | some key => carryOut key

/-- Resolves the open incident of a job, if there is one. -/
def resolveIncident (p : Processing) (jobKey : Nat) : Processing :=
  match p.state.incidents.forJob jobKey with
  | none => p
  | some found =>
      match p.state.incidents.resolve found.key with
      | none => p
      | some (incident, incidents) =>
          (p.write { p.state with incidents }).appendEvent incident.key (.incident .resolved)
            (.incident incident.value)

/-- Creates a job and offers it to workers. -/
def createJob : Handler := fun _ p =>
  match p.command.value with
  | .job request =>
      if isBlankText request.jobType then p.refuse .blankJobType
      else if request.retries = 0 then p.refuse .noRetries
      else
        let (key, p) := p.nextKey
        let (created, jobs) := p.state.jobs.create key request
        let p := (p.write { p.state with jobs }).appendAndRespond key (.job .created)
          (.job created.toPayload)
        match p.state.jobs.markActivatable key with
        | none => p
        | some (offered, jobs) =>
            (p.write { p.state with jobs }).appendEvent key (.job .activatable)
              (.job offered.toPayload)
  | _ => p.rejectUnexpectedValue

/-- Leases jobs to a worker. -/
def activateJobs : Handler := fun _ p =>
  match p.command.value with
  | .jobBatch request =>
      if isBlankText request.jobType then p.refuse .blankBatchType
      else if request.timeout.isZero then p.refuse .zeroTimeout
      else if request.maxJobs = 0 then p.refuse .zeroJobs
      else
        let (jobKeys, jobs) := p.state.jobs.activate request.jobType request.worker request.timeout
          request.maxJobs p.now
        let p := p.write { p.state with jobs }
        let activated := jobKeys.filterMap fun key => (p.state.jobs.get? key).map Job.toPayload
        let (key, p) := p.nextKey
        p.appendAndRespond key (.jobBatch .activated)
          (.jobBatch { request with jobKeys, jobs := activated })
  | _ => p.rejectUnexpectedValue

/-- Completes a job. -/
def completeJob : Handler := fun _ p =>
  withJobKey p .complete fun key =>
    match p.onJobs (.complete key) with
    | (.ok job, p) => p.appendAndRespond key (.job .completed) (.job job.toPayload)
    | (.error cause, p) => p.refuse (.transition cause)

/-- Fails a job, which opens an incident if no retries are left. -/
def failJob : Handler := fun _ p =>
  withJobKey p .fail fun key =>
    match p.command.value with
    | .job request =>
        match p.onJobs (.fail key request.retryBackoff request.errorMessage p.now) with
        | (.error cause, p) => p.refuse (.transition cause)
        | (.ok job, p) =>
            let p := p.appendAndRespond key (.job .failed) (.job job.toPayload)
            if job.state = .failed then
              let (incidentKey, p) := p.nextKey
              let incident := { exhaustedJob job with jobKey := some key }
              (p.raise incidentKey incident).appendEvent incidentKey (.incident .created)
                (.incident incident)
            else p
    | _ => p.rejectUnexpectedValue

/-- Reclaims a lease. -/
def timeOutJob : Handler := fun _ p =>
  withJobKey p .timeOut fun key =>
    match p.command.value.job?.bind JobPayload.deadline with
    | none => p.refuse (.noDeadline key)
    | some observed =>
        match p.onJobs (.timeOut key observed p.now) with
        | (.ok job, p) => p.appendAndRespond key (.job .timedOut) (.job job.toPayload)
        | (.error cause, p) => p.refuse (.transition cause)

/-- Gives a job new retries; without a job of the key there is nothing to answer. -/
def updateJobRetries : Handler := fun _ p =>
  withJobKey p .updateRetries fun key =>
    match p.command.value with
    | .job request =>
        if request.retries = 0 then p.refuse (.zeroRetries key)
        else
          match p.onJobs (.updateRetries key request.retries) with
          | (.error cause, p) => p.refuse (.transition cause)
          | (.ok revived, p) =>
              let p := match p.state.jobs.get? key with
                | some job =>
                    p.appendAndRespond key (.job .retriesUpdated) (.job job.toPayload)
                | none => p
              let p := resolveIncident p key
              if revived then
                match p.state.jobs.get? key with
                | some job => p.appendEvent key (.job .activatable) (.job job.toPayload)
                | none => p
              else p
    | _ => p.rejectUnexpectedValue

/-- Cancels a job. -/
def cancelJob : Handler := fun _ p =>
  withJobKey p .cancel fun key =>
    match p.onJobs (.cancel key) with
    | (.ok job, p) =>
        resolveIncident (p.appendAndRespond key (.job .canceled) (.job job.toPayload)) key
    | (.error cause, p) => p.refuse (.transition cause)

end InPlace

/-! ### States without loose ends -/

/-- Leases are in order, and so is the index of timers. -/
structure EngineState.Tidy (state : EngineState) : Prop where
  /-- Each job is under its own key, and the leases are those of the jobs. -/
  jobs : state.jobs.Booked
  /-- Each timer is under its own key, and the slots are those of the timers. -/
  timers : state.timers.Indexed

theorem EngineState.Tidy.initial (partitionId : Nat) : (EngineState.initial partitionId).Tidy :=
  ⟨JobLedger.booked_empty, TimerAgenda.indexed_empty⟩

theorem Accepted.tidy {evaluator : Evaluator} {state final : EngineState} {command : Record}
    {answer : Event} {others : List Event}
    (h : Accepted evaluator state command final answer others) (htidy : state.Tidy) : final.Tidy :=
  ⟨(h.booked htidy.jobs).1, h.reschedules.indexed htidy.timers⟩

/-! ### What the steps leave -/

namespace EngineState

variable (state : EngineState)

@[simp] theorem nextKey_processes : state.nextKey.2.processes = state.processes := rfl

@[simp] theorem nextKey_timers : state.nextKey.2.timers = state.timers := rfl

@[simp] theorem nextKey_jobs : state.nextKey.2.jobs = state.jobs := rfl

@[simp] theorem nextKey_incidents : state.nextKey.2.incidents = state.incidents := rfl

end EngineState

namespace Processing

/-- The state is replaced and events are appended. -/
def tell (p : Processing) (state : EngineState) (events : List Event) : Processing :=
  { p with
    state
    followUps := p.followUps ++ events.map fun event =>
      Draft.event p.command (some event.key) event.intent event.value }

section Tell

variable {p : Processing} {state later : EngineState} {events more : List Event}

@[simp] theorem tell_state : (p.tell state events).state = state := rfl

@[simp] theorem tell_command : (p.tell state events).command = p.command := rfl

theorem tell_self (p : Processing) : p.tell p.state [] = p := by
  rw [tell, List.map_nil, List.append_nil]

@[simp] theorem tell_tell :
    (p.tell state events).tell later more = p.tell later (events ++ more) := by
  simp only [tell, List.map_append, List.append_assoc]

@[simp] theorem write_eq : p.write state = p.tell state [] := by
  rw [tell, List.map_nil, List.append_nil, write]

@[simp] theorem nextKey_eq : p.nextKey = (p.state.nextKey.1, p.tell p.state.nextKey.2 []) := by
  rw [nextKey, write_eq]

@[simp] theorem appendEvent_eq (key : Nat) (intent : Intent) (value : Payload) :
    p.appendEvent key intent value = p.tell p.state [⟨key, intent, value⟩] := rfl

/-- Answers with an event. -/
def answer (p : Processing) (event : Event) : Processing :=
  p.appendAndRespond event.key event.intent event.value

@[simp] theorem answer_command (event : Event) : (p.answer event).command = p.command := rfl

/-- Whether the state is written before the answer or after it makes no difference. -/
@[simp] theorem appendAndRespond_tell (key : Nat) (intent : Intent) (value : Payload) :
    (p.tell state []).appendAndRespond key intent value =
      (p.answer ⟨key, intent, value⟩).tell state [] := by
  simp only [tell, answer, appendAndRespond, List.map_nil, List.append_nil]

/-- Carrying out an acceptance is to answer, to write and to tell. -/
@[simp] theorem perform_accept (event : Event) (others : List Event) :
    (Decision.accept state event others).perform p = (p.answer event).tell state others :=
  Decision.foldl_appendEvent others _

@[simp] theorem perform_refuse (refusal : Refusal) :
    (Decision.refuse refusal).perform p = p.refuse refusal := rfl

/-- A check that refuses comes before both. -/
theorem refuse_or {c : Prop} [Decidable c] {refusal : Refusal} {carriedOut : Processing}
    {decision : Decision} (h : carriedOut = decision.perform p) :
    (if c then p.refuse refusal else carriedOut) =
      (if c then .refuse refusal else decision : Decision).perform p := by
  by_cases hrefused : c
  · rw [if_pos hrefused, if_pos hrefused, perform_refuse]
  · rw [if_neg hrefused, if_neg hrefused, h]

/-- Takes over the jobs that an operation leaves, if it goes through. -/
def takeJobs {α : Type} (p : Processing) :
    Except JobError (α × JobLedger) → Except JobError α × Processing
  | .ok (told, jobs) => (.ok told, p.tell { p.state with jobs } [])
  | .error cause => (.error cause, p)

/-- A procedure that does what an operation of the jobs does leaves all else as it was. -/
theorem onJobs_settled {α : Type} {procedure : Procedure α}
    {result : Except JobError (α × JobLedger)}
    (hrun : procedure.run p.state.jobs = Procedure.settled p.state.jobs result) :
    p.onJobs procedure = p.takeJobs result := by
  cases result with
  | ok answered => simp only [onJobs, hrun, Procedure.settled, takeJobs, write_eq]
  | error cause => simp only [onJobs, hrun, Procedure.settled, takeJobs, write]

end Tell

end Processing

namespace InPlace

open Processing

theorem scheduleStart_eq (definitionKey : Nat) (p : Processing) (start : ResolvedStart) :
    scheduleStart definitionKey p start =
      let timer := startTimer p.state.nextKey.1 definitionKey p.command.position start
      p.tell { p.state.nextKey.2 with timers := p.state.timers.schedule timer }
        [⟨timer.key, .timer .created, .timer timer.toPayload⟩] := by
  simp [scheduleStart, schedule, startTimer, EngineState.nextKey]

/-- The timers of start events are scheduled one after the other. -/
theorem foldl_scheduleStart (definitionKey : Nat) (starts : List ResolvedStart) :
    ∀ p : Processing, starts.foldl (scheduleStart definitionKey) p =
      p.tell (scheduleStarts definitionKey p.command.position p.state starts).1
        (scheduleStarts definitionKey p.command.position p.state starts).2 := by
  induction starts with
  | nil => intro p; exact (tell_self p).symm
  | cons start rest ih =>
      intro p
      rw [List.foldl_cons, ih, scheduleStart_eq]
      exact tell_tell

theorem cancelStale_eq {p : Processing} {timer : Timer}
    (hpending : p.state.timers.get? timer.key = some timer) :
    cancelStale p timer.key = p.tell { p.state with timers := p.state.timers.erase timer.key }
      [⟨timer.key, .timer .canceled, .timer timer.toPayload⟩] := by
  simp [cancelStale, takeTimer, hpending]

/-- Timers that are pending when the first of them is taken off are all found: none is listed
twice. -/
theorem foldl_cancelStale (timers : List Timer)
    (hdistinct : timers.Pairwise fun a b => a.key ≠ b.key) :
    ∀ p : Processing, (∀ timer ∈ timers, p.state.timers.get? timer.key = some timer) →
      (timers.map Timer.key).foldl cancelStale p =
        p.tell (cancelTimers timers p.state).1 (cancelTimers timers p.state).2 := by
  induction timers with
  | nil => intro p _; exact (tell_self p).symm
  | cons timer rest ih =>
      intro p hpending
      obtain ⟨hfirst, hrest⟩ := List.pairwise_cons.mp hdistinct
      have hstill : ∀ other ∈ rest,
          (p.state.timers.erase timer.key).get? other.key = some other := by
        intro other ho
        rw [TimerAgenda.get?_erase, if_neg (hfirst other ho).symm]
        exact hpending other (List.mem_cons_of_mem _ ho)
      rw [List.map_cons, List.foldl_cons, cancelStale_eq (hpending timer List.mem_cons_self),
        ih hrest _ hstill]
      exact tell_tell

theorem startInstance_eq (p : Processing) (definition : ProcessDefinition)
    (elementId : Option String) :
    p.startInstance definition elementId =
      (p.state.nextKey.1, p.tell (Decide.startInstance p.state definition elementId).2 []) := by
  simp [Processing.startInstance, Decide.startInstance]

/-- An instance that was added is found. -/
theorem instance?_startInstance (state : EngineState) (definition : ProcessDefinition)
    (elementId : Option String) :
    (Decide.startInstance state definition elementId).2.processes.instance? state.nextKey.1 =
      some (Decide.startInstance state definition elementId).1 :=
  (SortedMap.get?_insert _ _ _ _).trans (if_pos rfl)

theorem key_startInstance (state : EngineState) (definition : ProcessDefinition)
    (elementId : Option String) :
    (Decide.startInstance state definition elementId).1.key = state.nextKey.1 := rfl

theorem fireStart_eq (p : Processing) (timer : Timer) :
    fireStart p timer =
      p.tell (Decide.fireStart p.state timer).1 (Decide.fireStart p.state timer).2 := by
  unfold fireStart Decide.fireStart
  by_cases hstart : timer.isStartEvent
  · rw [if_pos hstart, if_pos hstart]
    cases hdefinition : timer.definitionKey.bind p.state.processes.definition? with
    | none => exact (tell_self p).symm
    | some definition => simp [startInstance_eq, instance?_startInstance, key_startInstance]
  · rw [if_neg hstart, if_neg hstart]
    exact (tell_self p).symm

theorem scheduleSuccessor_eq (p : Processing) (timer : Timer) :
    scheduleSuccessor p timer =
      p.tell (Decide.scheduleSuccessor p.state timer p.command.position).1
        (Decide.scheduleSuccessor p.state timer p.command.position).2 := by
  unfold scheduleSuccessor Decide.scheduleSuccessor
  by_cases hrepeats : timer.repeats
  · rw [if_pos hrepeats, if_pos hrepeats]
    cases hnext : timer.successor? p.state.nextKey.1 p.command.position with
    | none => simp [hnext]
    | some next => simp [hnext, schedule]
  · rw [if_neg hrepeats, if_neg hrepeats]
    exact (tell_self p).symm

theorem resolveIncident_eq (p : Processing) (jobKey : Nat) :
    resolveIncident p jobKey =
      p.tell (Decide.resolveIncident p.state jobKey).1
        (Decide.resolveIncident p.state jobKey).2 := by
  unfold resolveIncident Decide.resolveIncident
  cases hfound : p.state.incidents.forJob jobKey with
  | none => exact (tell_self p).symm
  | some found =>
      dsimp only [Option.bind_some]
      cases hresolve : p.state.incidents.resolve found.key with
      | none => exact (tell_self p).symm
      | some resolved => simp

/-! ### The handlers -/

section Handlers

variable {evaluator : Evaluator} {p : Processing}

theorem deployResolved_eq (htidy : p.state.Tidy) (request : DeploymentPayload)
    (starts : List ResolvedStart) :
    deployResolved p request starts =
      (Decide.deployResolved p.state p.command.position request starts).perform p := by
  have hindexed := htidy.timers
  simp only [deployResolved, nextKey_eq, write_eq, tell_tell, tell_state, List.append_nil,
    appendAndRespond_tell, foldl_scheduleStart, EngineState.nextKey_timers]
  rw [foldl_cancelStale]
  · simp only [Decide.deployResolved, perform_accept, tell_tell, tell_state, tell_command,
      answer_command, List.nil_append]
    rfl
  · exact hindexed.startTimersOf_pairwise _
  · exact fun timer ht => hindexed.get?_of_mem_startTimersOf ht

theorem deploy_eq (htidy : p.state.Tidy) :
    deploy evaluator p = Policy.handler Decide.deploy evaluator p := by
  show _ = (Decide.deploy evaluator p.state p.command).perform p
  unfold deploy Decide.deploy
  cases hvalue : p.command.value with
  | deployment request =>
      simp only [Processing.now]
      refine refuse_or ?_
      cases hrepeated : repeatedElement? request.timerStarts with
      | some elementId => rfl
      | none =>
          dsimp only
          cases hstarts : resolveStarts evaluator p.command.timestamp request.timerStarts with
          | error failure => rfl
          | ok starts => exact deployResolved_eq htidy request starts
  | _ => rfl

theorem createInstance_eq :
    createInstance evaluator p = Policy.handler Decide.createInstance evaluator p := by
  show _ = (Decide.createInstance evaluator p.state p.command).perform p
  unfold createInstance Decide.createInstance
  cases hvalue : p.command.value with
  | processInstance request =>
      dsimp only
      cases hlatest : p.state.processes.latest? request.processId with
      | none => rfl
      | some definition => simp [startInstance_eq, instance?_startInstance, key_startInstance]
  | _ => rfl

theorem createTimer_eq :
    createTimer evaluator p = Policy.handler Decide.createTimer evaluator p := by
  show _ = (Decide.createTimer evaluator p.state p.command).perform p
  unfold createTimer Decide.createTimer
  cases hvalue : p.command.value with
  | timer request =>
      dsimp only
      cases hdefinition : request.definition with
      | none => rfl
      | some definition =>
          cases hinstance : request.instanceKey with
          | none => rfl
          | some instanceKey =>
              cases helement : request.elementInstanceKey with
              | none => rfl
              | some elementInstanceKey =>
                  dsimp only
                  cases howner : p.state.processes.instance? instanceKey with
                  | none => rfl
                  | some owner =>
                      simp only [Processing.now]
                      cases hresolve : definition.resolve p.command.timestamp evaluator
                          request.vars with
                      | ok resolved => simp [schedule]
                      | error cause => simp [raise]
  | _ => rfl

theorem triggerTimer_eq :
    triggerTimer evaluator p = Policy.handler Decide.triggerTimer evaluator p := by
  show _ = (Decide.triggerTimer evaluator p.state p.command).perform p
  unfold triggerTimer Decide.triggerTimer
  cases hkey : p.command.key with
  | none => rfl
  | some key =>
      dsimp only
      cases htimer : p.state.timers.get? key with
      | none => rfl
      | some timer =>
          show (if p.command.timestamp < timer.dueDate then _ else _) =
            Decision.perform (if p.command.timestamp < timer.dueDate then _ else _) p
          refine refuse_or ?_
          simp [takeTimer, htimer, fireStart_eq, scheduleSuccessor_eq]

theorem cancelTimer_eq :
    cancelTimer evaluator p = Policy.handler Decide.cancelTimer evaluator p := by
  show _ = (Decide.cancelTimer evaluator p.state p.command).perform p
  unfold cancelTimer Decide.cancelTimer
  cases hkey : p.command.key with
  | none => rfl
  | some key =>
      dsimp only [takeTimer]
      cases htimer : p.state.timers.get? key with
      | none => rfl
      | some timer => simp

theorem createJob_eq : createJob evaluator p = Policy.handler Decide.createJob evaluator p := by
  show _ = (Decide.createJob evaluator p.state p.command).perform p
  unfold createJob Decide.createJob
  cases hvalue : p.command.value with
  | job request =>
      dsimp only
      refine refuse_or (refuse_or ?_)
      cases hoffered : (p.state.jobs.create p.state.nextKey.1 request).2.markActivatable
          p.state.nextKey.1 with
      | none => simp [hoffered]
      | some offered => simp [hoffered]
  | _ => rfl

theorem activateJobs_eq :
    activateJobs evaluator p = Policy.handler Decide.activateJobs evaluator p := by
  show _ = (Decide.activateJobs evaluator p.state p.command).perform p
  unfold activateJobs Decide.activateJobs
  cases hvalue : p.command.value with
  | jobBatch request =>
      simp only [Processing.now]
      refine refuse_or (refuse_or (refuse_or ?_))
      simp
  | _ => rfl

theorem withJobKey_eq {operation : JobOperation} {carryOut : Nat → Processing}
    {decide : Nat → Decision}
    (h : ∀ key, carryOut key = (decide key).perform p) :
    withJobKey p operation carryOut =
      (Decide.withJobKey p.command operation decide).perform p := by
  unfold withJobKey Decide.withJobKey
  cases p.command.key with
  | none => rfl
  | some key => exact h key

theorem completeJob_eq (htidy : p.state.Tidy) :
    completeJob evaluator p = Policy.handler Decide.completeJob evaluator p := by
  refine withJobKey_eq fun key => ?_
  have hstep := onJobs_settled (Procedure.run_complete htidy.jobs.key key)
  cases hcomplete : p.state.jobs.complete key with
  | error cause => simp [hstep, takeJobs, hcomplete, rejectJob]
  | ok result =>
      obtain ⟨job, hget, -, hended, -⟩ := JobLedger.complete_ok hcomplete
      have hkey : result.1.key = key := by rw [hended]; exact htidy.jobs.key key job hget
      simp [hstep, takeJobs, hcomplete, jobEvent, hkey]

theorem failJob_eq (htidy : p.state.Tidy) :
    failJob evaluator p = Policy.handler Decide.failJob evaluator p := by
  refine withJobKey_eq fun key => ?_
  cases hvalue : p.command.value with
  | job request =>
      simp only [Processing.now]
      have hstep := onJobs_settled (Procedure.run_fail htidy.jobs.key key request.retryBackoff
        request.errorMessage p.command.timestamp)
      cases hfail : p.state.jobs.fail key request.retryBackoff request.errorMessage
          p.command.timestamp with
      | error cause => simp [hstep, takeJobs, hfail, rejectJob]
      | ok result =>
          obtain ⟨job, hget, -, hended, -⟩ := JobLedger.fail_ok hfail
          have hkey : result.1.key = key := by
            rw [hended, (JobLedger.failedJob_cases _ _ _ _).1]
            exact htidy.jobs.key key job hget
          by_cases hfailed : result.1.state = .failed
          · simp [hstep, takeJobs, hfail, openIncident, jobEvent, exhaustedJob, raise, hfailed,
              hkey]
          · simp [hstep, takeJobs, hfail, openIncident, jobEvent, hfailed, hkey]
  | _ => rfl

theorem timeOutJob_eq (htidy : p.state.Tidy) :
    timeOutJob evaluator p = Policy.handler Decide.timeOutJob evaluator p := by
  refine withJobKey_eq fun key => ?_
  cases hobserved : p.command.value.job?.bind JobPayload.deadline with
  | none => rfl
  | some observed =>
      simp only [Processing.now]
      have hstep := onJobs_settled
        (Procedure.run_timeOut htidy.jobs.key key observed p.command.timestamp)
      cases htimeOut : p.state.jobs.timeOut key observed p.command.timestamp with
      | error cause => simp [hstep, takeJobs, htimeOut, rejectJob]
      | ok result =>
          obtain ⟨job, hget, -, -, -, hended, -⟩ := JobLedger.timeOut_ok htimeOut
          have hkey : result.1.key = key := by rw [hended]; exact htidy.jobs.key key job hget
          simp [hstep, takeJobs, htimeOut, jobEvent, hkey]

theorem updateJobRetries_eq (htidy : p.state.Tidy) :
    updateJobRetries evaluator p = Policy.handler Decide.updateJobRetries evaluator p := by
  refine withJobKey_eq fun key => ?_
  cases hvalue : p.command.value with
  | job request =>
      dsimp only
      refine refuse_or ?_
      have hstep := onJobs_settled (Procedure.run_updateRetries htidy.jobs.key key request.retries)
      cases hupdate : p.state.jobs.updateRetries key request.retries with
      | error cause => simp [hstep, takeJobs, hupdate, rejectJob]
      | ok result =>
          obtain ⟨job, hget, hkey⟩ := JobLedger.exists_updateRetries htidy.jobs.key hupdate
          have hjobs : (Decide.resolveIncident { p.state with jobs := result.2 } key).1.jobs =
              result.2 := by
            obtain ⟨incidents, heq⟩ :=
              EngineState.resolveIncident_with { p.state with jobs := result.2 } key
            rw [heq]
          cases hrevived : result.1 with
          | false =>
              simp [hstep, takeJobs, hupdate, resolveIncident_eq, jobEvent, hget, hkey, hrevived]
          | true =>
              simp [hstep, takeJobs, hupdate, resolveIncident_eq, jobEvent, hget, hkey, hrevived,
                hjobs]
  | _ => rfl

theorem cancelJob_eq (htidy : p.state.Tidy) :
    cancelJob evaluator p = Policy.handler Decide.cancelJob evaluator p := by
  refine withJobKey_eq fun key => ?_
  have hstep := onJobs_settled (Procedure.run_cancel htidy.jobs.key key)
  cases hcancel : p.state.jobs.cancel key with
  | error cause => simp [hstep, takeJobs, hcancel, rejectJob]
  | ok result =>
      obtain ⟨job, hget, hended, -⟩ := JobLedger.cancel_ok hcancel
      have hkey : result.1.key = key := by rw [hended]; exact htidy.jobs.key key job hget
      simp [hstep, takeJobs, hcancel, jobEvent, resolveIncident_eq, hkey]

end Handlers

end InPlace

/-! ### An engine with these handlers -/

namespace Registry

/-- The registry of the handlers that work in place. -/
def inPlace : Registry where
  handlers :=
    [((.deployment, .deployment .create), InPlace.deploy),
      ((.processInstance, .processInstance .create), InPlace.createInstance),
      ((.timer, .timer .create), InPlace.createTimer),
      ((.timer, .timer .trigger), InPlace.triggerTimer),
      ((.timer, .timer .cancel), InPlace.cancelTimer),
      ((.job, .job .create), InPlace.createJob),
      ((.jobBatch, .jobBatch .activate), InPlace.activateJobs),
      ((.job, .job .complete), InPlace.completeJob), ((.job, .job .fail), InPlace.failJob),
      ((.job, .job .timeOut), InPlace.timeOutJob),
      ((.job, .job .updateRetries), InPlace.updateJobRetries),
      ((.job, .job .cancel), InPlace.cancelJob)]

/-- Two handlers do the same in tidy states. -/
def Agree (handler other : Handler) : Prop :=
  ∀ evaluator p, p.state.Tidy → handler evaluator p = other evaluator p

/-- The registries have the same commands in the same order, and their handlers agree. -/
theorem forall₂_handlers :
    List.Forall₂ (fun entry other => entry.1 = other.1 ∧ Agree entry.2 other.2)
      inPlace.handlers builtin.handlers :=
  .cons ⟨rfl, fun _ _ => InPlace.deploy_eq⟩ <|
  .cons ⟨rfl, fun _ _ _ => InPlace.createInstance_eq⟩ <|
  .cons ⟨rfl, fun _ _ _ => InPlace.createTimer_eq⟩ <|
  .cons ⟨rfl, fun _ _ _ => InPlace.triggerTimer_eq⟩ <|
  .cons ⟨rfl, fun _ _ _ => InPlace.cancelTimer_eq⟩ <|
  .cons ⟨rfl, fun _ _ _ => InPlace.createJob_eq⟩ <|
  .cons ⟨rfl, fun _ _ _ => InPlace.activateJobs_eq⟩ <|
  .cons ⟨rfl, fun _ _ => InPlace.completeJob_eq⟩ <|
  .cons ⟨rfl, fun _ _ => InPlace.failJob_eq⟩ <|
  .cons ⟨rfl, fun _ _ => InPlace.timeOutJob_eq⟩ <|
  .cons ⟨rfl, fun _ _ => InPlace.updateJobRetries_eq⟩ <|
  .cons ⟨rfl, fun _ _ => InPlace.cancelJob_eq⟩ .nil

/-- Looking up a command in lists that agree finds handlers that agree, or none in both. -/
theorem rel_lookup {handlers others : List ((ValueType × Intent) × Handler)}
    (h : List.Forall₂ (fun entry other => entry.1 = other.1 ∧ Agree entry.2 other.2)
      handlers others) (name : ValueType × Intent) :
    Option.Rel Agree (handlers.lookup name) (others.lookup name) := by
  induction h with
  | nil => exact .none
  | @cons entry other _ _ hsame _ ih =>
      rw [List.lookup_cons, List.lookup_cons, ← hsame.1]
      cases name == entry.1 with
      | false => exact ih
      | true => exact .some hsame.2

end Registry

namespace Processor

/-- The engine with handlers that work in place. -/
def inPlace (processor : Processor) : Processor := { processor with registry := .inPlace }

variable {processor : Processor}

/-- In a tidy state a command is processed in place as it is by the engine that runs. -/
theorem process_inPlace (hbuiltin : processor.registry = .builtin) (htidy : processor.state.Tidy)
    (command : Record) : processor.inPlace.process command = processor.process command := by
  have hlookup : Option.Rel Registry.Agree
      (Registry.inPlace.get? command.valueType command.intent)
      (processor.registry.get? command.valueType command.intent) := by
    rw [hbuiltin]
    exact Registry.rel_lookup Registry.forall₂_handlers _
  simp only [process, inPlace]
  generalize Registry.inPlace.get? command.valueType command.intent = found at hlookup ⊢
  generalize processor.registry.get? command.valueType command.intent = other at hlookup ⊢
  cases hlookup with
  | none => rfl
  | some hagree => simp only [hagree _ (Processing.start processor.state command) htidy]

/-- **In a tidy state a command is applied in place as it is by the engine that runs.** -/
theorem apply_inPlace (hbuiltin : processor.registry = .builtin) (htidy : processor.state.Tidy)
    (command : Record) :
    processor.inPlace.apply command =
      ((processor.apply command).1, (processor.apply command).2.inPlace) := by
  unfold apply
  rw [process_inPlace hbuiltin htidy]
  rfl

/-- States stay tidy. -/
theorem tidy_apply (hbuiltin : processor.registry = .builtin) (htidy : processor.state.Tidy)
    (command : Record) : (processor.apply command).2.state.Tidy := by
  rcases apply_cases hbuiltin command with hsame | ⟨answer, others, -, haccepted, -⟩
  · rwa [hsame]
  · exact haccepted.tidy htidy

theorem tidy_after (commands : List Record) :
    ∀ processor : Processor, processor.registry = .builtin → processor.state.Tidy →
      (processor.after commands).state.Tidy := by
  induction commands with
  | nil => intro processor _ htidy; exact htidy
  | cons command rest ih =>
      intro processor hbuiltin htidy
      exact ih _ hbuiltin (tidy_apply hbuiltin htidy command)

/-- **Whatever commands are applied, in place they lead to the same state.** -/
theorem after_inPlace (commands : List Record) :
    ∀ processor : Processor, processor.registry = .builtin → processor.state.Tidy →
      processor.inPlace.after commands = (processor.after commands).inPlace := by
  induction commands with
  | nil => intro processor _ _; rfl
  | cons command rest ih =>
      intro processor hbuiltin htidy
      rw [after, apply_inPlace hbuiltin htidy]
      exact ih _ hbuiltin (tidy_apply hbuiltin htidy command)

end Processor

end Workflow
