/-
The ways in which a command is accepted.

`Accepted` has one constructor for each way: what it asks of the state and the command, the state
it leaves behind, and its events.  It is the only place where the policies are opened
(`accepted_of_decision`); an invariant of the engine is proved by cases on it.

A command that is not accepted leaves the state as it is, so what is true of the empty state and
kept by each way of accepting is true after any commands (`after_induction`).
-/
import Workflow.Proofs.Engine.Outcome
import Workflow.Proofs.Job.Ledger

namespace Workflow

open Decide

/-- How a command is accepted, with the state that follows and the events. -/
inductive Accepted (evaluator : Evaluator) (state : EngineState) (command : Record) :
    EngineState → Event → List Event → Prop
  /-- A process is deployed. -/
  | deployed (request : DeploymentPayload) (starts : List ResolvedStart) {final : EngineState}
      {answer : Event} {others : List Event} (hintent : command.intent = .deployment .create)
      (hvalue : command.value = .deployment request)
      (hid : isBlankText request.processId = false)
      (hunique : repeatedElement? request.timerStarts = none)
      (hstarts : resolveStarts evaluator command.timestamp request.timerStarts = .ok starts)
      (hdeploy : deployResolved state command.position request starts =
        .accept final answer others) :
      Accepted evaluator state command final answer others
  /-- An instance is created. -/
  | instanceCreated (request : ProcessInstancePayload) (definition : ProcessDefinition)
      (hintent : command.intent = .processInstance .create)
      (hvalue : command.value = .processInstance request)
      (hlatest : state.processes.latest? request.processId = some definition) :
      Accepted evaluator state command (startInstance state definition none).2
        ⟨(startInstance state definition none).1.key, .processInstance .created,
          .processInstance ((startInstance state definition none).1.toPayload request.vars)⟩ []
  /-- A timer of an element is scheduled. -/
  | timerCreated (request : TimerPayload) (definition : TimerDefinition)
      (instanceKey elementInstanceKey : Nat) (owner : ProcessInstance) (resolved : ResolvedTimer)
      (hintent : command.intent = .timer .create) (hvalue : command.value = .timer request)
      (hdefinition : request.definition = some definition)
      (hinstance : request.instanceKey = some instanceKey)
      (helement : request.elementInstanceKey = some elementInstanceKey)
      (howner : state.processes.instance? instanceKey = some owner)
      (hresolved : definition.resolve command.timestamp evaluator request.vars = .ok resolved) :
      Accepted evaluator state command
        { state.nextKey.2 with
          timers := state.timers.schedule (elementTimer state.nextKey.1 command.position
            owner.definitionKey instanceKey elementInstanceKey request resolved) }
        ⟨state.nextKey.1, .timer .created,
          .timer (elementTimer state.nextKey.1 command.position owner.definitionKey instanceKey
            elementInstanceKey request resolved).toPayload⟩ []
  /-- The definition of a timer cannot be resolved, which is an incident. -/
  | timerUnresolved (request : TimerPayload) (definition : TimerDefinition)
      (instanceKey elementInstanceKey : Nat) (owner : ProcessInstance)
      (cause : TimerDefinitionError) (hintent : command.intent = .timer .create)
      (hvalue : command.value = .timer request)
      (hdefinition : request.definition = some definition)
      (hinstance : request.instanceKey = some instanceKey)
      (helement : request.elementInstanceKey = some elementInstanceKey)
      (howner : state.processes.instance? instanceKey = some owner)
      (hresolved : definition.resolve command.timestamp evaluator request.vars = .error cause) :
      Accepted evaluator state command
        { state.nextKey.2 with
          incidents := state.incidents.create state.nextKey.1
            (unresolvedTimer request instanceKey elementInstanceKey cause) }
        ⟨state.nextKey.1, .incident .created,
          .incident (unresolvedTimer request instanceKey elementInstanceKey cause)⟩ []
  /-- A timer fires. -/
  | timerFired (key : Nat) (timer : Timer) (hintent : command.intent = .timer .trigger)
      (hkey : command.key = some key) (htimer : state.timers.get? key = some timer)
      (hdue : timer.dueDate ≤ command.timestamp) :
      Accepted evaluator state command
        (scheduleSuccessor (fireStart { state with timers := state.timers.erase key } timer).1
          timer command.position).1
        ⟨key, .timer .triggered, .timer timer.toPayload⟩
        ((fireStart { state with timers := state.timers.erase key } timer).2 ++
          (scheduleSuccessor (fireStart { state with timers := state.timers.erase key } timer).1
            timer command.position).2)
  /-- A timer is canceled. -/
  | timerCanceled (key : Nat) (timer : Timer) (hintent : command.intent = .timer .cancel)
      (hkey : command.key = some key) (htimer : state.timers.get? key = some timer) :
      Accepted evaluator state command { state with timers := state.timers.erase key }
        ⟨key, .timer .canceled, .timer timer.toPayload⟩ []
  /-- A job is created and offered. -/
  | jobCreated (request : JobPayload) (offered : Job) (jobs : JobLedger)
      (hintent : command.intent = .job .create) (hvalue : command.value = .job request)
      (htype : isBlankText request.jobType = false) (hretries : 0 < request.retries)
      (hoffered : (state.jobs.create state.nextKey.1 request).2.markActivatable state.nextKey.1 =
        some (offered, jobs)) :
      Accepted evaluator state command { state.nextKey.2 with jobs }
        ⟨state.nextKey.1, .job .created,
          .job (state.jobs.create state.nextKey.1 request).1.toPayload⟩
        [⟨state.nextKey.1, .job .activatable, .job offered.toPayload⟩]
  /-- Jobs are leased. -/
  | jobsActivated (request : JobBatchPayload) (jobKeys : List Nat) (jobs : JobLedger)
      (hintent : command.intent = .jobBatch .activate) (hvalue : command.value = .jobBatch request)
      (htype : isBlankText request.jobType = false) (htimeout : request.timeout.isZero = false)
      (hmax : 0 < request.maxJobs)
      (hactivate : state.jobs.activate request.jobType request.worker request.timeout
        request.maxJobs command.timestamp = (jobKeys, jobs)) :
      Accepted evaluator state command { state.nextKey.2 with jobs }
        ⟨state.nextKey.1, .jobBatch .activated,
          .jobBatch { request with
            jobKeys, jobs := jobKeys.filterMap fun key => (jobs.get? key).map Job.toPayload }⟩ []
  /-- A job is completed. -/
  | jobCompleted (key : Nat) (job : Job) (jobs : JobLedger)
      (hintent : command.intent = .job .complete) (hkey : command.key = some key)
      (hcomplete : state.jobs.complete key = .ok (job, jobs)) :
      Accepted evaluator state command { state with jobs } (jobEvent .completed job) []
  /-- A job fails. -/
  | jobFailed (key : Nat) (request : JobPayload) (job : Job) (jobs : JobLedger)
      (hintent : command.intent = .job .fail) (hkey : command.key = some key)
      (hvalue : command.value = .job request)
      (hfail : state.jobs.fail key request.retryBackoff request.errorMessage command.timestamp =
        .ok (job, jobs)) :
      Accepted evaluator state command (openIncident { state with jobs } job).1
        (jobEvent .failed job) (openIncident { state with jobs } job).2
  /-- A lease is reclaimed. -/
  | jobTimedOut (key : Nat) (observed : Instant) (job : Job) (jobs : JobLedger)
      (hintent : command.intent = .job .timeOut) (hkey : command.key = some key)
      (hobserved : command.value.job?.bind JobPayload.deadline = some observed)
      (htimeOut : state.jobs.timeOut key observed command.timestamp = .ok (job, jobs)) :
      Accepted evaluator state command { state with jobs } (jobEvent .timedOut job) []
  /-- A job gets new retries. -/
  | retriesUpdated (key : Nat) (request : JobPayload) (revived : Bool) (job : Job)
      (jobs : JobLedger) (hintent : command.intent = .job .updateRetries)
      (hkey : command.key = some key) (hvalue : command.value = .job request)
      (hretries : 0 < request.retries)
      (hupdate : state.jobs.updateRetries key request.retries = .ok (revived, jobs))
      (hjob : jobs.get? key = some job) :
      Accepted evaluator state command (resolveIncident { state with jobs } key).1
        (jobEvent .retriesUpdated job)
        ((resolveIncident { state with jobs } key).2 ++
          if revived then [jobEvent .activatable job] else [])
  /-- A job is canceled. -/
  | jobCanceled (key : Nat) (job : Job) (jobs : JobLedger)
      (hintent : command.intent = .job .cancel) (hkey : command.key = some key)
      (hcancel : state.jobs.cancel key = .ok (job, jobs)) :
      Accepted evaluator state command (resolveIncident { state with jobs } key).1
        (jobEvent .canceled job) (resolveIncident { state with jobs } key).2

/-! ### Opening the policies -/

section Policies

variable {evaluator : Evaluator} {state final : EngineState} {command : Record} {answer : Event}
  {others : List Event}

theorem accepted_of_deploy (hintent : command.intent = .deployment .create)
    (h : deploy evaluator state command = .accept final answer others) :
    Accepted evaluator state command final answer others := by
  unfold deploy at h
  cases hvalue : command.value with
  | deployment request =>
      rw [hvalue] at h
      dsimp only at h
      by_cases hid : isBlankText request.processId
      · rw [if_pos hid] at h
        cases h
      rw [if_neg hid] at h
      cases hunique : repeatedElement? request.timerStarts with
      | some elementId => rw [hunique] at h; cases h
      | none =>
          rw [hunique] at h
          dsimp only at h
          cases hstarts : resolveStarts evaluator command.timestamp request.timerStarts with
          | error cause => rw [hstarts] at h; cases h
          | ok starts =>
              rw [hstarts] at h
              exact .deployed request starts hintent hvalue (by simpa using hid) hunique hstarts h
  | _ => rw [hvalue] at h; cases h

theorem accepted_of_createInstance (hintent : command.intent = .processInstance .create)
    (h : createInstance evaluator state command = .accept final answer others) :
    Accepted evaluator state command final answer others := by
  unfold createInstance at h
  cases hvalue : command.value with
  | processInstance request =>
      rw [hvalue] at h
      dsimp only at h
      cases hlatest : state.processes.latest? request.processId with
      | none => rw [hlatest] at h; cases h
      | some definition =>
          rw [hlatest] at h
          cases h
          exact .instanceCreated request definition hintent hvalue hlatest
  | _ => rw [hvalue] at h; cases h

theorem accepted_of_createTimer (hintent : command.intent = .timer .create)
    (h : createTimer evaluator state command = .accept final answer others) :
    Accepted evaluator state command final answer others := by
  unfold createTimer at h
  cases hvalue : command.value with
  | timer request =>
      rw [hvalue] at h
      dsimp only at h
      cases hdefinition : request.definition with
      | none => rw [hdefinition] at h; cases h
      | some definition =>
          cases hinstance : request.instanceKey with
          | none => rw [hdefinition, hinstance] at h; cases h
          | some instanceKey =>
              cases helement : request.elementInstanceKey with
              | none => rw [hdefinition, hinstance, helement] at h; cases h
              | some elementInstanceKey =>
                  rw [hdefinition, hinstance, helement] at h
                  dsimp only at h
                  cases howner : state.processes.instance? instanceKey with
                  | none => rw [howner] at h; cases h
                  | some owner =>
                      rw [howner] at h
                      dsimp only at h
                      cases hresolved :
                          definition.resolve command.timestamp evaluator request.vars with
                      | ok resolved =>
                          rw [hresolved] at h
                          cases h
                          exact .timerCreated request definition instanceKey elementInstanceKey
                            owner resolved hintent hvalue hdefinition hinstance helement howner
                            hresolved
                      | error cause =>
                          rw [hresolved] at h
                          cases h
                          exact .timerUnresolved request definition instanceKey
                            elementInstanceKey owner cause hintent hvalue hdefinition hinstance
                            helement howner hresolved
  | _ => rw [hvalue] at h; cases h

theorem accepted_of_triggerTimer (hintent : command.intent = .timer .trigger)
    (h : triggerTimer evaluator state command = .accept final answer others) :
    Accepted evaluator state command final answer others := by
  unfold triggerTimer at h
  cases hkey : command.key with
  | none => rw [hkey] at h; cases h
  | some key =>
      rw [hkey] at h
      dsimp only at h
      cases htimer : state.timers.get? key with
      | none => rw [htimer] at h; cases h
      | some timer =>
          rw [htimer] at h
          dsimp only at h
          by_cases hdue : command.timestamp < timer.dueDate
          · rw [if_pos hdue] at h
            cases h
          · rw [if_neg hdue] at h
            cases h
            exact .timerFired key timer hintent hkey htimer ((Instant.not_lt _ _).mp hdue)

theorem accepted_of_cancelTimer (hintent : command.intent = .timer .cancel)
    (h : cancelTimer evaluator state command = .accept final answer others) :
    Accepted evaluator state command final answer others := by
  unfold cancelTimer at h
  cases hkey : command.key with
  | none => rw [hkey] at h; cases h
  | some key =>
      rw [hkey] at h
      dsimp only at h
      cases htimer : state.timers.get? key with
      | none => rw [htimer] at h; cases h
      | some timer =>
          rw [htimer] at h
          cases h
          exact .timerCanceled key timer hintent hkey htimer

theorem accepted_of_createJob (hintent : command.intent = .job .create)
    (h : createJob evaluator state command = .accept final answer others) :
    Accepted evaluator state command final answer others := by
  unfold createJob at h
  cases hvalue : command.value with
  | job request =>
      rw [hvalue] at h
      dsimp only at h
      by_cases htype : isBlankText request.jobType
      · rw [if_pos htype] at h
        cases h
      rw [if_neg htype] at h
      by_cases hretries : request.retries = 0
      · rw [if_pos hretries] at h
        cases h
      rw [if_neg hretries] at h
      cases hoffered :
          (state.jobs.create state.nextKey.1 request).2.markActivatable state.nextKey.1 with
      | none =>
          -- What was created is in the ledger, so it can be offered.
          exfalso
          unfold JobLedger.markActivatable JobLedger.create at hoffered
          cases hget : state.jobs.get? state.nextKey.1 with
          | none => rw [hget] at hoffered; simp [JobLedger.get?_put, Job.ofPayload] at hoffered
          | some job => rw [hget] at hoffered; simp [hget] at hoffered
      | some result =>
          obtain ⟨offered, jobs⟩ := result
          have hjobs : state.nextKey.2.jobs = state.jobs := rfl
          simp only [hjobs, hoffered] at h
          cases h
          exact .jobCreated request offered jobs hintent hvalue (by simpa using htype)
            (Nat.pos_of_ne_zero hretries) hoffered
  | _ => rw [hvalue] at h; cases h

theorem accepted_of_activateJobs (hintent : command.intent = .jobBatch .activate)
    (h : activateJobs evaluator state command = .accept final answer others) :
    Accepted evaluator state command final answer others := by
  unfold activateJobs at h
  cases hvalue : command.value with
  | jobBatch request =>
      rw [hvalue] at h
      dsimp only at h
      by_cases htype : isBlankText request.jobType
      · rw [if_pos htype] at h
        cases h
      rw [if_neg htype] at h
      by_cases htimeout : request.timeout.isZero
      · rw [if_pos htimeout] at h
        cases h
      rw [if_neg htimeout] at h
      by_cases hmax : request.maxJobs = 0
      · rw [if_pos hmax] at h
        cases h
      rw [if_neg hmax] at h
      cases h
      exact .jobsActivated request _ _ hintent hvalue (by simpa using htype)
        (by simpa using htimeout) (Nat.pos_of_ne_zero hmax) rfl
  | _ => rw [hvalue] at h; cases h

/-- A command that must name a job does. -/
theorem key_of_withJobKey {operation : JobOperation} {decide : Nat → Decision}
    (h : withJobKey command operation decide = .accept final answer others) :
    ∃ key, command.key = some key ∧ decide key = .accept final answer others := by
  unfold withJobKey at h
  cases hkey : command.key with
  | none => rw [hkey] at h; cases h
  | some key =>
      rw [hkey] at h
      exact ⟨key, rfl, h⟩

theorem accepted_of_completeJob (hintent : command.intent = .job .complete)
    (h : completeJob evaluator state command = .accept final answer others) :
    Accepted evaluator state command final answer others := by
  obtain ⟨key, hkey, h⟩ := key_of_withJobKey h
  cases hcomplete : state.jobs.complete key with
  | error cause => rw [hcomplete] at h; cases h
  | ok result =>
      obtain ⟨job, jobs⟩ := result
      rw [hcomplete] at h
      cases h
      exact .jobCompleted key job jobs hintent hkey hcomplete

theorem accepted_of_failJob (hintent : command.intent = .job .fail)
    (h : failJob evaluator state command = .accept final answer others) :
    Accepted evaluator state command final answer others := by
  obtain ⟨key, hkey, h⟩ := key_of_withJobKey h
  cases hvalue : command.value with
  | job request =>
      rw [hvalue] at h
      dsimp only at h
      cases hfail : state.jobs.fail key request.retryBackoff request.errorMessage
          command.timestamp with
      | error cause => rw [hfail] at h; cases h
      | ok result =>
          obtain ⟨job, jobs⟩ := result
          rw [hfail] at h
          cases h
          exact .jobFailed key request job jobs hintent hkey hvalue hfail
  | _ => rw [hvalue] at h; cases h

theorem accepted_of_timeOutJob (hintent : command.intent = .job .timeOut)
    (h : timeOutJob evaluator state command = .accept final answer others) :
    Accepted evaluator state command final answer others := by
  obtain ⟨key, hkey, h⟩ := key_of_withJobKey h
  cases hobserved : command.value.job?.bind JobPayload.deadline with
  | none => rw [hobserved] at h; cases h
  | some observed =>
      rw [hobserved] at h
      dsimp only at h
      cases htimeOut : state.jobs.timeOut key observed command.timestamp with
      | error cause => rw [htimeOut] at h; cases h
      | ok result =>
          obtain ⟨job, jobs⟩ := result
          rw [htimeOut] at h
          cases h
          exact .jobTimedOut key observed job jobs hintent hkey hobserved htimeOut

theorem accepted_of_updateJobRetries (hintent : command.intent = .job .updateRetries)
    (h : updateJobRetries evaluator state command = .accept final answer others) :
    Accepted evaluator state command final answer others := by
  obtain ⟨key, hkey, h⟩ := key_of_withJobKey h
  cases hvalue : command.value with
  | job request =>
      rw [hvalue] at h
      dsimp only at h
      by_cases hretries : request.retries = 0
      · rw [if_pos hretries] at h
        cases h
      rw [if_neg hretries] at h
      cases hupdate : state.jobs.updateRetries key request.retries with
      | error cause => rw [hupdate] at h; cases h
      | ok result =>
          obtain ⟨revived, jobs⟩ := result
          rw [hupdate] at h
          dsimp only at h
          cases hjob : jobs.get? key with
          | none => rw [hjob] at h; cases h
          | some job =>
              rw [hjob] at h
              cases h
              exact .retriesUpdated key request revived job jobs hintent hkey hvalue
                (Nat.pos_of_ne_zero hretries) hupdate hjob
  | _ => rw [hvalue] at h; cases h

theorem accepted_of_cancelJob (hintent : command.intent = .job .cancel)
    (h : cancelJob evaluator state command = .accept final answer others) :
    Accepted evaluator state command final answer others := by
  obtain ⟨key, hkey, h⟩ := key_of_withJobKey h
  cases hcancel : state.jobs.cancel key with
  | error cause => rw [hcancel] at h; cases h
  | ok result =>
      obtain ⟨job, jobs⟩ := result
      rw [hcancel] at h
      cases h
      exact .jobCanceled key job jobs hintent hkey hcancel

/-- **A decision to accept is one of these ways.** -/
theorem accepted_of_decision
    (h : Processor.decision evaluator state command = .accept final answer others) :
    Accepted evaluator state command final answer others := by
  unfold Processor.decision at h
  by_cases hconsistent : Processor.isConsistent command
  · rw [if_pos hconsistent] at h
    cases hlookup : Registry.builtinPolicies.lookup command.intent with
    | none => rw [hlookup] at h; cases h
    | some policy =>
        rw [hlookup] at h
        dsimp only at h
        obtain ⟨before, after, hsplit, -⟩ := List.lookup_eq_some_iff.mp hlookup
        have hmem : (command.intent, policy) ∈ Registry.builtinPolicies := by
          rw [hsplit]
          exact List.mem_append_right _ List.mem_cons_self
        simp only [Registry.builtinPolicies, List.mem_cons, Prod.mk.injEq, List.not_mem_nil,
          or_false] at hmem
        rcases hmem with ⟨hintent, rfl⟩ | ⟨hintent, rfl⟩ | ⟨hintent, rfl⟩ | ⟨hintent, rfl⟩ |
          ⟨hintent, rfl⟩ | ⟨hintent, rfl⟩ | ⟨hintent, rfl⟩ | ⟨hintent, rfl⟩ | ⟨hintent, rfl⟩ |
          ⟨hintent, rfl⟩ | ⟨hintent, rfl⟩ | ⟨hintent, rfl⟩
        · exact accepted_of_deploy hintent h
        · exact accepted_of_createInstance hintent h
        · exact accepted_of_createTimer hintent h
        · exact accepted_of_triggerTimer hintent h
        · exact accepted_of_cancelTimer hintent h
        · exact accepted_of_createJob hintent h
        · exact accepted_of_activateJobs hintent h
        · exact accepted_of_completeJob hintent h
        · exact accepted_of_failJob hintent h
        · exact accepted_of_timeOutJob hintent h
        · exact accepted_of_updateJobRetries hintent h
        · exact accepted_of_cancelJob hintent h
  · rw [if_neg hconsistent] at h
    cases h

end Policies

/-! ### Invariants of the engine -/

namespace Processor

/-- Applying a record accepts a command, or leaves the state as it is. -/
theorem apply_cases {processor : Processor} (hbuiltin : processor.registry = .builtin)
    (command : Record) :
    (processor.apply command).2.state = processor.state ∨
      ∃ answer others, command.isCommand = true ∧
        Accepted processor.evaluator processor.state command (processor.apply command).2.state
          answer others ∧
        (processor.apply command).1.followUps = (answer :: others).map fun event =>
          Draft.event command (some event.key) event.intent event.value := by
  by_cases hcommand : command.isCommand
  · rw [apply_command hbuiltin hcommand]
    cases hdecision : decision processor.evaluator processor.state command with
    | reject type reason => exact .inl rfl
    | confirm key intent => exact .inl rfl
    | accept final answer others =>
        exact .inr ⟨answer, others, hcommand, accepted_of_decision hdecision, rfl⟩
  · rw [apply_of_not_command (by simpa using hcommand)]
    exact .inl rfl

/-- **What each way of accepting keeps is kept by any commands.** -/
theorem after_induction (evaluator : Evaluator) (invariant : EngineState → Prop)
    (hstep : ∀ state command final answer others, invariant state →
      Accepted evaluator state command final answer others → invariant final)
    (commands : List Record) :
    ∀ processor : Processor, processor.registry = .builtin → processor.evaluator = evaluator →
      invariant processor.state → invariant (processor.after commands).state := by
  induction commands with
  | nil => intro processor _ _ h; exact h
  | cons command rest ih =>
      intro processor hbuiltin hevaluator h
      refine ih (processor.apply command).2 hbuiltin hevaluator ?_
      rcases apply_cases hbuiltin command with hsame | ⟨answer, others, -, haccepted, -⟩
      · rw [hsame]
        exact h
      · rw [hevaluator] at haccepted
        exact hstep _ _ _ _ _ h haccepted

end Processor

end Workflow
