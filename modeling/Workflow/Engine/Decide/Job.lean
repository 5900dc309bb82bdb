/-
Decisions about jobs and batches of jobs.

A job that is out of retries opens an incident; giving it new retries, or canceling it, resolves
that incident.
-/
import Workflow.Engine.Decision
import Workflow.Text.Blank

namespace Workflow.Decide

/-- The event of a job. -/
def jobEvent (intent : JobIntent) (job : Job) : Event := ⟨job.key, .job intent, .job job.toPayload⟩

/-- Refuses a command for the reason that a transition of a job was refused. -/
def rejectJob (cause : JobError) : Decision := .refuse (.transition cause)

/-- Decides about a command that must name a job. -/
def withJobKey (command : Record) (operation : JobOperation) (decide : Nat → Decision) : Decision :=
  match command.key with
  | none => .refuse (.noJobKey operation)
  | some key => decide key

/-- Resolves the open incident of a job, if there is one. -/
def resolveIncident (state : EngineState) (jobKey : Nat) : EngineState × List Event :=
  let incident? := state.incidents.forJob jobKey
  match incident?.bind fun incident => state.incidents.resolve incident.key with
  | none => (state, [])
  | some (incident, incidents) =>
      ({ state with incidents },
        [⟨incident.key, .incident .resolved, .incident incident.value⟩])

/-- Decides about the creation of a job. -/
def createJob : Policy := fun _ state command =>
  match command.value with
  | .job request =>
      if isBlankText request.jobType then .refuse .blankJobType
      else if request.retries = 0 then .refuse .noRetries
      else
        let (key, state) := state.nextKey
        let (created, jobs) := state.jobs.create key request
        let answer : Event := ⟨key, .job .created, .job created.toPayload⟩
        match jobs.markActivatable key with
        | none => .accept { state with jobs } answer []
        | some (offered, jobs) =>
            .accept { state with jobs } answer [⟨key, .job .activatable, .job offered.toPayload⟩]
  | _ => .unexpectedValue command

/-- Decides about the activation of jobs. -/
def activateJobs : Policy := fun _ state command =>
  match command.value with
  | .jobBatch request =>
      if isBlankText request.jobType then .refuse .blankBatchType
      else if request.timeout.isZero then .refuse .zeroTimeout
      else if request.maxJobs = 0 then .refuse .zeroJobs
      else
        let (jobKeys, jobs) := state.jobs.activate request.jobType request.worker request.timeout
          request.maxJobs command.timestamp
        let activated := jobKeys.filterMap fun key => (jobs.get? key).map Job.toPayload
        let (key, state) := { state with jobs }.nextKey
        .accept state
          ⟨key, .jobBatch .activated, .jobBatch { request with jobKeys, jobs := activated }⟩ []
  | _ => .unexpectedValue command

/-- Decides about the completion of a job. -/
def completeJob : Policy := fun _ state command =>
  withJobKey command .complete fun key =>
    match state.jobs.complete key with
    | .ok (job, jobs) => .accept { state with jobs } (jobEvent .completed job) []
    | .error cause => rejectJob cause

/-- The incident of a job that is out of retries. -/
def exhaustedJob (job : Job) : IncidentPayload :=
  { cause := .jobNoRetries, errorMessage := job.errorMessage.getD "No more retries left.",
    jobKey := some job.key, instanceKey := job.instanceKey, elementId := job.elementId }

/-- Opens the incident of a job, if it failed for good. -/
def openIncident (state : EngineState) (job : Job) : EngineState × List Event :=
  if job.state = .failed then
    let (key, state) := state.nextKey
    let incident := exhaustedJob job
    ({ state with incidents := state.incidents.create key incident },
      [⟨key, .incident .created, .incident incident⟩])
  else (state, [])

/-- Decides about the failure of a job. -/
def failJob : Policy := fun _ state command =>
  withJobKey command .fail fun key =>
    match command.value with
    | .job request =>
        match state.jobs.fail key request.retryBackoff request.errorMessage command.timestamp with
        | .ok (job, jobs) =>
            let (final, events) := openIncident { state with jobs } job
            .accept final (jobEvent .failed job) events
        | .error cause => rejectJob cause
    | _ => .unexpectedValue command

/-- Decides about reclaiming a lease that was seen to expire. -/
def timeOutJob : Policy := fun _ state command =>
  withJobKey command .timeOut fun key =>
    match command.value.job?.bind JobPayload.deadline with
    | none => .refuse (.noDeadline key)
    | some observed =>
        match state.jobs.timeOut key observed command.timestamp with
        | .ok (job, jobs) => .accept { state with jobs } (jobEvent .timedOut job) []
        | .error cause => rejectJob cause

/-- Decides about new retries for a job. -/
def updateJobRetries : Policy := fun _ state command =>
  withJobKey command .updateRetries fun key =>
    match command.value with
    | .job request =>
        if request.retries = 0 then .refuse (.zeroRetries key)
        else
          match state.jobs.updateRetries key request.retries with
          | .error cause => rejectJob cause
          | .ok (revived, jobs) =>
              match jobs.get? key with
              -- Not reached: what was updated is in the ledger (`JobLedger.exists_updateRetries`).
              | none => rejectJob (.notFound key .updateRetries)
              | some job =>
                  let (final, resolved) := resolveIncident { state with jobs } key
                  .accept final (jobEvent .retriesUpdated job)
                    (resolved ++ if revived then [jobEvent .activatable job] else [])
    | _ => .unexpectedValue command

/-- Decides about the cancellation of a job. -/
def cancelJob : Policy := fun _ state command =>
  withJobKey command .cancel fun key =>
    match state.jobs.cancel key with
    | .ok (job, jobs) =>
        let (final, resolved) := resolveIncident { state with jobs } key
        .accept final (jobEvent .canceled job) resolved
    | .error cause => rejectJob cause

end Workflow.Decide
