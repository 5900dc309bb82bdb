/-
Which jobs a completed operation has reached.

A job is reached when the operation's command for it was accepted, and the event is in the log
(`Partition.Reached`).  An operation that is completed has reached the jobs that it holds.  These
are the first of the jobs that had an open incident when it departed, and all of them unless an
append was refused in that batch (`completed_reached`).

The executor goes on with the commands that it could send, so without the last condition a completed
operation may have missed a job (`completed_short`).
-/
import Workflow.Proofs.Broker.Course
import Workflow.Proofs.Engine.Contract
import Workflow.Proofs.Job.Booking
import Workflow.Proofs.Job.Incident

namespace Workflow

/-! ### Accepted commands -/

/-- A command that is to update the retries of a job, and is not rejected, has updated them. -/
theorem Processor.retriesUpdated_of_response {processor : Processor} {command : Record}
    {response : Response} {key : Nat} (hbuiltin : processor.registry = .builtin)
    (hbooked : processor.state.jobs.Booked) (hcommand : command.isCommand)
    (hintent : command.intent = .job .updateRetries) (hkey : command.key = some key)
    (hresponse : (processor.apply command).1.response = some response)
    (haccepted : response.isRejection = false) :
    ∃ draft ∈ (processor.apply command).1.followUps, draft.kind = .event ∧
      draft.key = some key ∧ draft.intent = .job .retriesUpdated := by
  rw [apply_command hbuiltin hcommand] at hresponse ⊢
  dsimp only at hresponse ⊢
  obtain ⟨correlation, -, rfl⟩ := Option.map_eq_some_iff.mp hresponse
  cases hdecision : decision processor.evaluator processor.state command with
  | reject type reason =>
      rw [hdecision] at haccepted
      cases haccepted
  | confirm other intent =>
      obtain ⟨-, hcancel, -⟩ := of_decision_confirm hdecision
      cases hintent.symm.trans hcancel
  | accept final answer others =>
      refine ⟨_, List.mem_cons_self, rfl, ?_⟩
      cases accepted_of_decision hdecision with
      | retriesUpdated subject request revived job jobs hown hsubject hvalue hpos hupdate hjob =>
          cases hkey.symm.trans hsubject
          exact ⟨congrArg some ((hbooked.updateRetries hupdate).1.key _ _ hjob), rfl⟩
      -- The other ways of accepting are for other intents.
      | _ => simp_all

namespace Partition

/-- The command of a request has updated the retries of a job. -/
structure Reached (p : Partition) (pending : PendingResponse) (key : Nat) : Prop where
  /-- The command is in the log. -/
  command : ∃ command ∈ p.records, command.position = pending.position ∧
    command.isCommand = true ∧ command.correlation = some pending.correlation ∧
      command.intent = .job .updateRetries ∧ command.key = some key
  /-- Its event is. -/
  event : ∃ event ∈ p.records, event.sourcePosition = some pending.position ∧
    event.kind = .event ∧ event.intent = .job .retriesUpdated ∧ event.key = some key

end Partition

namespace Broker

variable {evaluator : Evaluator} {b : Broker} {s : Session}

/-- **A request whose response is no rejection has reached its job.** -/
theorem Backed.reached (h : Backed evaluator b s) {pending : PendingResponse}
    {request : CommandRequest} {response : Response} {key : Nat}
    (hasked : s.Asked b.executor.streamId request pending) (hkey : request.key = some key)
    (hintent : request.intent = .job .updateRetries)
    (hreceived : (pending.ticket, response) ∈ s.received)
    (haccepted : response.isRejection = false) : b.partition.Reached pending key := by
  obtain ⟨hsent, hstream, own, hown, hposition, hcommand, hname, hownKey, hownIntent⟩ := hasked
  obtain ⟨command, hcommandName, hanswers⟩ :=
    h.sound.answered pending hsent response (List.mem_append_right _ hreceived)
  rw [h.same] at hown hanswers
  -- The name belongs to one command, so it is its own command that was answered.
  cases h.named.once own hown command hanswers.mem hcommand hanswers.kind _ hname hcommandName
    hstream
  obtain ⟨draft, hdraft, hkind, hdraftKey, hdraftIntent⟩ :=
    Processor.retriesUpdated_of_response (Processor.after_registry _ _)
      (Processor.booked_after _ _ _) hcommand (hownIntent.trans hintent) (hownKey.trans hkey)
      hanswers.response haccepted
  refine ⟨⟨own, hown, hposition, hcommand, hname, hownIntent.trans hintent,
    hownKey.trans hkey⟩, ?_⟩
  have hlogged : draft ∈ Recovery.followUpsOf b.partition.records own.position := by
    rw [hanswers.followUps]
    exact hdraft
  obtain ⟨event, hevent, rfl⟩ := List.mem_map.mp hlogged
  obtain ⟨hmem, hsource⟩ := List.mem_filter.mp hevent
  refine ⟨event, hmem, ?_, hkind, hdraftIntent, hdraftKey⟩
  rw [← hposition]
  simpa using hsource

end Broker

namespace Partition

variable {evaluator : Evaluator} {p : Partition}

/-- While keys fit into their counter, the job of an open incident is live, so all such jobs are
sent commands for. -/
theorem Built.troubledKeys_eq (h : Built evaluator p)
    (hcapacity : p.state.keyCounter < 2 ^ keyCounterBits) (instanceKey : Nat) :
    Broker.troubledKeys p instanceKey =
      (p.activeIncidents instanceKey).filterMap fun incident => incident.value.jobKey := by
  obtain ⟨commands, hprocessor⟩ := h
  unfold state at hcapacity
  have haligned : EngineState.Aligned p.processor.state := by
    rw [hprocessor] at hcapacity ⊢
    exact EngineState.aligned_after _ _ commands hcapacity
  unfold Broker.troubledKeys Broker.troubledJobs
  rw [List.map_filterMap]
  refine List.filterMap_congr fun incident hi => ?_
  cases hnames : incident.value.jobKey with
  | none => rfl
  | some key =>
      obtain ⟨job, hget, hfailed⟩ :=
        haligned.failed_of_active (List.mem_of_mem_filter hi) hnames
      simp [job?, state, hget, hfailed, JobState.isTerminal]

end Partition

namespace BrokerRun

open Broker
open EngineState (keyAt)

/-- **A completed operation has reached its jobs**, in every run of an executor that has its stream
to itself.  The operation departed in one batch.  Its jobs are the first of those that had an open
incident in its instance then, and all of them unless an append was refused in that batch.  The
command that it sent for each of them has updated its retries. -/
theorem completed_reached {site : Site} {settings : BrokerSettings} {b : Broker}
    (hbuiltin : settings.registry = .builtin)
    (hhost : site.host.Kept settings.evaluator settings.partition.partitionId)
    (hstream : ∀ command ∈ site.host.link.log.records, command.isCommand → ∀ name,
      command.correlation = some name → name.streamId ≠ settings.executorStream)
    (hempty : site.store.store.entries = []) (hopen : Broker.open site settings = .ok b)
    (actions : List BrokerAction) :
    let r := BrokerRun.runAll { broker := b } actions
    ∀ operation ∈ r.broker.store.store.entries, operation.state = .completed →
      ∃ d, r.batches.filter (fun b => b.dispatches operation.id) = [d] ∧
        operation.jobKeys ≠ [] ∧
        operation.jobKeys <+: troubledKeys d.partition operation.targetKey ∧
        (operation.jobKeys = troubledKeys d.partition operation.targetKey ∨
          d.partition.host.link.Refused d.executeBatch.2.partition.host.link) ∧
        (d.partition.state.keyCounter < 2 ^ keyCounterBits →
          troubledKeys d.partition operation.targetKey =
            (d.partition.activeIncidents operation.targetKey).filterMap
              fun incident => incident.value.jobKey) ∧
        ∃ flight, d.executeBatch.2.flight? operation.id = some flight ∧
          flight.jobKeys = operation.jobKeys ∧
          ∀ key ∈ operation.jobKeys, ∃ pending ∈ flight.waiting,
            r.broker.partition.Reached pending key := by
  intro r operation ho hcompleted
  obtain ⟨s, departure, hlogged⟩ := Logged.runAll actions _ _ _
    (logged_of_open hbuiltin hhost hstream hempty hopen operation.id)
  have hstored : r.broker.stored? operation.id = some operation :=
    OperationStore.get?_of_mem ho
  -- What is completed has landed.
  cases hlogged.status with
  | grounded _ hopen' =>
      rcases hopen' operation hstored with hstate | hstate <;> cases hcompleted.symm.trans hstate
  | away _ hget _ hopen' _ _ =>
      cases hget.symm.trans hstored
      rcases hopen' with hstate | ⟨hstate, -⟩ <;> cases hcompleted.symm.trans hstate
  | @landed departure _ _ hget hinstance hend hlaunched =>
      cases hget.symm.trans hstored
      obtain hstate | ⟨-, hkeys, hanswered⟩ := hend
      · cases hcompleted.symm.trans hstate
      cases hlogged.recorded with
      | once hone hbuilt hflight hfirst hall =>
          rw [hinstance, hkeys]
          refine ⟨departure.broker, hone, hlaunched.some, hfirst, hall,
            fun hcapacity => hbuilt.troubledKeys_eq hcapacity _, departure.flight, hflight, rfl,
            fun key hk => ?_⟩
          obtain ⟨pending, hp, request, hrequestKey, hintent, hasked⟩ := hlaunched.asked key hk
          obtain ⟨response, hreceived, haccepted⟩ := hanswered pending hp
          exact ⟨pending, hp,
            hlogged.backed.reached hasked hrequestKey hintent hreceived haccepted⟩

/-- Requests that lead to an instance with two jobs that are out of retries. -/
def exhaustingRequests : List CommandRequest :=
  let task : JobPayload := { jobType := "task", retries := 1, instanceKey := some (keyAt 1 2) }
  [⟨none, .deployment .create, .deployment { processId := "process" }⟩,
    ⟨none, .processInstance .create, .processInstance { processId := "process" }⟩,
    ⟨none, .job .create, .job task⟩,
    ⟨none, .job .create, .job task⟩,
    ⟨none, .jobBatch .activate,
      .jobBatch { jobType := "task", worker := "worker", timeout := ⟨60⟩, maxJobs := 2 }⟩,
    ⟨some (keyAt 1 3), .job .fail, .job { jobType := "task" }⟩,
    ⟨some (keyAt 1 4), .job .fail, .job { jobType := "task" }⟩]

/-- An operation on that instance departs.  Its first command is sent and applied, and the append of
its second one is refused. -/
def interrupted : List BrokerAction :=
  exhaustingRequests.map (fun request => .event (.arrive (.submitInternal request) rfl)) ++
    [.processUntilIdle 3, .event (.schedule ⟨[{}], .updateRetries⟩),
      .event (.arrive (.outage (.window 1 1)) rfl), .event .execute, .processUntilIdle 3,
      .event .execute]

/-- A broker that has opened on an empty log. -/
def fresh : Broker where
  partition :=
    (Partition.unbuilt { clock := ⟨.epoch⟩ } .unavailable {}).rebuilt (LogLink.afterReads {} 1)
  store := {}
  ids := {}
  operations := {}
  executor := { streamId := 1, batchSize := 100 }

theorem open_fresh : Broker.open { host := { clock := ⟨.epoch⟩ } } {} = .ok fresh := rfl

theorem completed_reached_first :
    let r := BrokerRun.runAll { broker := fresh } interrupted
    ∃ operation ∈ r.broker.store.store.entries, operation.state = .completed ∧
      operation.jobKeys = [keyAt 1 3] ∧
      ∃ d, r.batches.filter (fun b => b.dispatches operation.id) = [d] ∧
        troubledKeys d.partition operation.targetKey = [keyAt 1 3, keyAt 1 4] ∧
        d.partition.host.link.Refused d.executeBatch.2.partition.host.link ∧
        ∃ flight, d.executeBatch.2.flight? operation.id = some flight ∧
          ∃ pending ∈ flight.waiting, r.broker.partition.Reached pending (keyAt 1 3) := by
  intro r
  have hrun : ∃ operation ∈ r.broker.store.store.entries, operation.state = .completed ∧
      operation.jobKeys = [keyAt 1 3] ∧
      (r.batches.filter fun b => b.dispatches operation.id).map
        (fun d => troubledKeys d.partition operation.targetKey) = [[keyAt 1 3, keyAt 1 4]] := by
    decide +kernel
  obtain ⟨operation, ho, hcompleted, hkeys, htroubled⟩ := hrun
  obtain ⟨d, hone, -, -, hall, -, flight, hflight, -, hreached⟩ :=
    completed_reached rfl (.new _) (fun command hc => absurd hc List.not_mem_nil) rfl open_fresh
      interrupted operation ho hcompleted
  rw [hone] at htroubled
  have hd : troubledKeys d.partition operation.targetKey = [keyAt 1 3, keyAt 1 4] :=
    (List.cons.inj htroubled).1
  refine ⟨operation, ho, hcompleted, hkeys, d, hone, hd, hall.resolve_left fun hsame => ?_,
    flight, hflight, ?_⟩
  · rw [hkeys, hd] at hsame
    cases hsame
  · refine hreached _ ?_
    rw [hkeys]
    exact List.mem_singleton_self _

/-- **The operation is completed, and its second job was never reached**: its incident was open when
the operation departed, and no event of new retries for it is in the log. -/
theorem completed_short :
    let r := BrokerRun.runAll { broker := fresh } interrupted
    ∃ operation ∈ r.broker.store.store.entries, operation.state = .completed ∧
      ∃ d ∈ r.batches, d.dispatches operation.id = true ∧
        ∃ incident ∈ d.partition.activeIncidents operation.targetKey,
          incident.value.jobKey = some (keyAt 1 4) ∧
          ∀ event ∈ r.broker.partition.records,
            event.key = some (keyAt 1 4) → event.intent ≠ .job .retriesUpdated := by
  decide +kernel

end BrokerRun

end Workflow
