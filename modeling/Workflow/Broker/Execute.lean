/-
Carrying out operations.

Work on operations is done in tasks.  First come the sent operations whose end is known, then the
scheduled ones, the oldest first.  To dispatch an operation is to send a command for every job of
the instance that has an open incident; the flight is remembered before the store is told, so an
operation whose update was refused is not sent a second time.  A flight is forgotten only after
the store knows how it ended.
-/
import Workflow.Batch.Scheduler
import Workflow.Broker.Basic
import Workflow.Partition.View

namespace Workflow

namespace Executor

/-- The flight of an operation. -/
def flight? (executor : Executor) (id : Uuid) : Option Flight := executor.flights.lookup id

/-- Forgets the flight of an operation. -/
def land (executor : Executor) (id : Uuid) : Executor :=
  { executor with flights := executor.flights.filter fun entry => entry.1 != id }

/-- Remembers a flight in the place of the one the operation may have. -/
def board (executor : Executor) (id : Uuid) (flight : Flight) : Executor :=
  { executor with flights := (id, flight) :: (executor.land id).flights }

end Executor

namespace Broker

/-! ### Collecting tasks -/

/-- Looks for responses to an operation, and tells how it ends once that is known. -/
def poll (b : Broker) (id : Uuid) : Option Settlement × Broker :=
  match b.executor.flight? id with
  | none => (none, b)
  | some flight =>
      let (flight, router) := flight.poll b.partition.host.router
      (flight.settlement?,
        { b with
          partition := b.partition.withRouter router
          executor := b.executor.board id flight })

/-- The tasks to settle sent operations, at most `max`. -/
def settleTasks : Nat → List Operation → Broker → List OperationTask × Broker
  | _, [], b => ([], b)
  | 0, _, b => ([], b)
  | max + 1, operation :: operations, b =>
      match b.poll operation.id with
      | (some settlement, b) =>
          let (tasks, b) := settleTasks max operations b
          (.settle operation settlement :: tasks, b)
      | (none, b) => settleTasks (max + 1) operations b

/-- Fetches stored operations. -/
def fetch (b : Broker) (state : OperationState) (limit : Nat) :
    Except BatchError (List Operation) × Broker :=
  let (result, store) := b.store.fetch state limit
  (result.mapError fun e => .source e.message, { b with store })

/-- The tasks to do next, at most `max`. -/
def collectTasks (b : Broker) (max : Nat) : Except BatchError (List OperationTask) × Broker :=
  match b.fetch .sent b.store.store.size with
  | (.error e, b) => (.error e, b)
  | (.ok sent, b) =>
      let (tasks, b) := settleTasks max sent b
      if tasks.length < max then
        match b.fetch .scheduled (max - tasks.length) with
        | (.error e, b) => (.error e, b)
        | (.ok scheduled, b) => (.ok (tasks ++ scheduled.map .dispatch), b)
      else (.ok tasks, b)

/-! ### Doing tasks -/

/-- Stores the next version of an operation. -/
def record (b : Broker) (operation : Operation) : Except BatchError Unit × Broker :=
  let (result, store) := b.store.update operation
  (result.mapError fun e => .processing e.message, { b with store })

/-- The jobs of an instance that have an open incident and are not at their end. -/
def troubledJobs (p : Partition) (instanceKey : Nat) : List (Nat × JobPayload) :=
  (p.activeIncidents instanceKey).filterMap fun incident =>
    incident.value.jobKey.bind fun key => (p.job? key).map fun job => (key, job)

/-- Sends requests on the stream of the executor, up to the first one that fails. -/
def sendAll : List (Nat × CommandRequest) → Broker →
    List (Nat × PendingResponse) × Option PartitionError × Broker
  | [], b => ([], none, b)
  | (key, request) :: requests, b =>
      match b.send b.executor.streamId request with
      | (.error e, b) => ([], some e, b)
      | (.ok pending, b) =>
          let (sent, failure, b) := sendAll requests b
          ((key, pending) :: sent, failure, b)

/-- The message of an operation that finds nothing to do. -/
def noIncidentsMessage : String := "No appropriate incidents found."

/-- The request for new retries of a job. -/
def retriesRequest (retries key : Nat) (job : JobPayload) : CommandRequest :=
  { key := some key, intent := .job .updateRetries, value := .job { job with retries } }

/-- Sends the commands of an operation, as many as can be sent in a row. -/
def dispatch (b : Broker) (operation : Operation) : Except BatchError Unit × Broker :=
  match b.executor.flight? operation.id with
  | some flight => b.record (operation.sent flight.jobKeys)
  | none =>
      let requests := (troubledJobs b.partition operation.targetKey).map fun (key, job) =>
        (key, retriesRequest b.operations.updateRetriesValue key job)
      if requests.isEmpty then b.record (operation.failed noIncidentsMessage b.now)
      else
        match sendAll requests b with
        | ([], some e, b) => (.error (.processing e.message), b)
        | (sent, _, b) =>
            let jobKeys := sent.map Prod.fst
            let flight := { jobKeys, waiting := sent.map Prod.snd }
            let b := { b with executor := b.executor.board operation.id flight }
            b.record (operation.sent jobKeys)

/-- The operation after it ended. -/
def ended (operation : Operation) (settlement : Settlement) (now : Instant) : Operation :=
  match settlement with
  | .completed => operation.completed now
  | .failed message => operation.failed message now

/-- Writes down how an operation ended. -/
def settle (b : Broker) (operation : Operation) (settlement : Settlement) :
    Except BatchError Unit × Broker :=
  match b.record (ended operation settlement b.now) with
  | (.error e, b) => (.error e, b)
  | (.ok _, b) => (.ok (), { b with executor := b.executor.land operation.id })

/-- Does a task. -/
def perform (b : Broker) : OperationTask → Except BatchError Unit × Broker
  | .dispatch operation => b.dispatch operation
  | .settle operation settlement => b.settle operation settlement

/-- Does tasks in order and counts them; the first failure ends the work. -/
def execute : List OperationTask → Broker → Except BatchError Nat × Broker
  | [], b => (.ok 0, b)
  | task :: tasks, b =>
      match b.perform task with
      | (.error e, b) => (.error e, b)
      | (.ok _, b) =>
          let (result, b) := execute tasks b
          (result.map (· + 1), b)

/-- Collects one batch of tasks and does them. -/
def executeBatch (b : Broker) : Except BatchError Nat × Broker :=
  match b.collectTasks b.executor.batchSize with
  | (.error e, b) => (.error e, b)
  | (.ok tasks, b) => b.execute tasks

/-! ### Scheduled work -/

/-- The operations as a source of batch work. -/
def operationSource : WorkSource Broker OperationTask where
  pull size b := b.collectTasks size
  process tasks b := execute tasks b

/-- A scheduler that carries out operations. -/
def operationScheduler (b : Broker) (config : BatchConfig) : Scheduler Broker OperationTask :=
  { name := "operation-executor", config, source := operationSource, work := b }

end Broker

end Workflow
