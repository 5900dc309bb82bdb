/-
Scheduling operations: a request becomes one operation for every instance it selects.

Queries may overlap; an instance that several of them select gets one operation.  A request that
selects too many instances creates nothing, and so does one that the store refuses.
-/
import Workflow.Broker.Basic
import Workflow.Partition.View
import Workflow.Sorted.Set

namespace Workflow

/-- How a refused request is reported. -/
inductive ResponseStatus where
  /-- The request is at fault. -/
  | badRequest
  /-- The service is. -/
  | serviceUnavailable
deriving DecidableEq, Inhabited

/-- The name of the status. -/
def ResponseStatus.name : ResponseStatus → String
  | .badRequest => "BadRequest"
  | .serviceUnavailable => "ServiceUnavailable"

/-- Why a request creates no operations. -/
inductive ScheduleError where
  /-- It selects more instances than allowed. -/
  | tooManyInstances (limit selected : Nat)
  /-- The store refuses the operations. -/
  | store (cause : StoreError)
deriving DecidableEq, Inhabited

namespace ScheduleError

/-- The name of the cause. -/
def name : ScheduleError → String
  | .tooManyInstances _ _ => "TooManyInstances"
  | .store cause => cause.name

/-- The wording of the cause. -/
def message : ScheduleError → String
  | .tooManyInstances limit _ =>
      "Too many workflow instances are selected for batch operation. " ++
        s!"Maximum possible amount: {limit}"
  | .store cause => cause.message

/-- How the cause is reported. -/
def status : ScheduleError → ResponseStatus
  | .tooManyInstances _ _ => .badRequest
  | .store _ => .serviceUnavailable

end ScheduleError

/-- The different keys that a selector finds for some of the queries, in ascending order. -/
def BatchRequest.selection (request : BatchRequest) (select : InstanceQuery → List Nat) :
    List Nat :=
  ((request.queries.flatMap select).foldl SortedSet.insert SortedSet.empty).toList

/-- One scheduled operation for each target, with identifiers from the source. -/
def Operation.scheduleAll (type : OperationType) (batchId : Uuid) (now : Instant) :
    List Nat → UuidSource → List Operation × UuidSource
  | [], ids => ([], ids)
  | targetKey :: targetKeys, ids =>
      let (id, ids) := ids.fresh
      let (operations, ids) := scheduleAll type batchId now targetKeys ids
      ({ id, type, state := .scheduled, targetKey, batchId, startDate := now } :: operations, ids)

/-- Creates the operations of a request whose queries a selector answers. -/
def StoreLink.schedule (store : StoreLink) (ids : UuidSource) (config : OperationsConfig)
    (now : Instant) (select : InstanceQuery → List Nat) (request : BatchRequest) :
    Except ScheduleError (List Operation) × StoreLink × UuidSource :=
  let targetKeys := request.selection select
  if config.batchOperationMaxSize < targetKeys.length then
    (.error (.tooManyInstances config.batchOperationMaxSize targetKeys.length), store, ids)
  else
    let (batchId, ids) := ids.fresh
    let (operations, ids) := Operation.scheduleAll request.type batchId now targetKeys ids
    match store.insert operations with
    | (.error e, store) => (.error (.store e), store, ids)
    | (.ok _, store) => (.ok operations, store, ids)

namespace Broker

/-- Creates the operations of a request, for the instances of the partition that it selects. -/
def schedule (b : Broker) (request : BatchRequest) :
    Except ScheduleError (List Operation) × Broker :=
  let (result, store, ids) :=
    b.store.schedule b.ids b.operations b.now b.partition.select request
  (result, { b with store, ids })

end Broker

end Workflow
