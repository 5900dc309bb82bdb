/-
A broker: a partition with its clients and its operations.

A broker opens a partition on a site.  The site is what stays when the broker is closed: the log,
the clock, the responses that were delivered, and the stored operations.  Gateways and operations
on the way are gone then, and a new broker numbers its requests from one again.
-/
import Workflow.Operation.Flight
import Workflow.Operation.Store

namespace Workflow

/-- What stays when a broker is closed. -/
structure Site where
  /-- What the partition runs on. -/
  host : Host := {}
  /-- The stored operations. -/
  store : StoreLink := {}
  /-- The source of identifiers. -/
  ids : UuidSource := {}
deriving Inhabited

/-- What carries out the operations. -/
structure Executor where
  /-- The stream of the gateway that it sends commands through. -/
  streamId : Int
  /-- How many tasks it does at a time. -/
  batchSize : Nat
  /-- The operations whose commands were sent. -/
  flights : List (Uuid × Flight) := []
deriving DecidableEq, Inhabited

/-- A partition with its clients and its operations. -/
structure Broker where
  /-- The partition. -/
  partition : Partition
  /-- The stored operations. -/
  store : StoreLink
  /-- The source of identifiers. -/
  ids : UuidSource
  /-- The settings of operations. -/
  operations : OperationsConfig
  /-- What carries out the operations. -/
  executor : Executor
  /-- The gateways, of which there is at most one for a stream. -/
  gateways : List Gateway := []

/-- The settings of a broker. -/
structure BrokerSettings where
  /-- The settings of the partition. -/
  partition : PartitionConfig := {}
  /-- The settings of operations. -/
  operations : OperationsConfig := {}
  /-- The handlers of commands. -/
  registry : Registry := .builtin
  /-- The evaluator of expressions. -/
  evaluator : Evaluator := .unavailable
  /-- The stream of requests that the executor uses. -/
  executorStream : Int := 1
  /-- How many tasks the executor does at a time. -/
  executorBatchSize : Nat := 100

namespace Broker

/-- Opens a broker on a site.  When that fails the site is handed back. -/
def «open» (site : Site) (settings : BrokerSettings) : Except (PartitionError × Site) Broker :=
  match Partition.open site.host settings.registry settings.evaluator settings.partition with
  | .error (e, host) => .error (e, { site with host })
  | .ok partition =>
      .ok
        { partition
          store := site.store
          ids := site.ids
          operations := settings.operations
          executor :=
            { streamId := settings.executorStream
              batchSize := max settings.executorBatchSize 1 } }

/-- Closes the broker. -/
def close (b : Broker) : Site := { host := b.partition.close, store := b.store, ids := b.ids }

/-- The time. -/
def now (b : Broker) : Instant := b.partition.now

/-- The gateway of a stream; a new one numbers its requests from one. -/
def gateway (b : Broker) (streamId : Int) : Gateway :=
  (b.gateways.find? fun gateway => gateway.streamId == streamId).getD { streamId }

/-- Sends a request through the gateway of a stream. -/
def send (b : Broker) (streamId : Int) (request : CommandRequest) :
    Except PartitionError PendingResponse × Broker :=
  let (result, gateway, partition) := (b.gateway streamId).send b.partition request
  let others := b.gateways.filter fun other => other.streamId != streamId
  (result, { b with partition, gateways := gateway :: others })

end Broker

end Workflow
