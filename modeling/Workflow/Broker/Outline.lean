/-
The outlines of a broker and its parts.
-/
import Workflow.Broker.Basic
import Workflow.Text.Outline

namespace Workflow

/-- The commands that have a handler. -/
def Registry.outline (registry : Registry) : String :=
  Outline.whole "HandlerRegistry"
    [Outline.field "commands" (Outline.quotedList registry.commandNames)]

/-- An engine with its handlers. -/
def Processor.outline (processor : Processor) : String :=
  Outline.part "StreamProcessor"
    [Outline.field "partition_id" (toString processor.partitionId),
      Outline.field "registry" processor.registry.outline]

/-- The settings of a partition. -/
def PartitionConfig.outline (config : PartitionConfig) : String :=
  Outline.whole "PartitionConfig"
    [Outline.field "partition_id" (toString config.partitionId),
      Outline.field "max_commands_per_round" (toString config.maxCommandsPerRound)]

/-- How far the commands of the log are applied. -/
def Cursor.outline (cursor : Cursor) : String :=
  Outline.whole "Cursor"
    [Outline.field "last_processed" (Outline.optional (cursor.lastProcessed.map toString)),
      Outline.field "needs_recovery" (if cursor.needsRecovery then "true" else "false")]

/-- How many requests wait. -/
def ResponseRouter.outline (router : ResponseRouter) : String :=
  Outline.whole "ResponseRouter" [Outline.field "pending" (toString router.pendingCount)]

/-- A partition. -/
def Partition.outline (p : Partition) : String :=
  Outline.part "Partition"
    [Outline.field "config" p.config.outline, Outline.field "cursor" p.cursor.outline,
      Outline.field "router" p.host.router.outline]

/-- The gateway of a client. -/
def Gateway.outline (gateway : Gateway) : String :=
  Outline.part "CommandGateway" [Outline.field "request_stream_id" (toString gateway.streamId)]

/-- The settings of operations. -/
def OperationsConfig.outline (config : OperationsConfig) : String :=
  Outline.whole "OperationsConfig"
    [Outline.field "batch_operation_max_size" (toString config.batchOperationMaxSize),
      Outline.field "update_retries_value" (toString config.updateRetriesValue)]

/-- What carries out the operations of a broker. -/
def Broker.executorOutline (b : Broker) : String :=
  Outline.part "OperationExecutor"
    [Outline.field "config" b.operations.outline,
      Outline.field "in_flight" (toString b.executor.flights.length)]

/-- What schedules the operations of a broker. -/
def Broker.serviceOutline (b : Broker) : String :=
  Outline.part "BatchOperationService" [Outline.field "config" b.operations.outline]

/-- The parts of a broker, with the gateway of the first stream. -/
def Broker.outlines (b : Broker) : List (String × String) :=
  [("partition", b.partition.outline), ("router", b.partition.host.router.outline),
    ("executor", b.executorOutline), ("service", b.serviceOutline),
    ("gateway", (b.gateway 1).outline)]

/-- How many operations are stored. -/
def OperationStore.outline (store : OperationStore) : String :=
  Outline.whole "InMemoryOperationStore" [Outline.field "operations" (toString store.size)]

end Workflow
