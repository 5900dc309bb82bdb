/-
Stored settings are read back, and with them everything that is stored.

The settings come first.  The theorem at the end lists what is stored: records with their parts,
operations with the queries and requests that they come from, and the settings.  Those with
durations lose what a duration loses in being stored (`Duration.stored_nanos`), the others nothing.
A value that an object may give before its kind is known is listed for both readings.
-/
import Workflow.Broker.Config
import Workflow.Proofs.Operation.Form
import Workflow.Proofs.Record.Form

namespace Workflow

open Json Members

namespace PartitionConfig

/-- The numbers fit their widths. -/
structure Fits (config : PartitionConfig) : Prop where
  partitionId : config.partitionId ≤ maxWord16
  maxCommandsPerRound : config.maxCommandsPerRound ≤ maxWord64

theorem readsBack {config : PartitionConfig} (h : config.Fits) :
    ReadsBack toJson ofJson? id config := by
  refine ⟨Json.noConfusion, ?_⟩
  rw [ofJson?]
  refine read_then rfl ?_
  refine read_then (required?_of_lookup (nat?_nat h.partitionId) (by simp)) ?_
  refine read_then (required?_of_lookup (nat?_nat h.maxCommandsPerRound) (by simp)) ?_
  rfl

end PartitionConfig

namespace BatchConfig

/-- The size fits its width. -/
def Fits (config : BatchConfig) : Prop := config.maxBatchSize ≤ maxWord64

/-- The durations in the settings. -/
def durations (config : BatchConfig) : List Duration := [config.idleBackoff]

/-- The settings with their duration changed. -/
def mapDurations (change : Duration → Duration) (config : BatchConfig) : BatchConfig :=
  config.withIdleBackoff (change config.idleBackoff)

theorem reaches : Reaches durations mapDurations where
  durations_map _ _ := rfl
  map_eq {change config} h := by
    rw [mapDurations, h config.idleBackoff List.mem_cons_self, withIdleBackoff]

theorem readsBack {config : BatchConfig} (h : config.Fits) :
    ReadsBack toJson ofJson? (mapDurations Duration.stored) config := by
  refine ⟨Json.noConfusion, ?_⟩
  rw [ofJson?]
  refine read_then rfl ?_
  refine read_then (required?_of_lookup (nat?_nat h) (by simp)) ?_
  refine read_then (required?_of_lookup (readsBack_millis config.idleBackoff).read (by simp)) ?_
  rfl

end BatchConfig

namespace BrokerConfig

/-- The numbers fit their widths; the stream is a signed number of 32 bits. -/
structure Fits (config : BrokerConfig) : Prop where
  partition : config.partition.Fits
  operations : config.operations.Fits
  scheduler : config.scheduler.Fits
  requestStreamId_ge : -(signedBound32 : Int) ≤ config.requestStreamId
  requestStreamId_lt : config.requestStreamId < signedBound32

/-- The durations in the settings. -/
def durations (config : BrokerConfig) : List Duration := config.scheduler.durations

/-- The settings with their durations changed. -/
def mapDurations (change : Duration → Duration) (config : BrokerConfig) : BrokerConfig :=
  { config with scheduler := config.scheduler.mapDurations change }

theorem reaches : Reaches durations mapDurations where
  durations_map change config := BatchConfig.reaches.durations_map change config.scheduler
  map_eq {change config} h := by rw [mapDurations, BatchConfig.reaches.map_eq h]

theorem readsBack {config : BrokerConfig} (h : config.Fits) :
    ReadsBack toJson ofJson? (mapDurations Duration.stored) config := by
  refine ⟨Json.noConfusion, ?_⟩
  rw [ofJson?]
  refine read_then rfl ?_
  refine read_then
    (required?_of_lookup (PartitionConfig.readsBack h.partition).read (by simp)) ?_
  refine read_then
    (required?_of_lookup (OperationsConfig.readsBack h.operations).read (by simp)) ?_
  refine read_then (required?_of_lookup (BatchConfig.readsBack h.scheduler).read (by simp)) ?_
  refine read_then
    (required?_of_lookup (int?_int h.requestStreamId_ge h.requestStreamId_lt) (by simp)) ?_
  rfl

end BrokerConfig

/-! ### Everything that is stored -/

/-- Whatever is stored is read back.  A duration is stored in whole milliseconds, as many as 64
bits hold; nothing else is lost. -/
theorem stored_forms_lossless :
    (∀ d : Duration, d.stored.nanos = min (d.nanos / 1000000) (2 ^ 64 - 1) * 1000000) ∧
    Lossless Record.toJson Record.ofJson? Record.Fits Record.durations Record.mapDurations ∧
    Lossless Draft.toJson Draft.ofJson? Draft.Fits Draft.durations Draft.mapDurations ∧
    Lossless Payload.toJson Payload.ofJson? Payload.Fits Payload.durations Payload.mapDurations ∧
    (∀ (reading : Reading) (value : Payload), value.Fits →
      Payload.ofContent? value.valueType reading value.content =
        some (value.mapDurations Duration.stored)) ∧
    (∀ reading, Faithful DeploymentPayload.toJson (DeploymentPayload.ofJson? reading)
      DeploymentPayload.Fits) ∧
    Faithful ProcessInstancePayload.toJson ProcessInstancePayload.ofJson?
      ProcessInstancePayload.Fits ∧
    (∀ reading, Lossless TimerPayload.toJson (TimerPayload.ofJson? reading) TimerPayload.Fits
      TimerPayload.durations TimerPayload.mapDurations) ∧
    Lossless JobPayload.toJson JobPayload.ofJson? JobPayload.Fits JobPayload.durations
      JobPayload.mapDurations ∧
    Lossless JobBatchPayload.toJson JobBatchPayload.ofJson? JobBatchPayload.Fits
      JobBatchPayload.durations JobBatchPayload.mapDurations ∧
    (∀ reading, Faithful IncidentPayload.toJson (IncidentPayload.ofJson? reading)
      IncidentPayload.Fits) ∧
    (∀ reading, Faithful TimerStart.toJson (TimerStart.ofJson? reading) fun _ => True) ∧
    (∀ reading, Faithful TimerDefinition.toJson (TimerDefinition.ofJson? reading) fun _ => True) ∧
    (∀ reading, Faithful Repetition.toJson (Repetition.ofJson? reading) Repetition.Fits) ∧
    Lossless TimerCycle.toJson TimerCycle.ofJson? TimerCycle.Fits TimerCycle.durations
      TimerCycle.mapDurations ∧
    Faithful Operation.toJson Operation.ofJson? Operation.Fits ∧
    Faithful InstanceQuery.toJson InstanceQuery.ofJson? InstanceQuery.Fits ∧
    Faithful BatchRequest.toJson BatchRequest.ofJson? BatchRequest.Fits ∧
    Faithful PartitionConfig.toJson PartitionConfig.ofJson? PartitionConfig.Fits ∧
    Faithful OperationsConfig.toJson OperationsConfig.ofJson? OperationsConfig.Fits ∧
    Lossless BatchConfig.toJson BatchConfig.ofJson? BatchConfig.Fits BatchConfig.durations
      BatchConfig.mapDurations ∧
    Lossless BrokerConfig.toJson BrokerConfig.ofJson? BrokerConfig.Fits BrokerConfig.durations
      BrokerConfig.mapDurations := by
  refine ⟨Duration.stored_nanos, ?_⟩
  refine ⟨.of_readsBack Record.reaches Record.readsBack, ?_⟩
  refine ⟨.of_readsBack Draft.reaches Draft.readsBack, ?_⟩
  refine ⟨.of_readsBack Payload.reaches Payload.readsBack, ?_⟩
  refine ⟨fun reading _ hfits => Payload.ofContent?_content reading hfits, ?_⟩
  refine ⟨fun reading => .of_readsBack (DeploymentPayload.readsBack reading), ?_⟩
  refine ⟨.of_readsBack ProcessInstancePayload.readsBack, ?_⟩
  refine ⟨fun reading => .of_readsBack TimerPayload.reaches (TimerPayload.readsBack reading), ?_⟩
  refine ⟨.of_readsBack JobPayload.reaches JobPayload.readsBack, ?_⟩
  refine ⟨.of_readsBack JobBatchPayload.reaches JobBatchPayload.readsBack, ?_⟩
  refine ⟨fun reading => .of_readsBack (IncidentPayload.readsBack reading), ?_⟩
  refine ⟨fun reading => .of_readsBack fun _ => TimerStart.readsBack reading _, ?_⟩
  refine ⟨fun reading => .of_readsBack fun _ => TimerDefinition.readsBack reading _, ?_⟩
  refine ⟨fun reading => .of_readsBack (Repetition.readsBack reading), ?_⟩
  refine ⟨.of_readsBack TimerCycle.reaches TimerCycle.readsBack, ?_⟩
  refine ⟨.of_readsBack Operation.readsBack, ?_⟩
  refine ⟨.of_readsBack InstanceQuery.readsBack, ?_⟩
  refine ⟨.of_readsBack BatchRequest.readsBack, ?_⟩
  refine ⟨.of_readsBack PartitionConfig.readsBack, ?_⟩
  refine ⟨.of_readsBack OperationsConfig.readsBack, ?_⟩
  exact ⟨.of_readsBack BatchConfig.reaches BatchConfig.readsBack,
    .of_readsBack BrokerConfig.reaches BrokerConfig.readsBack⟩

/-- A record of one job that was leased, with the length of the lease and the pause of the job. -/
def leaseRecord (timeout pause : Duration) : Record where
  position := 7
  kind := .event
  valueType := .jobBatch
  intent := .jobBatch .activated
  value := .jobBatch
    { jobType := "task"
      worker := "worker"
      timeout
      maxJobs := 1
      jobKeys := [4]
      jobs := [{ jobType := "task", retries := 3, retryBackoff := some pause }] }
  timestamp := .epoch

theorem fits_leaseRecord (timeout pause : Duration) : (leaseRecord timeout pause).Fits := by
  have hposition : 7 ≤ maxWord64 := by decide
  have hmaxJobs : 1 ≤ maxWord32 := by decide
  have hkeys : ∀ key ∈ [4], key ≤ maxWord64 := by decide
  have hretries : 3 ≤ maxWord32 := by decide
  refine ⟨hposition, nofun, nofun, ⟨hmaxJobs, hkeys, ?_⟩, nofun⟩
  intro job hj
  rw [List.mem_singleton.mp hj]
  exact ⟨hretries, nofun⟩

/-- Half a millisecond is dropped, a count of more than 64 bits is cut off, and whole milliseconds
are kept. -/
theorem stored_forms_lossless_lease :
    Record.ofJson? (leaseRecord ⟨1500000⟩ (.ofMillis (2 ^ 64))).toJson =
        some (leaseRecord (.ofMillis 1) (.ofMillis (2 ^ 64 - 1))) ∧
      Record.ofJson? (leaseRecord (.ofMillis 30000) (.ofMillis 5)).toJson =
        some (leaseRecord (.ofMillis 30000) (.ofMillis 5)) := by
  have hrecord := stored_forms_lossless.2.1
  refine ⟨hrecord.read_stored _ (fits_leaseRecord _ _), ?_⟩
  refine hrecord.read_whole _ (fits_leaseRecord _ _) fun d hd => ?_
  have hwhole : ∀ d ∈ [Duration.ofMillis 30000, Duration.ofMillis 5], d.IsWhole := by decide
  exact hwhole d hd

end Workflow
