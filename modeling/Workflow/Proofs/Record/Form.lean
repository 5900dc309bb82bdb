/-
Stored records are read back.

Each type says what it takes for a value to fit (`Fits`): its numbers have the widths that they are
stored with.  A value that fits is read back member by member, in the order in which the reader
asks for them, each by the lemma for the way in which it may be absent.  What is read is the value
with its durations as they are stored (`mapDurations`); types without durations are read as they
are.

Values that may be kept until the kind around them is known are read back whether they were kept or
not, so the order in which an object gives its members makes no difference to them.
-/
import Workflow.Proofs.Json.Form
import Workflow.Record.Form

namespace Workflow

open Json Members

/-- A key that may be absent has 64 bits. -/
def KeyFits (key : Option Nat) : Prop := ∀ k ∈ key, k ≤ maxWord64

theorem KeyFits.readsBack {key : Option Nat} (h : KeyFits key) :
    ∀ k ∈ key, ReadsBack nat word64? id k := fun k hk => readsBack_nat (h k hk)

/-- A duration that may be absent. -/
theorem reaches_toList : Reaches Option.toList (Option.map : (Duration → Duration) → _) where
  durations_map change d := by cases d <;> rfl
  map_eq {change d} h := by
    cases d with
    | none => rfl
    | some x => exact congrArg some (h x List.mem_cons_self)

/-! ### Timers -/

namespace Repetition

/-- A count has 32 bits. -/
def Fits (repetition : Repetition) : Prop := ∀ n, repetition = .finite n → n ≤ maxWord32

theorem readsBack (reading : Reading) {repetition : Repetition} (h : repetition.Fits) :
    ReadsBack toJson (ofJson? reading) id repetition := by
  refine ⟨Json.noConfusion, ?_⟩
  cases repetition with
  | once => cases reading <;> rfl
  | infinite => cases reading <;> rfl
  | finite n =>
      have hkinded : Json.kinded? reading "kind" "remaining" kinds kindName
          (Repetition.finite n).toJson = some ⟨.finite 0, some (.nat n), reading⟩ := by
        cases reading <;> rfl
      rw [ofJson?, hkinded]
      show ((nat? maxWord32 (.nat n)).map Repetition.finite) = _
      rw [nat?_nat (h n rfl)]
      rfl

end Repetition

namespace TimerCycle

/-- The count of the repetition fits. -/
def Fits (cycle : TimerCycle) : Prop := cycle.repetition.Fits

/-- The durations in an interval. -/
def durations (cycle : TimerCycle) : List Duration := [cycle.period]

/-- The interval with its duration changed. -/
def mapDurations (change : Duration → Duration) (cycle : TimerCycle) : TimerCycle :=
  { cycle with period := change cycle.period }

theorem reaches : Reaches durations mapDurations where
  durations_map _ _ := rfl
  map_eq {change cycle} h := by rw [mapDurations, h cycle.period List.mem_cons_self]

theorem readsBack {cycle : TimerCycle} (h : cycle.Fits) :
    ReadsBack toJson ofJson? (mapDurations Duration.stored) cycle := by
  refine ⟨Json.noConfusion, ?_⟩
  rw [ofJson?]
  refine read_then rfl ?_
  refine read_then (required?_of_lookup (Repetition.readsBack .inPlace h).read (by simp)) ?_
  refine read_then (required?_of_lookup (readsBack_millis cycle.period).read (by simp)) ?_
  rfl

end TimerCycle

theorem TimerDefinition.readsBack (reading : Reading) (definition : TimerDefinition) :
    ReadsBack toJson (ofJson? reading) id definition := by
  refine ⟨Json.noConfusion, ?_⟩
  obtain ⟨shape, isExpression, text⟩ := definition
  cases shape <;> cases isExpression <;> rfl

theorem TimerStart.readsBack (reading : Reading) (start : TimerStart) :
    ReadsBack toJson (ofJson? reading) id start := by
  refine ⟨Json.noConfusion, ?_⟩
  rw [ofJson?]
  refine read_then rfl ?_
  refine read_then (required?_of_lookup (readsBack_str start.elementId).read (by simp)) ?_
  refine read_then
    (required?_of_lookup (TimerDefinition.readsBack reading start.timer).read (by simp)) ?_
  rfl

/-! ### Payloads -/

theorem ValueType.readsBack (type : ValueType) :
    ReadsBack (fun type => .str type.name) ofJson? id type := by
  refine ⟨Json.noConfusion, ?_⟩
  cases type <;> rfl

namespace DeploymentPayload

/-- The numbers fit their widths. -/
structure Fits (value : DeploymentPayload) : Prop where
  version : value.version ≤ maxWord32
  definitionKey : KeyFits value.definitionKey

theorem readsBack (reading : Reading) {value : DeploymentPayload} (h : value.Fits) :
    ReadsBack toJson (ofJson? reading) id value := by
  refine ⟨Json.noConfusion, ?_⟩
  have hstarts := readsBack_list fun start (_ : start ∈ value.timerStarts) =>
    TimerStart.readsBack reading start
  rw [ofJson?]
  refine read_then rfl ?_
  refine read_then (required?_of_lookup (readsBack_str value.processId).read (by simp)) ?_
  refine read_then (orElse?_of_lookup (nat?_nat h.version) (by simp)) ?_
  refine read_then (optional?_of_lookup _ h.definitionKey.readsBack (by simp)) ?_
  refine read_then (orElse?_of_lookup hstarts.read (by simp)) ?_
  simp

end DeploymentPayload

namespace ProcessInstancePayload

/-- The numbers fit their widths. -/
structure Fits (value : ProcessInstancePayload) : Prop where
  version : value.version ≤ maxWord32
  definitionKey : KeyFits value.definitionKey
  instanceKey : KeyFits value.instanceKey

theorem readsBack {value : ProcessInstancePayload} (h : value.Fits) :
    ReadsBack toJson ofJson? id value := by
  refine ⟨Json.noConfusion, ?_⟩
  rw [ofJson?]
  refine read_then rfl ?_
  refine read_then (required?_of_lookup (readsBack_str value.processId).read (by simp)) ?_
  refine read_then (orElse?_of_lookup (nat?_nat h.version) (by simp)) ?_
  refine read_then (optional?_of_lookup _ h.definitionKey.readsBack (by simp)) ?_
  refine read_then (optional?_of_lookup _ h.instanceKey.readsBack (by simp)) ?_
  refine read_then
    (optional?_of_lookup value.elementId (fun text _ => readsBack_str text) (by simp)) ?_
  refine read_then (orElse?_of_lookup (show some value.vars = _ from rfl) (by simp)) ?_
  simp

end ProcessInstancePayload

namespace TimerPayload

/-- The numbers fit their widths. -/
structure Fits (value : TimerPayload) : Prop where
  repetition : value.repetition.Fits
  definitionKey : KeyFits value.definitionKey
  instanceKey : KeyFits value.instanceKey
  elementInstanceKey : KeyFits value.elementInstanceKey

/-- The durations in a payload. -/
def durations (value : TimerPayload) : List Duration := value.period.toList

/-- The payload with its durations changed. -/
def mapDurations (change : Duration → Duration) (value : TimerPayload) : TimerPayload :=
  { value with period := value.period.map change }

theorem reaches : Reaches durations mapDurations where
  durations_map change value := reaches_toList.durations_map change value.period
  map_eq {change value} h := by rw [mapDurations, reaches_toList.map_eq h]

theorem readsBack (reading : Reading) {value : TimerPayload} (h : value.Fits) :
    ReadsBack toJson (ofJson? reading) (mapDurations Duration.stored) value := by
  refine ⟨Json.noConfusion, ?_⟩
  rw [ofJson?]
  refine read_then rfl ?_
  refine read_then (optional?_of_lookup value.definition
    (fun definition _ => TimerDefinition.readsBack reading definition) (by simp)) ?_
  refine read_then
    (optional?_of_lookup value.dueDate (fun i _ => readsBack_instant i) (by simp)) ?_
  refine read_then (orElse?_of_lookup (Repetition.readsBack reading h.repetition).read (by simp)) ?_
  refine read_then
    (optional?_of_lookup value.period (fun d _ => readsBack_millis d) (by simp)) ?_
  refine read_then (required?_of_lookup (readsBack_str value.targetElementId).read (by simp)) ?_
  refine read_then (optional?_of_lookup _ h.definitionKey.readsBack (by simp)) ?_
  refine read_then (optional?_of_lookup _ h.instanceKey.readsBack (by simp)) ?_
  refine read_then (optional?_of_lookup _ h.elementInstanceKey.readsBack (by simp)) ?_
  refine read_then (orElse?_of_lookup (show some value.vars = _ from rfl) (by simp)) ?_
  simp [mapDurations]

end TimerPayload

namespace JobPayload

/-- The numbers fit their widths. -/
structure Fits (value : JobPayload) : Prop where
  retries : value.retries ≤ maxWord32
  instanceKey : KeyFits value.instanceKey

/-- The durations in a payload. -/
def durations (value : JobPayload) : List Duration := value.retryBackoff.toList

/-- The payload with its durations changed. -/
def mapDurations (change : Duration → Duration) (value : JobPayload) : JobPayload :=
  { value with retryBackoff := value.retryBackoff.map change }

theorem reaches : Reaches durations mapDurations where
  durations_map change value := reaches_toList.durations_map change value.retryBackoff
  map_eq {change value} h := by rw [mapDurations, reaches_toList.map_eq h]

theorem readsBack {value : JobPayload} (h : value.Fits) :
    ReadsBack toJson ofJson? (mapDurations Duration.stored) value := by
  refine ⟨Json.noConfusion, ?_⟩
  rw [ofJson?]
  refine read_then rfl ?_
  refine read_then (required?_of_lookup (readsBack_str value.jobType).read (by simp)) ?_
  refine read_then (orElse?_of_lookup (nat?_nat h.retries) (by simp)) ?_
  refine read_then
    (optional?_of_lookup value.worker (fun text _ => readsBack_str text) (by simp)) ?_
  refine read_then
    (optional?_of_lookup value.deadline (fun i _ => readsBack_instant i) (by simp)) ?_
  refine read_then
    (optional?_of_lookup value.retryBackoff (fun d _ => readsBack_millis d) (by simp)) ?_
  refine read_then
    (optional?_of_lookup value.errorMessage (fun text _ => readsBack_str text) (by simp)) ?_
  refine read_then (optional?_of_lookup _ h.instanceKey.readsBack (by simp)) ?_
  refine read_then
    (optional?_of_lookup value.elementId (fun text _ => readsBack_str text) (by simp)) ?_
  refine read_then (orElse?_of_lookup (show some value.vars = _ from rfl) (by simp)) ?_
  simp [mapDurations]

end JobPayload

namespace JobBatchPayload

/-- The numbers fit their widths. -/
structure Fits (value : JobBatchPayload) : Prop where
  maxJobs : value.maxJobs ≤ maxWord32
  jobKeys : ∀ key ∈ value.jobKeys, key ≤ maxWord64
  jobs : ∀ job ∈ value.jobs, job.Fits

/-- The durations in a payload, those in its jobs too. -/
def durations (value : JobBatchPayload) : List Duration :=
  value.timeout :: value.jobs.flatMap JobPayload.durations

/-- The payload with its durations changed, those of its jobs too. -/
def mapDurations (change : Duration → Duration) (value : JobBatchPayload) : JobBatchPayload :=
  { value with
    timeout := change value.timeout
    jobs := value.jobs.map (JobPayload.mapDurations change) }

theorem reaches : Reaches durations mapDurations where
  durations_map change value := by
    simp [durations, mapDurations, List.flatMap_map, List.map_flatMap,
      JobPayload.reaches.durations_map]
  map_eq {change value} h := by
    have htimeout : change value.timeout = value.timeout := h value.timeout List.mem_cons_self
    have hjob : ∀ job ∈ value.jobs, JobPayload.mapDurations change job = job := fun job hj =>
      JobPayload.reaches.map_eq fun d hd =>
        h d (List.mem_cons_of_mem _ (List.mem_flatMap.mpr ⟨job, hj, hd⟩))
    rw [mapDurations, htimeout, List.map_congr_left hjob, List.map_id']

theorem readsBack {value : JobBatchPayload} (h : value.Fits) :
    ReadsBack toJson ofJson? (mapDurations Duration.stored) value := by
  refine ⟨Json.noConfusion, ?_⟩
  have hkeys : ReadsBack (list nat) (list? word64?) (List.map id) value.jobKeys :=
    readsBack_list fun key hk => readsBack_nat (h.jobKeys key hk)
  have hjobs := readsBack_list fun job hj => JobPayload.readsBack (h.jobs job hj)
  rw [ofJson?]
  refine read_then rfl ?_
  refine read_then (required?_of_lookup (readsBack_str value.jobType).read (by simp)) ?_
  refine read_then (required?_of_lookup (readsBack_str value.worker).read (by simp)) ?_
  refine read_then (required?_of_lookup (readsBack_millis value.timeout).read (by simp)) ?_
  refine read_then (required?_of_lookup (nat?_nat h.maxJobs) (by simp)) ?_
  refine read_then (orElse?_of_lookup hkeys.read (by simp)) ?_
  refine read_then (orElse?_of_lookup hjobs.read (by simp)) ?_
  simp [mapDurations]

end JobBatchPayload

theorem IncidentCause.readsBack (reading : Reading) (cause : IncidentCause) :
    ReadsBack (fun cause => .str cause.name) (ofJson? reading) id cause := by
  refine ⟨Json.noConfusion, ?_⟩
  cases cause <;> rfl

theorem IncidentState.readsBack (reading : Reading) (state : IncidentState) :
    ReadsBack (fun state => .str state.name) (ofJson? reading) id state := by
  refine ⟨Json.noConfusion, ?_⟩
  cases state <;> rfl

namespace IncidentPayload

/-- The numbers fit their widths. -/
structure Fits (value : IncidentPayload) : Prop where
  jobKey : KeyFits value.jobKey
  instanceKey : KeyFits value.instanceKey
  elementInstanceKey : KeyFits value.elementInstanceKey

theorem readsBack (reading : Reading) {value : IncidentPayload} (h : value.Fits) :
    ReadsBack toJson (ofJson? reading) id value := by
  refine ⟨Json.noConfusion, ?_⟩
  rw [ofJson?]
  refine read_then rfl ?_
  refine read_then
    (required?_of_lookup (IncidentCause.readsBack reading value.cause).read (by simp)) ?_
  refine read_then (required?_of_lookup (readsBack_str value.errorMessage).read (by simp)) ?_
  refine read_then
    (orElse?_of_lookup (IncidentState.readsBack reading value.state).read (by simp)) ?_
  refine read_then (optional?_of_lookup _ h.jobKey.readsBack (by simp)) ?_
  refine read_then (optional?_of_lookup _ h.instanceKey.readsBack (by simp)) ?_
  refine read_then (optional?_of_lookup _ h.elementInstanceKey.readsBack (by simp)) ?_
  refine read_then
    (optional?_of_lookup value.elementId (fun text _ => readsBack_str text) (by simp)) ?_
  simp

end IncidentPayload

namespace Payload

/-- The numbers fit their widths. -/
def Fits : Payload → Prop
  | .deployment value => value.Fits
  | .processInstance value => value.Fits
  | .timer value => value.Fits
  | .job value => value.Fits
  | .jobBatch value => value.Fits
  | .incident value => value.Fits

/-- The durations in a payload. -/
def durations : Payload → List Duration
  | .timer value => value.durations
  | .job value => value.durations
  | .jobBatch value => value.durations
  | _ => []

/-- The payload with its durations changed. -/
def mapDurations (change : Duration → Duration) : Payload → Payload
  | .timer value => .timer (value.mapDurations change)
  | .job value => .job (value.mapDurations change)
  | .jobBatch value => .jobBatch (value.mapDurations change)
  | value => value

theorem reaches : Reaches durations mapDurations where
  durations_map change value := by
    cases value with
    | timer value => exact TimerPayload.reaches.durations_map change value
    | job value => exact JobPayload.reaches.durations_map change value
    | jobBatch value => exact JobBatchPayload.reaches.durations_map change value
    | _ => rfl
  map_eq {change value} h := by
    cases value with
    | timer value => exact congrArg Payload.timer (TimerPayload.reaches.map_eq h)
    | job value => exact congrArg Payload.job (JobPayload.reaches.map_eq h)
    | jobBatch value => exact congrArg Payload.jobBatch (JobBatchPayload.reaches.map_eq h)
    | _ => rfl

/-- The content of a payload is read back for its value type, kept or not. -/
theorem ofContent?_content (reading : Reading) {value : Payload} (h : value.Fits) :
    ofContent? value.valueType reading value.content =
      some (value.mapDurations Duration.stored) := by
  cases value with
  | deployment value =>
      exact congrArg (Option.map Payload.deployment) (DeploymentPayload.readsBack reading h).read
  | processInstance value =>
      exact congrArg (Option.map Payload.processInstance) (ProcessInstancePayload.readsBack h).read
  | timer value =>
      exact congrArg (Option.map Payload.timer) (TimerPayload.readsBack reading h).read
  | job value => exact congrArg (Option.map Payload.job) (JobPayload.readsBack h).read
  | jobBatch value =>
      exact congrArg (Option.map Payload.jobBatch) (JobBatchPayload.readsBack h).read
  | incident value =>
      exact congrArg (Option.map Payload.incident) (IncidentPayload.readsBack reading h).read

theorem readsBack {value : Payload} (h : value.Fits) :
    ReadsBack toJson ofJson? (mapDurations Duration.stored) value := by
  refine ⟨Json.noConfusion, ?_⟩
  rw [ofJson?, toJson, kinded?_content (by decide) (ValueType.readsBack value.valueType).read]
  exact ofContent?_content _ h

end Payload

/-! ### Records -/

theorem Intent.readsBack (intent : Intent) : ReadsBack toJson ofJson? id intent := by
  refine ⟨Json.noConfusion, ?_⟩
  cases intent with
  | deployment intent => cases intent <;> rfl
  | processInstance intent => cases intent <;> rfl
  | timer intent => cases intent <;> rfl
  | job intent => cases intent <;> rfl
  | jobBatch intent => cases intent <;> rfl
  | incident intent => cases intent <;> rfl

theorem RecordKind.readsBack (kind : RecordKind) :
    ReadsBack (fun kind => .str kind.name) ofJson? id kind := by
  refine ⟨Json.noConfusion, ?_⟩
  cases kind <;> rfl

theorem RejectionType.readsBack (type : RejectionType) :
    ReadsBack (fun type => .str type.name) ofJson? id type := by
  refine ⟨Json.noConfusion, ?_⟩
  cases type <;> rfl

namespace Correlation

/-- The stream is a signed number of 32 bits, the request an unsigned one of 64. -/
structure Fits (c : Correlation) : Prop where
  streamId_ge : -(signedBound32 : Int) ≤ c.streamId
  streamId_lt : c.streamId < signedBound32
  requestId : c.requestId ≤ maxWord64

theorem readsBack {c : Correlation} (h : c.Fits) : ReadsBack toJson ofJson? id c := by
  refine ⟨Json.noConfusion, ?_⟩
  rw [ofJson?]
  refine read_then rfl ?_
  refine read_then (required?_of_lookup (int?_int h.streamId_ge h.streamId_lt) (by simp)) ?_
  refine read_then (required?_of_lookup (nat?_nat h.requestId) (by simp)) ?_
  rfl

end Correlation

namespace Draft

/-- The numbers fit their widths. -/
structure Fits (draft : Draft) : Prop where
  sourcePosition : KeyFits draft.sourcePosition
  key : KeyFits draft.key
  value : draft.value.Fits
  correlation : ∀ c ∈ draft.correlation, c.Fits

/-- The durations in a draft. -/
def durations (draft : Draft) : List Duration := draft.value.durations

/-- The draft with its durations changed. -/
def mapDurations (change : Duration → Duration) (draft : Draft) : Draft :=
  { draft with value := draft.value.mapDurations change }

theorem reaches : Reaches durations mapDurations where
  durations_map change draft := Payload.reaches.durations_map change draft.value
  map_eq {change draft} h := by rw [mapDurations, Payload.reaches.map_eq h]

/-- A draft is read from its members, wherever they stand among others. -/
theorem ofMembers?_of_lookup {draft : Draft} (h : draft.Fits) {members : Members}
    (hlookup : ∀ name ∈ fieldNames, members.lookup name = draft.toMembers.lookup name) :
    ofMembers? members draft.rejectionReason = some (draft.mapDurations Duration.stored) := by
  have hfield : ∀ {name : String} {json : Json}, name ∈ fieldNames →
      draft.toMembers.lookup name = some json → members.lookup name = some json :=
    fun hname hjson => (hlookup _ hname).trans hjson
  rw [ofMembers?]
  refine read_then (optional?_of_nullable _ h.sourcePosition.readsBack
    (hfield (by decide) (by simp [toMembers]))) ?_
  refine read_then
    (optional?_of_nullable _ h.key.readsBack (hfield (by decide) (by simp [toMembers]))) ?_
  refine read_then (required?_of_lookup (RecordKind.readsBack draft.kind).read
    (hfield (by decide) (by simp [toMembers]))) ?_
  refine read_then (required?_of_lookup (ValueType.readsBack draft.valueType).read
    (hfield (by decide) (by simp [toMembers]))) ?_
  refine read_then (required?_of_lookup (Intent.readsBack draft.intent).read
    (hfield (by decide) (by simp [toMembers]))) ?_
  refine read_then (required?_of_lookup (Payload.readsBack h.value).read
    (hfield (by decide) (by simp [toMembers]))) ?_
  refine read_then (optional?_of_nullable draft.rejectionType
    (fun type _ => RejectionType.readsBack type) (hfield (by decide) (by simp [toMembers]))) ?_
  refine read_then (optional?_of_nullable draft.correlation
    (fun c hc => Correlation.readsBack (h.correlation c hc))
    (hfield (by decide) (by simp [toMembers]))) ?_
  refine read_then (required?_of_lookup (readsBack_instant draft.timestamp).read
    (hfield (by decide) (by simp [toMembers]))) ?_
  simp [mapDurations]

theorem readsBack {draft : Draft} (h : draft.Fits) :
    ReadsBack toJson ofJson? (mapDurations Duration.stored) draft := by
  refine ⟨Json.noConfusion, ?_⟩
  rw [ofJson?]
  refine read_then rfl ?_
  refine read_then
    (required?_of_lookup (readsBack_str draft.rejectionReason).read (by simp [toMembers])) ?_
  exact ofMembers?_of_lookup h fun _ _ => rfl

end Draft

namespace Record

/-- The numbers fit their widths. -/
structure Fits (record : Record) : Prop where
  position : record.position ≤ maxWord64
  draft : record.toDraft.Fits

/-- The durations in a record. -/
def durations (record : Record) : List Duration := record.toDraft.durations

/-- The record with its durations changed. -/
def mapDurations (change : Duration → Duration) (record : Record) : Record :=
  ofDraft record.position (record.toDraft.mapDurations change)

theorem reaches : Reaches durations mapDurations where
  durations_map change record := Draft.reaches.durations_map change record.toDraft
  map_eq {change record} h := by
    rw [mapDurations, Draft.reaches.map_eq h]
    rfl

theorem readsBack {record : Record} (h : record.Fits) :
    ReadsBack toJson ofJson? (mapDurations Duration.stored) record := by
  refine ⟨Json.noConfusion, ?_⟩
  rw [ofJson?]
  refine read_then rfl ?_
  refine read_then (required?_of_lookup (nat?_nat h.position) (by simp)) ?_
  refine read_then (orElse?_of_lookup (readsBack_str record.rejectionReason).read
    (by simp [Draft.toMembers])) ?_
  refine read_then (Draft.ofMembers?_of_lookup h.draft fun name hname => ?_) ?_
  · have hne : name ≠ "position" := fun heq => absurd (heq ▸ hname) (by decide)
    rw [lookup_cons, if_neg (by simpa using hne)]
  · rfl

end Record

end Workflow
