/-
Stored operations, queries and requests are read back.

None of them has durations, so what is read is the value itself.
-/
import Workflow.Operation.Form
import Workflow.Proofs.Json.Form

namespace Workflow

open Json Members

theorem OperationType.readsBack (type : OperationType) :
    ReadsBack (fun type => .str type.name) ofJson? id type := by
  refine ⟨Json.noConfusion, ?_⟩
  cases type
  rfl

theorem OperationState.readsBack (state : OperationState) :
    ReadsBack (fun state => .str state.name) ofJson? id state := by
  refine ⟨Json.noConfusion, ?_⟩
  cases state <;> rfl

namespace Operation

/-- The numbers fit their widths. -/
structure Fits (operation : Operation) : Prop where
  operationId : operation.id.Fits
  targetKey : operation.targetKey ≤ maxWord64
  batchId : operation.batchId.Fits
  jobKeys : ∀ key ∈ operation.jobKeys, key ≤ maxWord64

theorem readsBack {operation : Operation} (h : operation.Fits) :
    ReadsBack toJson ofJson? (fun operation => operation) operation := by
  refine ⟨Json.noConfusion, ?_⟩
  have hkeys : ReadsBack (list nat) (list? word64?) (List.map fun key => key) operation.jobKeys :=
    readsBack_list fun key hk => readsBack_nat (h.jobKeys key hk)
  rw [ofJson?]
  refine read_then rfl ?_
  refine read_then (required?_of_lookup (uuid?_uuid h.operationId) (by simp)) ?_
  refine read_then (required?_of_lookup (OperationType.readsBack operation.type).read (by simp)) ?_
  refine read_then
    (required?_of_lookup (OperationState.readsBack operation.state).read (by simp)) ?_
  refine read_then (required?_of_lookup (nat?_nat h.targetKey) (by simp)) ?_
  refine read_then (required?_of_lookup (uuid?_uuid h.batchId) (by simp)) ?_
  refine read_then (orElse?_of_lookup hkeys.read (by simp)) ?_
  refine read_then
    (optional?_of_nullable operation.errorMessage (fun text _ => readsBack_str text) (by simp)) ?_
  refine read_then (required?_of_lookup (readsBack_instant operation.startDate).read (by simp)) ?_
  refine read_then
    (optional?_of_nullable operation.endDate (fun i _ => readsBack_instant i) (by simp)) ?_
  simp

end Operation

namespace InstanceQuery

/-- The keys of the instances have 64 bits. -/
def Fits (query : InstanceQuery) : Prop := ∀ ids ∈ query.ids, ∀ key ∈ ids, key ≤ maxWord64

theorem readsBack {query : InstanceQuery} (h : query.Fits) :
    ReadsBack toJson ofJson? id query := by
  refine ⟨Json.noConfusion, ?_⟩
  have hids : ∀ ids ∈ query.ids, ReadsBack (list nat) (list? word64?) (List.map id) ids :=
    fun ids hi => readsBack_list fun key hk => readsBack_nat (h ids hi key hk)
  rw [ofJson?]
  refine read_then rfl ?_
  refine read_then (optional?_of_lookup query.ids hids (by simp)) ?_
  refine read_then
    (optional?_of_lookup query.processId (fun text _ => readsBack_str text) (by simp)) ?_
  refine read_then
    (orElse?_of_lookup (show bool? (.bool query.incidentsOnly) = _ from rfl) (by simp)) ?_
  simp

end InstanceQuery

namespace BatchRequest

/-- The keys in the queries have 64 bits. -/
def Fits (request : BatchRequest) : Prop := ∀ query ∈ request.queries, query.Fits

theorem readsBack {request : BatchRequest} (h : request.Fits) :
    ReadsBack toJson ofJson? id request := by
  refine ⟨Json.noConfusion, ?_⟩
  have hqueries := readsBack_list fun query hq => InstanceQuery.readsBack (h query hq)
  rw [ofJson?]
  refine read_then rfl ?_
  refine read_then (required?_of_lookup hqueries.read (by simp)) ?_
  refine read_then (required?_of_lookup (OperationType.readsBack request.type).read (by simp)) ?_
  simp

end BatchRequest

namespace OperationsConfig

/-- The numbers fit their widths. -/
structure Fits (config : OperationsConfig) : Prop where
  batchOperationMaxSize : config.batchOperationMaxSize ≤ maxWord64
  updateRetriesValue : config.updateRetriesValue ≤ maxWord32

theorem readsBack {config : OperationsConfig} (h : config.Fits) :
    ReadsBack toJson ofJson? id config := by
  refine ⟨Json.noConfusion, ?_⟩
  rw [ofJson?]
  refine read_then rfl ?_
  refine read_then (required?_of_lookup (nat?_nat h.batchOperationMaxSize) (by simp)) ?_
  refine read_then (required?_of_lookup (nat?_nat h.updateRetriesValue) (by simp)) ?_
  rfl

end OperationsConfig

end Workflow
