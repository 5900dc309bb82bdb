/-
What a batch request creates.

The keys that the queries of a request select are a set (`BatchRequest.selected`), in whatever order
and however often a selector finds them.  A request makes one operation for each of them
(`BatchRequest.creates_operations`), unless they are too many, and the store takes all that is made
or nothing (`StoreLink.schedule_allOrNothing`).

A partition selects its own instances, by what queries ask for (`InstanceQuery.Matches`).
-/
import Mathlib.Data.Finset.Sort
import Workflow.Broker.Schedule
import Workflow.Proofs.Operation.Store

namespace Workflow

/-! ### The keys that are selected -/

namespace BatchRequest

/-- The keys that a selector finds for some of the queries. -/
def selected (request : BatchRequest) (select : InstanceQuery → List Nat) : Finset Nat :=
  (request.queries.flatMap select).toFinset

variable (request : BatchRequest) (select : InstanceQuery → List Nat)

theorem mem_selected {key : Nat} :
    key ∈ request.selected select ↔ ∃ query ∈ request.queries, key ∈ select query := by
  unfold selected
  rw [List.mem_toFinset, List.mem_flatMap]

/-- **The selection has each selected key once, in ascending order.** -/
theorem selection_eq_sort : request.selection select = (request.selected select).sort := by
  have hmem : ∀ (keys : List Nat) (set : SortedSet Nat) (key : Nat),
      key ∈ keys.foldl SortedSet.insert set ↔ key ∈ set ∨ key ∈ keys := by
    intro keys
    induction keys with
    | nil => intro set key; simp
    | cons first rest ih =>
        intro set key
        rw [List.foldl_cons, ih, SortedSet.mem_insert, List.mem_cons, or_comm (a := key = first),
          or_assoc]
  unfold selection
  generalize hset : (request.queries.flatMap select).foldl SortedSet.insert SortedSet.empty = set
  have hsame : set.toList.toFinset = request.selected select := by
    ext key
    unfold selected
    rw [List.mem_toFinset, List.mem_toFinset, ← SortedSet.mem_iff, ← hset, hmem]
    exact or_iff_right (SortedSet.not_mem_empty key)
  rw [← hsame]
  exact ((List.toFinset_sort (· ≤ ·) (set.ascending.imp Nat.ne_of_lt)).mpr
    (set.ascending.imp Nat.le_of_lt)).symm

theorem length_selection :
    (request.selection select).length = (request.selected select).card := by
  rw [selection_eq_sort, Finset.length_sort]

end BatchRequest

/-! ### One operation for each key -/

/-- The operation is as it was when it was scheduled. -/
structure Operation.ScheduledAt (now : Instant) (operation : Operation) : Prop where
  state : operation.state = .scheduled
  jobKeys : operation.jobKeys = []
  errorMessage : operation.errorMessage = none
  startDate : operation.startDate = now
  endDate : operation.endDate = none

namespace Operation

variable {type : OperationType} {batchId : Uuid} {now : Instant}

theorem targetKeys_scheduleAll (targetKeys : List Nat) :
    ∀ ids, (scheduleAll type batchId now targetKeys ids).1.map targetKey = targetKeys := by
  induction targetKeys with
  | nil => intro ids; rfl
  | cons key rest ih => intro ids; exact congrArg (key :: ·) (ih ids.fresh.2)

theorem of_mem_scheduleAll (targetKeys : List Nat) :
    ∀ ids, ∀ operation ∈ (scheduleAll type batchId now targetKeys ids).1,
      operation.type = type ∧ operation.batchId = batchId ∧ operation.ScheduledAt now ∧
        ∃ n, ids.issued ≤ n ∧ operation.id = ids.stream n := by
  induction targetKeys with
  | nil => intro ids operation ho; exact absurd ho List.not_mem_nil
  | cons key rest ih =>
      intro ids operation ho
      rcases List.mem_cons.mp ho with rfl | hlater
      · exact ⟨rfl, rfl, ⟨rfl, rfl, rfl, rfl, rfl⟩, ids.issued, Nat.le_refl _, rfl⟩
      · obtain ⟨htype, hbatch, hscheduled, n, hle, hid⟩ := ih ids.fresh.2 operation hlater
        exact ⟨htype, hbatch, hscheduled, n, Nat.le_of_succ_le hle, hid⟩

theorem nodup_ids_scheduleAll (targetKeys : List Nat) :
    ∀ ids : UuidSource, ids.NoRepeat →
      ((scheduleAll type batchId now targetKeys ids).1.map Operation.id).Nodup := by
  induction targetKeys with
  | nil => intro ids _; exact List.nodup_nil
  | cons key rest ih =>
      intro ids hnew
      refine List.nodup_cons.mpr ⟨fun hmem => ?_, ih ids.fresh.2 hnew.fresh⟩
      obtain ⟨operation, ho, hid⟩ := List.mem_map.mp hmem
      obtain ⟨-, -, -, n, hle, hlater⟩ := of_mem_scheduleAll rest ids.fresh.2 operation ho
      -- The later one was handed out after the first.
      have hlt : ids.issued < n := hle
      have hsame := hnew n ids.issued (Nat.le_of_lt hlt) (Nat.le_refl _) (hlater.symm.trans hid)
      exact Nat.ne_of_gt hlt hsame

end Operation

namespace BatchRequest

/-- The operations that a request makes, in a batch of their own. -/
def operations (request : BatchRequest) (ids : UuidSource) (now : Instant)
    (select : InstanceQuery → List Nat) : List Operation :=
  (Operation.scheduleAll request.type ids.fresh.1 now (request.selection select) ids.fresh.2).1

/-- There is one scheduled operation for each key, in ascending order of the keys, and all of them
are of one batch. -/
structure Creates (request : BatchRequest) (keys : Finset Nat) (ids : UuidSource) (now : Instant)
    (operations : List Operation) : Prop where
  targets : operations.map Operation.targetKey = keys.sort
  /-- They are told apart by what the source hands out. -/
  distinct : ids.NoRepeat → (operations.map Operation.id).Nodup
  oneBatch : ∃ batchId, ∀ operation ∈ operations, operation.batchId = batchId
  type : ∀ operation ∈ operations, operation.type = request.type
  scheduled : ∀ operation ∈ operations, operation.ScheduledAt now

/-- **A request makes one operation for each selected key.** -/
theorem creates_operations (request : BatchRequest) (ids : UuidSource) (now : Instant)
    (select : InstanceQuery → List Nat) :
    request.Creates (request.selected select) ids now (request.operations ids now select) := by
  have hall : ∀ operation ∈ request.operations ids now select, _ :=
    Operation.of_mem_scheduleAll (request.selection select) ids.fresh.2
  exact
    { targets := (Operation.targetKeys_scheduleAll _ _).trans (request.selection_eq_sort select)
      distinct := fun hnew => Operation.nodup_ids_scheduleAll _ _ hnew.fresh
      oneBatch := ⟨ids.fresh.1, fun operation ho => (hall operation ho).2.1⟩
      type := fun operation ho => (hall operation ho).1
      scheduled := fun operation ho => (hall operation ho).2.2.1 }

end BatchRequest

/-! ### All or nothing -/

namespace StoreLink

variable (link : StoreLink) (ids : UuidSource) (now : Instant) {config : OperationsConfig}
  {select : InstanceQuery → List Nat} {request : BatchRequest}

theorem schedule_tooMany
    (h : config.batchOperationMaxSize < (request.selected select).card) :
    link.schedule ids config now select request =
      (.error (.tooManyInstances config.batchOperationMaxSize (request.selected select).card),
        link, ids) := by
  rw [← request.length_selection] at h ⊢
  exact if_pos h

/-- Operations are returned if they are inserted. -/
theorem schedule_inserts
    (h : (request.selected select).card ≤ config.batchOperationMaxSize) :
    (link.schedule ids config now select request).1 =
        ((link.insert (request.operations ids now select)).1.mapError .store).map
          (fun _ => request.operations ids now select) ∧
      (link.schedule ids config now select request).2.1 =
        (link.insert (request.operations ids now select)).2 := by
  rw [← request.length_selection] at h
  unfold schedule
  dsimp only
  rw [if_neg (Nat.not_lt.mpr h)]
  unfold BatchRequest.operations
  rcases Operation.scheduleAll request.type ids.fresh.1 now (request.selection select)
    ids.fresh.2 with ⟨operations, ids⟩
  dsimp only
  rcases link.insert operations with ⟨e | _, after⟩ <;> exact ⟨rfl, rfl⟩

end StoreLink

namespace BatchRequest

/-- The store behind a connection takes all operations and they are returned, or an error is
returned and the store stays as it is. -/
structure AllOrNothing (request : BatchRequest) (keys : Finset Nat) (limit : Nat)
    (ids : UuidSource) (now : Instant) (operations : List Operation) (link : StoreLink)
    (result : Except ScheduleError (List Operation)) (after : StoreLink) : Prop where
  creates : request.Creates keys ids now operations
  /-- The store takes operations unless the connection fails or one of them is stored already. -/
  accepts : ids.NoRepeat → ((link.insert operations).1 = .ok () ↔
    link.inserts.next.1 = false ∧ ∀ operation ∈ operations, link.store.get? operation.id = none)
  all : keys.card ≤ limit → (link.insert operations).1 = .ok () →
    result = .ok operations ∧ after.store.entries = link.store.entries ++ operations
  tooMany : limit < keys.card → result = .error (.tooManyInstances limit keys.card) ∧ after = link
  refused : keys.card ≤ limit → ∀ e, (link.insert operations).1 = .error e →
    result = .error (.store e) ∧ after.store = link.store
  /-- An insert in place leaves the same table, also where it is refused. -/
  inPlace : (TableProcedure.behind link.inserts.next.1 (.insert operations)).run
    link.store.toOperationTable = TableProcedure.left (link.insert operations)

end BatchRequest

namespace StoreLink

/-- An insert is accepted unless the connection fails or an identifier is taken. -/
theorem insert_eq_ok_iff (link : StoreLink) {operations : List Operation}
    (hdistinct : (operations.map Operation.id).Nodup) :
    (link.insert operations).1 = .ok () ↔ link.inserts.next.1 = false ∧
      ∀ operation ∈ operations, link.store.get? operation.id = none := by
  obtain ⟨inserts, ⟨e, hcause, heq⟩ | ⟨store, hconnected, hinsert, heq⟩⟩ :=
    link.insert_cases operations
  · rw [heq]
    refine ⟨nofun, fun ⟨hconnected, hnew⟩ => ?_⟩
    rcases hcause with hrefused | herror
    · cases hconnected.symm.trans hrefused
    · -- The store would name an operation, but none is stored or repeated.
      obtain ⟨before, operation, rest, rfl, -, htaken, -⟩ := OperationStore.insert_error herror
      rw [List.map_append, List.map_cons, List.nodup_append'] at hdistinct
      rw [List.map_append, List.mem_append] at htaken
      rcases htaken with hstored | hrepeated
      · have hnone := hnew operation (List.mem_append_right _ List.mem_cons_self)
        exact absurd hstored (OperationStore.get?_eq_none_iff.mp hnone)
      · exact absurd List.mem_cons_self (hdistinct.2.2 hrepeated)
  · rw [heq]
    refine iff_of_true rfl ⟨hconnected, fun operation ho => ?_⟩
    exact OperationStore.get?_eq_none_iff.mpr ((OperationStore.insert_ok hinsert).2.2 operation ho)

/-- **A request creates one operation for each selected key, or nothing.** -/
theorem schedule_allOrNothing (link : StoreLink) (ids : UuidSource) (config : OperationsConfig)
    (now : Instant) (select : InstanceQuery → List Nat) (request : BatchRequest) :
    request.AllOrNothing (request.selected select) config.batchOperationMaxSize ids now
      (request.operations ids now select) link
      (link.schedule ids config now select request).1
      (link.schedule ids config now select request).2.1 := by
  have hcreates := request.creates_operations ids now select
  refine
    { creates := hcreates
      accepts := fun hnew => link.insert_eq_ok_iff (hcreates.distinct hnew)
      all := fun hfits hok => ?_
      tooMany := fun hmany => by rw [link.schedule_tooMany ids now hmany]; exact ⟨rfl, rfl⟩
      refused := fun hfits e herror => ?_
      inPlace := TableProcedure.run_insert_behind link _ }
  · obtain ⟨hresult, hafter⟩ := link.schedule_inserts ids now hfits
    obtain ⟨inserts, ⟨cause, -, heq⟩ | ⟨store, -, hinsert, heq⟩⟩ :=
      link.insert_cases (request.operations ids now select)
    · rw [heq] at hok
      cases hok
    · rw [hresult, hafter, heq]
      exact ⟨rfl, (OperationStore.insert_ok hinsert).1⟩
  · obtain ⟨hresult, hafter⟩ := link.schedule_inserts ids now hfits
    obtain ⟨inserts, ⟨cause, -, heq⟩ | ⟨store, -, hinsert, heq⟩⟩ :=
      link.insert_cases (request.operations ids now select)
    · rw [heq] at herror
      cases herror
      rw [hresult, hafter, heq]
      exact ⟨rfl, rfl⟩
    · rw [heq] at herror
      cases herror

end StoreLink

/-! ### The instances of a partition -/

/-- The query asks for the instance. -/
structure InstanceQuery.Matches (query : InstanceQuery) (incidents : IncidentLedger)
    (i : ProcessInstance) : Prop where
  ids : ∀ ids, query.ids = some ids → i.key ∈ ids
  processId : ∀ processId, query.processId = some processId → i.processId = processId
  incident : query.incidentsOnly = true → ∃ incident ∈ incidents.all,
    incident.isActive = true ∧ incident.value.instanceKey = some i.key

theorem IncidentLedger.isEmpty_forInstance_iff (ledger : IncidentLedger) (instanceKey : Nat) :
    (ledger.forInstance instanceKey).isEmpty = false ↔ ∃ incident ∈ ledger.all,
      incident.isActive = true ∧ incident.value.instanceKey = some instanceKey := by
  unfold forInstance active
  simp only [List.isEmpty_eq_false_iff_exists_mem, List.mem_filter, beq_iff_eq, and_assoc]

theorem InstanceQuery.selects_iff {query : InstanceQuery} {incidents : IncidentLedger}
    {i : ProcessInstance} :
    query.selects i (!(incidents.forInstance i.key).isEmpty) = true ↔
      query.Matches incidents i := by
  unfold selects
  simp only [Bool.and_eq_true, Option.all_eq_true, List.contains_iff_mem, beq_iff_eq,
    Bool.or_eq_true, Bool.not_eq_true', incidents.isEmpty_forInstance_iff]
  constructor
  · rintro ⟨⟨hids, hprocess⟩, hopen⟩
    exact ⟨hids, fun processId h => (hprocess processId h).symm,
      fun h => hopen.resolve_left (ne_false_of_eq_true h)⟩
  · rintro ⟨hids, hprocess, hopen⟩
    exact ⟨⟨hids, fun processId h => (hprocess processId h).symm⟩,
      (Bool.eq_false_or_eq_true query.incidentsOnly).symm.imp_right hopen⟩

/-- **A request selects the instances of a partition that some query asks for.** -/
theorem BatchRequest.mem_selected_partition (request : BatchRequest) (p : Partition) {key : Nat} :
    key ∈ request.selected p.select ↔ ∃ i ∈ p.state.processes.allInstances, i.key = key ∧
      ∃ query ∈ request.queries, query.Matches p.state.incidents i := by
  rw [mem_selected]
  unfold Partition.select
  constructor
  · rintro ⟨query, hquery, hkey⟩
    obtain ⟨i, hi, rfl⟩ := List.mem_map.mp hkey
    obtain ⟨hmem, hselects⟩ := List.mem_filter.mp hi
    exact ⟨i, hmem, rfl, query, hquery, InstanceQuery.selects_iff.mp hselects⟩
  · rintro ⟨i, hi, rfl, query, hquery, hmatches⟩
    exact ⟨query, hquery, List.mem_map_of_mem
      (List.mem_filter.mpr ⟨hi, InstanceQuery.selects_iff.mpr hmatches⟩)⟩

/-! ### The main result -/

/-- **A batch request creates one operation for each instance that it selects, or nothing**, for
every selector, limit and store.  When the keys that are selected are not more than the limit and
the store accepts the operations, they are returned and stand in the store behind the others.
Otherwise there is an error, and the store is as it was.  What a broker selects are the instances of
its partition that some query asks for.  Where the source of identifiers repeats none, the
operations are told apart by theirs, and a store that is reached refuses them only for one that it
has. -/
theorem BatchRequest.one_each_or_nothing (request : BatchRequest) :
    (∀ (link : StoreLink) (ids : UuidSource) (config : OperationsConfig) (now : Instant)
      (select : InstanceQuery → List Nat),
      request.AllOrNothing (request.selected select) config.batchOperationMaxSize ids now
        (request.operations ids now select) link
        (link.schedule ids config now select request).1
        (link.schedule ids config now select request).2.1) ∧
    ∀ b : Broker,
      request.AllOrNothing (request.selected b.partition.select)
        b.operations.batchOperationMaxSize b.ids b.now
        (request.operations b.ids b.now b.partition.select) b.store (b.schedule request).1
        (b.schedule request).2.store ∧
      ∀ key, key ∈ request.selected b.partition.select ↔
        ∃ i ∈ b.partition.state.processes.allInstances, i.key = key ∧
          ∃ query ∈ request.queries, query.Matches b.partition.state.incidents i :=
  ⟨fun link ids config now select => link.schedule_allOrNothing ids config now select request,
    fun b => ⟨b.store.schedule_allOrNothing b.ids b.operations b.now b.partition.select request,
      fun _ => request.mem_selected_partition b.partition⟩⟩

/-- Five keys are found, three of them different, and three are allowed. -/
theorem BatchRequest.one_each_or_nothing_overlapping :
    let request : BatchRequest := ⟨[{ incidentsOnly := true }, {}], .updateRetries⟩
    let select := fun query : InstanceQuery => if query.incidentsOnly then [5, 3, 5] else [3, 4]
    let outcome := fun limit => ({} : StoreLink).schedule {} ⟨limit, 1⟩ .epoch select request
    (∃ operations, (outcome 3).1 = .ok operations ∧ (outcome 3).2.1.store.entries = operations ∧
      operations.map Operation.targetKey = [3, 4, 5] ∧ (operations.map Operation.id).Nodup) ∧
    (outcome 2).1 = .error (.tooManyInstances 2 3) := by
  intro request select outcome
  have hcard : (request.selected select).card = 3 := by decide
  have hschedules := fun limit => (one_each_or_nothing request).1 {} {} ⟨limit, 1⟩ .epoch select
  obtain ⟨hresult, hstored⟩ := (hschedules 3).all (Nat.le_of_eq hcard) rfl
  have hdistinct := (hschedules 3).creates.distinct (UuidSource.noRepeat_counted 0)
  refine ⟨⟨_, hresult, hstored, rfl, hdistinct⟩, ?_⟩
  exact ((hschedules 2).tooMany (by rw [hcard]; decide)).1.trans (by rw [hcard])

end Workflow
