/-
What the tasks of a batch do, whoever else uses the partition.

A task is `Ready` when the operation that it holds is the stored one.  Collecting leads to tasks
that are ready and about different operations (`collectTasks_ready`), and doing one of them leaves
the others ready (`Does.others`), so each is ready when its turn comes: a batch collects its tasks
and then takes turns (`executeBatch_turns`).
-/
import Workflow.Proofs.Broker.Flight
import Workflow.Proofs.Broker.Schedule

namespace Workflow

/-! ### Flights -/

/-- Looking up a key when the entries of another one are taken out. -/
theorem lookup_filter_ne {α β : Type} [BEq α] [LawfulBEq α] [DecidableEq α] (key other : α) :
    ∀ entries : List (α × β), (entries.filter fun entry => entry.1 != key).lookup other =
      if other = key then none else entries.lookup other
  | [] => by simp
  | (first, value) :: rest => by
      have ih := lookup_filter_ne key other rest
      by_cases hfirst : first = key
      · subst hfirst
        by_cases hother : other = first
        · simpa [hother] using ih
        · have hbeq : (other == first) = false := by simpa using hother
          simpa [hother, List.lookup_cons, hbeq] using ih
      · rw [List.filter_cons, if_pos (by simpa using hfirst), List.lookup_cons, List.lookup_cons,
          ih]
        by_cases hother : other = first
        · subst hother
          simp [hfirst]
        · have hbeq : (other == first) = false := by simpa using hother
          simp [hbeq]

namespace Executor

theorem flight?_land (executor : Executor) (id other : Uuid) :
    (executor.land id).flight? other = if other = id then none else executor.flight? other :=
  lookup_filter_ne id other executor.flights

theorem flight?_board (executor : Executor) (id other : Uuid) (flight : Flight) :
    (executor.board id flight).flight? other =
      if other = id then some flight else executor.flight? other := by
  show ((id, flight) :: (executor.land id).flights).lookup other = _
  by_cases hother : other = id
  · simp [hother]
  · have hbeq : (other == id) = false := by simpa using hother
    rw [List.lookup_cons, hbeq, if_neg hother]
    exact (executor.flight?_land id other).trans (if_neg hother)

end Executor

/-- A flight that is polled is about the same jobs. -/
theorem Flight.jobKeys_poll (flight : Flight) (router : ResponseRouter) :
    (flight.poll router).1.jobKeys = flight.jobKeys := by
  have hcollect : ∀ (requests : List PendingResponse) (flight : Flight) (router : ResponseRouter),
      (collect requests flight router).1.jobKeys = flight.jobKeys := by
    intro requests
    induction requests with
    | nil => intro flight router; rfl
    | cons pending rest ih =>
        intro flight router
        unfold collect
        rcases router.take pending.ticket with ⟨delivery, router⟩
        cases delivery <;> exact ih _ router
  exact hcollect flight.waiting { flight with waiting := [] } router

/-! ### The store -/

namespace Broker

variable {evaluator : Evaluator} {b b' b'' : Broker} {s s' s'' : Session}

/-- Writing an operation down fails, or the store has it. -/
theorem record_cases (b : Broker) (operation : Operation) :
    ∃ updates, (∃ e, b.record operation =
        (.error e, { b with store := { b.store with updates } })) ∨
      ∃ store, b.store.store.update operation = .ok store ∧
        b.record operation = (.ok (), { b with store := { b.store with store, updates } }) := by
  unfold record
  obtain ⟨updates, ⟨e, heq⟩ | ⟨store, hupdate, heq⟩⟩ := b.store.update_cases operation
  · exact ⟨updates, .inl ⟨_, by rw [heq]; rfl⟩⟩
  · exact ⟨updates, .inr ⟨store, hupdate, by rw [heq]; rfl⟩⟩

/-- Stored operations are fetched, or nothing is. -/
theorem fetch_cases (b : Broker) (state : OperationState) (limit : Nat) :
    ∃ fetches, (∃ e, b.fetch state limit =
        (.error e, { b with store := { b.store with fetches } })) ∨
      b.fetch state limit = (.ok (b.store.store.fetch state limit),
        { b with store := { b.store with fetches } }) := by
  refine ⟨b.store.fetches.next.2, ?_⟩
  unfold fetch StoreLink.fetch
  rcases b.store.fetches.next with ⟨refused, fetches⟩
  cases refused with
  | true => exact .inl ⟨_, rfl⟩
  | false => exact .inr rfl

/-! ### Tasks -/

/-- The flight of an operation. -/
def flight? (b : Broker) (id : Uuid) : Option Flight := b.executor.flight? id

/-- The stored operation with an identifier. -/
def stored? (b : Broker) (id : Uuid) : Option Operation := b.store.store.get? id

/-- The task holds the stored operation.  To settle it is to write down how its flight has ended. -/
def Ready (b : Broker) : OperationTask → Prop
  | .dispatch operation => b.stored? operation.id = some operation ∧ operation.state = .scheduled
  | .settle operation settlement =>
      b.stored? operation.id = some operation ∧ operation.state = .sent ∧
        ∃ flight, b.flight? operation.id = some flight ∧ flight.settlement? = some settlement

end Broker

/-- The operation of a task. -/
def OperationTask.operation : OperationTask → Operation
  | .dispatch operation => operation
  | .settle operation _ => operation

namespace Broker

variable {evaluator : Evaluator} {b b' b'' : Broker} {s s' s'' : Session}

/-- Flights are the executor's. -/
theorem flight?_congr (h : b'.executor = b.executor) (id : Uuid) :
    b'.flight? id = b.flight? id := congrArg (Executor.flight? · id) h

/-- Stored operations are the store's. -/
theorem stored?_congr (h : b'.store.store = b.store.store) (id : Uuid) :
    b'.stored? id = b.stored? id := congrArg (OperationStore.get? · id) h

theorem Ready.of_same {task : OperationTask} (h : b.Ready task)
    (hstored : b'.stored? task.operation.id = b.stored? task.operation.id)
    (hflight : b'.flight? task.operation.id = b.flight? task.operation.id) : b'.Ready task := by
  cases task with
  | dispatch operation => exact ⟨hstored.trans h.1, h.2⟩
  | settle operation settlement =>
      obtain ⟨hget, hstate, flight, hold, hend⟩ := h
      exact ⟨hstored.trans hget, hstate, flight, hflight.trans hold, hend⟩

/-- Operations that are fetched are different stored ones in that state. -/
theorem stored_fetch (b : Broker) (state : OperationState) (limit : Nat) :
    (∀ operation ∈ b.store.store.fetch state limit,
      b.stored? operation.id = some operation ∧ operation.state = state) ∧
      ((b.store.store.fetch state limit).map Operation.id).Nodup := by
  have hsublist : (b.store.store.fetch state limit).Sublist b.store.store.entries :=
    (List.take_sublist _ _).trans List.filter_sublist
  refine ⟨fun operation ho => ⟨OperationStore.get?_of_mem (hsublist.subset ho), ?_⟩,
    b.store.store.nodup_ids.sublist (hsublist.map _)⟩
  simpa using (List.mem_filter.mp (List.mem_of_mem_take ho)).2

/-! ### Scheduling -/

/-- Operations are inserted, or the store is left alone. -/
theorem schedule_cases (b : Broker) (request : BatchRequest) :
    ∃ store ids, (b.schedule request).2 = { b with store, ids } ∧
      (store.store = b.store.store ∨ ∃ operations,
        b.store.store.insert operations = .ok store.store ∧
          ∀ operation ∈ operations, operation.ScheduledAt b.now) := by
  refine ⟨(b.store.schedule b.ids b.operations b.now b.partition.select request).2.1,
    (b.store.schedule b.ids b.operations b.now b.partition.select request).2.2, rfl, ?_⟩
  have hcreates := request.creates_operations b.ids b.now b.partition.select
  rcases Nat.lt_or_ge b.operations.batchOperationMaxSize
    (request.selected b.partition.select).card with hmany | hfits
  · rw [b.store.schedule_tooMany b.ids b.now hmany]
    exact .inl rfl
  · rw [(b.store.schedule_inserts b.ids b.now hfits).2]
    obtain ⟨inserts, ⟨e, -, heq⟩ | ⟨store, -, hinsert, heq⟩⟩ :=
      b.store.insert_cases (request.operations b.ids b.now b.partition.select)
    · rw [heq]
      exact .inl rfl
    · rw [heq]
      exact .inr ⟨_, hinsert, hcreates.scheduled⟩

@[simp] theorem partition_schedule (b : Broker) (request : BatchRequest) :
    (b.schedule request).2.partition = b.partition := by
  obtain ⟨store, ids, heq, -⟩ := b.schedule_cases request
  rw [heq]

@[simp] theorem executor_schedule (b : Broker) (request : BatchRequest) :
    (b.schedule request).2.executor = b.executor := by
  obtain ⟨store, ids, heq, -⟩ := b.schedule_cases request
  rw [heq]

@[simp] theorem gateways_schedule (b : Broker) (request : BatchRequest) :
    (b.schedule request).2.gateways = b.gateways := by
  obtain ⟨store, ids, heq, -⟩ := b.schedule_cases request
  rw [heq]

/-- Scheduling leaves stored operations alone. -/
theorem stored?_schedule (b : Broker) (request : BatchRequest) (id : Uuid) :
    (b.schedule request).2.stored? id = b.stored? id ∨
    b.stored? id = none ∧ ∃ operation, (b.schedule request).2.stored? id = some operation ∧
      operation.ScheduledAt b.now := by
  obtain ⟨store, ids, heq, hsame | ⟨operations, hinsert, hscheduled⟩⟩ := b.schedule_cases request
  · rw [heq]
    exact .inl (stored?_congr hsame id)
  · have hget : (b.schedule request).2.stored? id =
        (b.stored? id).or (operations.find? fun operation => operation.id == id) := by
      rw [heq]
      unfold stored?
      rw [OperationStore.get?_eq_find?, OperationStore.get?_eq_find?,
        (OperationStore.insert_ok hinsert).1, List.find?_append]
    cases hstored : b.stored? id with
    | some operation =>
        rw [hstored, Option.some_or] at hget
        exact .inl hget
    | none =>
        rw [hstored, Option.none_or] at hget
        cases hfound : operations.find? fun operation => operation.id == id with
        | none => exact .inl (hget.trans hfound)
        | some operation =>
            exact .inr ⟨rfl, operation, hget.trans hfound,
              hscheduled operation (List.mem_of_find?_eq_some hfound)⟩

/-! ### Collecting -/

/-- Looking for responses changes the flight of the operation, if it has one. -/
theorem poll_cases (b : Broker) (id : Uuid) :
    (b.flight? id = none ∧ b.poll id = (none, b)) ∨
    ∃ flight, b.flight? id = some flight ∧
      b.poll id = ((flight.poll b.partition.host.router).1.settlement?,
        { b with
          partition := b.partition.withRouter (flight.poll b.partition.host.router).2
          executor := b.executor.board id (flight.poll b.partition.host.router).1 }) := by
  unfold poll flight?
  cases b.executor.flight? id with
  | none => exact .inl ⟨rfl, rfl⟩
  | some flight => exact .inr ⟨flight, rfl, rfl⟩

@[simp] theorem store_poll (b : Broker) (id : Uuid) : (b.poll id).2.store = b.store := by
  rcases b.poll_cases id with ⟨-, heq⟩ | ⟨flight, -, heq⟩ <;> rw [heq]

/-- A poll begins no flight and ends none, and it changes no jobs. -/
theorem flight?_poll (b : Broker) (other id : Uuid) :
    b.flight? id = none ∧ (b.poll other).2.flight? id = none ∨
    ∃ flight polled, b.flight? id = some flight ∧ (b.poll other).2.flight? id = some polled ∧
      polled.jobKeys = flight.jobKeys := by
  have hsame : (b.poll other).2.flight? id = b.flight? id →
      b.flight? id = none ∧ (b.poll other).2.flight? id = none ∨
      ∃ flight polled, b.flight? id = some flight ∧ (b.poll other).2.flight? id = some polled ∧
        polled.jobKeys = flight.jobKeys := by
    intro hsame
    rw [hsame]
    cases b.flight? id with
    | none => exact .inl ⟨rfl, rfl⟩
    | some flight => exact .inr ⟨flight, flight, rfl, rfl, rfl⟩
  rcases b.poll_cases other with ⟨-, heq⟩ | ⟨flight, hflight, heq⟩
  · exact hsame (by rw [heq])
  · have hboards : (b.poll other).2.flight? id =
        if id = other then some (flight.poll b.partition.host.router).1 else b.flight? id := by
      rw [heq]
      exact b.executor.flight?_board _ _ _
    by_cases hid : id = other
    · rw [if_pos hid] at hboards
      exact .inr ⟨flight, _, hid ▸ hflight, hboards, flight.jobKeys_poll _⟩
    · exact hsame (hboards.trans (if_neg hid))

/-- What collecting tasks is made of: stored operations are fetched, and flights are polled. -/
inductive Collects (b : Broker) : Broker → Prop
  | nothing : Collects b b
  | fetched {c : Broker} (h : Collects b c) (fetches : Outage) :
      Collects b { c with store := { c.store with fetches } }
  | polled {c : Broker} (h : Collects b c) (id : Uuid) : Collects b (c.poll id).2

theorem Collects.store {c : Broker} (h : Collects b c) : c.store.store = b.store.store := by
  induction h with
  | nothing => rfl
  | fetched _ _ ih => exact ih
  | @polled c _ id ih =>
      rw [store_poll]
      exact ih

/-- Tasks to settle are collected for some of the operations. -/
theorem settleTasks_ready {d : Broker} (operations : List Operation) :
    ∀ (max : Nat) (b : Broker), Collects d b → (operations.map Operation.id).Nodup →
      (∀ operation ∈ operations,
        b.stored? operation.id = some operation ∧ operation.state = .sent) →
      Collects d (settleTasks max operations b).2 ∧
        (∀ task ∈ (settleTasks max operations b).1,
          (settleTasks max operations b).2.Ready task ∧ task.operation.state = .sent) ∧
        ((settleTasks max operations b).1.map fun task => task.operation.id).Sublist
          (operations.map Operation.id) ∧
        ∀ other, other ∉ operations.map Operation.id →
          (settleTasks max operations b).2.flight? other = b.flight? other := by
  induction operations with
  | nil =>
      intro max b h _ _
      unfold settleTasks
      exact ⟨h, fun _ ht => absurd ht List.not_mem_nil, List.nil_sublist _, fun _ _ => rfl⟩
  | cons operation rest ih =>
      intro max b h hnodup hstored
      obtain ⟨hnew, hnodup'⟩ := List.nodup_cons.mp hnodup
      cases max with
      | zero =>
          unfold settleTasks
          exact ⟨h, fun _ ht => absurd ht List.not_mem_nil, List.nil_sublist _, fun _ _ => rfl⟩
      | succ max =>
          have hpolled : Collects d (b.poll operation.id).2 := h.polled operation.id
          have hkept : (b.poll operation.id).2.store.store = b.store.store :=
            hpolled.store.trans h.store.symm
          have hothers : ∀ other, other ≠ operation.id →
              (b.poll operation.id).2.flight? other = b.flight? other := by
            intro other hother
            rcases b.poll_cases operation.id with ⟨-, heq⟩ | ⟨flight, -, heq⟩ <;> rw [heq]
            exact (b.executor.flight?_board _ _ _).trans (if_neg hother)
          have hend : ∀ settlement, (b.poll operation.id).1 = some settlement → ∃ flight,
              (b.poll operation.id).2.flight? operation.id = some flight ∧
                flight.settlement? = some settlement := by
            intro settlement hsettled
            rcases b.poll_cases operation.id with ⟨-, heq⟩ | ⟨flight, -, heq⟩ <;>
              rw [heq] at hsettled ⊢
            · cases hsettled
            · exact ⟨_, (b.executor.flight?_board _ _ _).trans (if_pos rfl), hsettled⟩
          have hstored' : ∀ other ∈ rest, (b.poll operation.id).2.stored? other.id = some other ∧
              other.state = .sent := by
            intro other ho
            rw [stored?_congr hkept]
            exact hstored other (List.mem_cons_of_mem _ ho)
          unfold settleTasks
          rcases heq : b.poll operation.id with ⟨none | settlement, c⟩ <;>
            rw [heq] at hpolled hkept hothers hstored' hend
          · obtain ⟨hrest, hready, hsublist, hsame⟩ := ih (max + 1) c hpolled hnodup' hstored'
            refine ⟨hrest, hready, hsublist.cons _, fun other hother => ?_⟩
            rw [List.map_cons, List.mem_cons, not_or] at hother
            exact (hsame other hother.2).trans (hothers other hother.1)
          · obtain ⟨hrest, hready, hsublist, hsame⟩ := ih max c hpolled hnodup' hstored'
            refine ⟨hrest, List.forall_mem_cons.mpr ⟨⟨?_, ?_⟩, hready⟩, hsublist.cons_cons _,
              fun other hother => ?_⟩
            · obtain ⟨hget, hstate⟩ := hstored operation List.mem_cons_self
              obtain ⟨flight, hflight, hsettled⟩ := hend settlement rfl
              have hlast : (settleTasks max rest c).2.store.store = b.store.store :=
                hrest.store.trans h.store.symm
              exact ⟨(stored?_congr hlast _).trans hget, hstate, flight,
                (hsame _ hnew).trans hflight, hsettled⟩
            · exact (hstored operation List.mem_cons_self).2
            · rw [List.map_cons, List.mem_cons, not_or] at hother
              exact (hsame other hother.2).trans (hothers other hother.1)

/-- **The tasks that are collected are ready, and about different operations.** -/
theorem collectTasks_ready (b : Broker) (max : Nat) :
    Collects b (b.collectTasks max).2 ∧ ∀ tasks, (b.collectTasks max).1 = .ok tasks →
      (∀ task ∈ tasks, (b.collectTasks max).2.Ready task) ∧
        (tasks.map fun task => task.operation.id).Nodup := by
  unfold collectTasks
  obtain ⟨fetches, ⟨e, hfetch⟩ | hfetch⟩ := b.fetch_cases .sent b.store.store.size
  · rw [hfetch]
    exact ⟨Collects.nothing.fetched fetches, fun tasks hok => by cases hok⟩
  · rw [hfetch]
    dsimp only
    obtain ⟨hsent, hnodup⟩ := b.stored_fetch .sent b.store.store.size
    obtain ⟨hsettle, hready, hsublist, -⟩ :=
      settleTasks_ready _ max _ (Collects.nothing.fetched fetches) hnodup hsent
    rcases heq : settleTasks max (b.store.store.fetch .sent b.store.store.size)
      { b with store := { b.store with fetches } } with ⟨tasks, c⟩
    rw [heq] at hsettle hready hsublist
    dsimp only
    by_cases hroom : tasks.length < max
    · rw [if_pos hroom]
      obtain ⟨fetches', ⟨e, hfetch'⟩ | hfetch'⟩ := c.fetch_cases .scheduled (max - tasks.length)
      · rw [hfetch']
        exact ⟨hsettle.fetched fetches', fun tasks hok => by cases hok⟩
      · rw [hfetch']
        refine ⟨hsettle.fetched fetches', fun all hok => ?_⟩
        cases hok
        obtain ⟨hscheduled, hnodup'⟩ := c.stored_fetch .scheduled (max - tasks.length)
        refine ⟨List.forall_mem_append.mpr ⟨fun task ht => ?_, fun task ht => ?_⟩, ?_⟩
        · exact (hready task ht).1.of_same rfl rfl
        · obtain ⟨operation, ho, rfl⟩ := List.mem_map.mp ht
          exact hscheduled operation ho
        · rw [List.map_append, List.map_map]
          refine List.nodup_append.mpr ⟨hnodup.sublist hsublist, hnodup', ?_⟩
          -- A stored operation is in one state only.
          intro id hid other hother heq
          obtain ⟨task, ht, rfl⟩ := List.mem_map.mp hid
          obtain ⟨operation, ho, rfl⟩ := List.mem_map.mp hother
          obtain ⟨hget, hstate⟩ := hscheduled operation ho
          have hheld : c.stored? task.operation.id = some task.operation := by
            cases task with
            | dispatch operation => exact (hready _ ht).1.1
            | settle operation settlement => exact (hready _ ht).1.1
          rw [heq] at hheld
          cases hget.symm.trans hheld
          cases hstate.symm.trans (hready task ht).2
    · rw [if_neg hroom]
      refine ⟨hsettle, fun all hok => ?_⟩
      cases hok
      exact ⟨fun task ht => (hready task ht).1, hnodup.sublist hsublist⟩

/-! ### Doing a task -/

/-- The jobs of an instance that are sent commands for, by their keys. -/
def troubledKeys (p : Partition) (instanceKey : Nat) : List Nat :=
  (troubledJobs p instanceKey).map Prod.fst

/-- The requests of an operation, by the jobs they are about. -/
def requestsOf (b : Broker) (operation : Operation) : List (Nat × CommandRequest) :=
  (troubledJobs b.partition operation.targetKey).map fun (key, job) =>
    (key, retriesRequest b.operations.updateRetriesValue key job)

theorem map_fst_requestsOf (b : Broker) (operation : Operation) :
    (b.requestsOf operation).map Prod.fst = troubledKeys b.partition operation.targetKey := by
  unfold requestsOf troubledKeys
  rw [List.map_map]
  rfl

/-- Each request is to update the retries of its job. -/
theorem of_mem_requestsOf {operation : Operation} {key : Nat} {request : CommandRequest}
    (h : (key, request) ∈ b.requestsOf operation) :
    request.key = some key ∧ request.intent = .job .updateRetries := by
  obtain ⟨⟨key, job⟩, -, heq⟩ := List.mem_map.mp h
  cases heq
  exact ⟨rfl, rfl⟩

/-- The flight of requests that were sent. -/
def launch (sent : List (Nat × PendingResponse)) : Flight :=
  { jobKeys := sent.map Prod.fst, waiting := sent.map Prod.snd }

/-- An operation that was sent is written down again.  Another one has nothing to send, or cannot
send the first of its requests, or departs. -/
theorem dispatch_cases (b : Broker) (operation : Operation) :
    (∃ flight, b.flight? operation.id = some flight ∧
      b.dispatch operation = b.record (operation.sent flight.jobKeys)) ∨
    b.flight? operation.id = none ∧
      (b.requestsOf operation = [] ∧
        b.dispatch operation = b.record (operation.failed noIncidentsMessage b.now) ∨
      b.requestsOf operation ≠ [] ∧
        ∃ sent failure c, sendAll (b.requestsOf operation) b = (sent, failure, c) ∧
          ((∃ e : PartitionError, sent = [] ∧
              b.dispatch operation = (.error (.processing e.message), c)) ∨
            sent ≠ [] ∧ b.dispatch operation =
              ({ c with executor := c.executor.board operation.id (launch sent) } : Broker).record
                (operation.sent (sent.map Prod.fst)))) := by
  unfold dispatch flight?
  cases hflight : b.executor.flight? operation.id with
  | some flight => exact .inl ⟨flight, rfl, rfl⟩
  | none =>
      refine .inr ⟨rfl, ?_⟩
      show b.requestsOf operation = [] ∧ (if (b.requestsOf operation).isEmpty then _ else _) = _ ∨ _
      by_cases hempty : b.requestsOf operation = []
      · exact .inl ⟨hempty, if_pos (List.isEmpty_iff.mpr hempty)⟩
      · refine .inr ⟨hempty, ?_⟩
        dsimp only
        rw [show ((troubledJobs b.partition operation.targetKey).map fun (key, job) =>
          (key, retriesRequest b.operations.updateRetriesValue key job)) = b.requestsOf operation
          from rfl, if_neg (by simpa using hempty)]
        rcases hsend : sendAll (b.requestsOf operation) b with ⟨sent, failure, c⟩
        refine ⟨sent, failure, c, rfl, ?_⟩
        cases sent with
        | cons first rest => exact .inr ⟨List.cons_ne_nil _ _, rfl⟩
        | nil =>
            cases failure with
            | some e => exact .inl ⟨e, rfl, rfl⟩
            | none =>
                exact absurd (List.map_eq_nil_iff.mp ((Sends.of_eq hsend).all rfl).symm) hempty

/-- The store takes the next version of an operation, or stays as it is. -/
def Writes (b c : Broker) (next : Operation) : Prop :=
  c.store.store = b.store.store ∨ b.store.store.update next = .ok c.store.store

theorem record_writes (b : Broker) (next : Operation) :
    (b.record next).2 = { b with store := (b.record next).2.store } ∧
      Writes b (b.record next).2 next := by
  obtain ⟨updates, ⟨e, heq⟩ | ⟨store, hupdate, heq⟩⟩ := b.record_cases next <;> rw [heq]
  · exact ⟨rfl, .inl rfl⟩
  · exact ⟨rfl, .inr hupdate⟩

/-- What doing a task comes to. -/
inductive Does (b c : Broker) : OperationTask → Prop
  /-- The operation was sent before, which is written down. -/
  | noted {operation : Operation} (flight : Flight)
      (hflight : b.flight? operation.id = some flight) (hkept : c = { b with store := c.store })
      (hwrites : Writes b c (operation.sent flight.jobKeys)) : Does b c (.dispatch operation)
  /-- There is nothing to send, and the operation fails. -/
  | refused {operation : Operation} (hflight : b.flight? operation.id = none)
      (hnothing : b.requestsOf operation = []) (hkept : c = { b with store := c.store })
      (hwrites : Writes b c (operation.failed noIncidentsMessage b.now)) :
      Does b c (.dispatch operation)
  /-- The first request cannot be sent. -/
  | stuck {operation : Operation} (hflight : b.flight? operation.id = none)
      (hsome : b.requestsOf operation ≠ [])
      (hsend : ∃ failure, sendAll (b.requestsOf operation) b = ([], failure, c)) :
      Does b c (.dispatch operation)
  /-- The operation departs, which is written down. -/
  | departed {operation : Operation} {d : Broker} (sent : List (Nat × PendingResponse))
      (hflight : b.flight? operation.id = none) (hsome : sent ≠ [])
      (hsend : ∃ failure, sendAll (b.requestsOf operation) b = (sent, failure, d))
      (hkept : c = { d with
        executor := d.executor.board operation.id (launch sent), store := c.store })
      (hwrites : Writes b c (operation.sent (launch sent).jobKeys)) : Does b c (.dispatch operation)
  /-- The end cannot be written down. -/
  | unsettled {operation : Operation} {settlement : Settlement}
      (hkept : c = { b with store := c.store }) (hstore : c.store.store = b.store.store) :
      Does b c (.settle operation settlement)
  /-- The end is written down, and the flight is forgotten. -/
  | settled {operation : Operation} {settlement : Settlement}
      (hkept : c = { b with store := c.store, executor := b.executor.land operation.id })
      (hupdate : b.store.store.update (ended operation settlement b.now) = .ok c.store.store) :
      Does b c (.settle operation settlement)

/-- **Doing a task.** -/
theorem perform_does (b : Broker) (task : OperationTask) : Does b (b.perform task).2 task := by
  cases task with
  | dispatch operation =>
      show Does b (b.dispatch operation).2 _
      rcases b.dispatch_cases operation with ⟨flight, hflight, heq⟩ | ⟨hflight,
        ⟨hnothing, heq⟩ | ⟨hsome, sent, failure, c, hsend, ⟨e, rfl, heq⟩ | ⟨hsent, heq⟩⟩⟩ <;>
        rw [heq]
      · exact .noted flight hflight (b.record_writes _).1 (b.record_writes _).2
      · exact .refused hflight hnothing (b.record_writes _).1 (b.record_writes _).2
      · exact .stuck hflight hsome ⟨failure, hsend⟩
      · have hsends := Sends.of_eq hsend
        obtain ⟨hkept, hwrites⟩ := record_writes
          { c with executor := c.executor.board operation.id (launch sent) }
          (operation.sent (sent.map Prod.fst))
        have hstore : c.store = b.store := (congrArg Broker.store hsends.kept :)
        refine .departed sent hflight hsent ⟨failure, hsend⟩ hkept ?_
        unfold Writes at hwrites ⊢
        rw [← hstore]
        exact hwrites
  | settle operation settlement =>
      show Does b (b.settle operation settlement).2 _
      unfold settle
      obtain ⟨updates, ⟨e, heq⟩ | ⟨store, hupdate, heq⟩⟩ :=
        b.record_cases (ended operation settlement b.now) <;> rw [heq]
      · exact .unsettled rfl rfl
      · exact .settled rfl hupdate

@[simp] theorem id_ended (operation : Operation) (settlement : Settlement) (now : Instant) :
    (ended operation settlement now).id = operation.id := by
  cases settlement <;> rfl

theorem Writes.stored? {c : Broker} {next : Operation} (h : Writes b c next) (id : Uuid) :
    c.stored? id = b.stored? id ∨ id = next.id ∧ c.stored? id = some next := by
  rcases h with hsame | hupdate
  · exact .inl (stored?_congr hsame id)
  · have hget := (OperationStore.update_ok hupdate id).1
    by_cases hid : id = next.id
    · exact .inr ⟨hid, hget.trans (if_pos hid)⟩
    · exact .inl (hget.trans (if_neg hid))

namespace Does

variable {c : Broker} {task : OperationTask}

/-- The store takes one operation at most, the next version of the one that the task is about. -/
theorem writes (h : Does b c task) : ∃ next, next.id = task.operation.id ∧ Writes b c next := by
  cases h with
  | noted flight hflight hkept hwrites => exact ⟨Operation.sent _ _, rfl, hwrites⟩
  | refused hflight hnothing hkept hwrites => exact ⟨Operation.failed _ _ _, rfl, hwrites⟩
  | @stuck operation hflight hsome hsend =>
      obtain ⟨failure, hsends⟩ := hsend.imp fun _ => Sends.of_eq
      exact ⟨operation, rfl, .inl (by rw [hsends.kept])⟩
  | departed sent hflight hsome hsend hkept hwrites => exact ⟨Operation.sent _ _, rfl, hwrites⟩
  | @unsettled operation settlement hkept hstore => exact ⟨operation, rfl, .inl hstore⟩
  | settled hkept hupdate => exact ⟨_, id_ended _ _ _, .inr hupdate⟩

/-- Doing a task leaves the other operations alone. -/
theorem others (h : Does b c task) {id : Uuid} (hother : id ≠ task.operation.id) :
    c.stored? id = b.stored? id ∧ c.flight? id = b.flight? id := by
  obtain ⟨next, hid, hwrites⟩ := h.writes
  refine ⟨(hwrites.stored? id).resolve_right fun hsame => hother (hsame.1.trans hid), ?_⟩
  unfold flight?
  cases h with
  | noted flight hflight hkept hwrites => rw [hkept]
  | refused hflight hnothing hkept hwrites => rw [hkept]
  | stuck hflight hsome hsend =>
      obtain ⟨failure, hsends⟩ := hsend.imp fun _ => Sends.of_eq
      rw [hsends.kept]
  | departed sent hflight hsome hsend hkept hwrites =>
      obtain ⟨failure, hsends⟩ := hsend.imp fun _ => Sends.of_eq
      rw [hkept, hsends.kept]
      exact (Executor.flight?_board _ _ _ _).trans (if_neg hother)
  | unsettled hkept hstore => rw [hkept]
  | settled hkept hupdate =>
      rw [hkept]
      exact (Executor.flight?_land _ _ _).trans (if_neg hother)

/-- Neither the engine nor the clock of the partition changes. -/
theorem partition (h : Does b c task) : c.partition.processor = b.partition.processor ∧
    c.partition.host.clock = b.partition.host.clock := by
  cases h with
  | noted flight hflight hkept hwrites => rw [hkept]; exact ⟨rfl, rfl⟩
  | refused hflight hnothing hkept hwrites => rw [hkept]; exact ⟨rfl, rfl⟩
  | stuck hflight hsome hsend =>
      obtain ⟨failure, hsends⟩ := hsend.imp fun _ => Sends.of_eq
      exact ⟨hsends.processor, hsends.clock⟩
  | departed sent hflight hsome hsend hkept hwrites =>
      obtain ⟨failure, hsends⟩ := hsend.imp fun _ => Sends.of_eq
      rw [hkept]
      exact ⟨hsends.processor, hsends.clock⟩
  | unsettled hkept hstore => rw [hkept]; exact ⟨rfl, rfl⟩
  | settled hkept hupdate => rw [hkept]; exact ⟨rfl, rfl⟩

/-- What comes to the log is nothing, or the commands of an operation that departs. -/
theorem records (h : Does b c task) : ∃ appended,
    c.partition.records = b.partition.records ++ appended := by
  cases h with
  | noted flight hflight hkept hwrites => exact ⟨[], by rw [hkept, List.append_nil]⟩
  | refused hflight hnothing hkept hwrites => exact ⟨[], by rw [hkept, List.append_nil]⟩
  | stuck hflight hsome hsend =>
      obtain ⟨failure, hsends⟩ := hsend.imp fun _ => Sends.of_eq
      exact hsends.carried.imp fun _ => And.left
  | departed sent hflight hsome hsend hkept hwrites =>
      obtain ⟨failure, hsends⟩ := hsend.imp fun _ => Sends.of_eq
      rw [hkept]
      exact hsends.carried.imp fun _ => And.left
  | unsettled hkept hstore => exact ⟨[], by rw [hkept, List.append_nil]⟩
  | settled hkept hupdate => exact ⟨[], by rw [hkept, List.append_nil]⟩

end Does

end Broker

/-! ### Turns -/

/-- A task whose turn it is. -/
structure Turn where
  /-- The broker when the turn begins. -/
  broker : Broker
  /-- The task. -/
  task : OperationTask

namespace Turn

/-- The broker when the turn is over. -/
def after (turn : Turn) : Broker := (turn.broker.perform turn.task).2

/-- The operation that the turn is about. -/
def id (turn : Turn) : Uuid := turn.task.operation.id

/-- What the turn appends to the log. -/
def appended (turn : Turn) : List Record :=
  turn.after.partition.records.drop turn.broker.partition.records.length

theorem does (turn : Turn) : Broker.Does turn.broker turn.after turn.task :=
  turn.broker.perform_does turn.task

theorem records_after (turn : Turn) :
    turn.after.partition.records = turn.broker.partition.records ++ turn.appended := by
  obtain ⟨appended, hlog⟩ := turn.does.records
  unfold Turn.appended
  rw [hlog, List.drop_left]

end Turn

namespace Broker

/-- The turns that tasks get; after the first failure there is none. -/
def turnsOf : List OperationTask → Broker → List Turn
  | [], _ => []
  | task :: tasks, b =>
      ⟨b, task⟩ :: match b.perform task with
        | (.error _, _) => []
        | (.ok _, b) => turnsOf tasks b

/-- The turns of the batch that is carried out next. -/
def turns (b : Broker) : List Turn :=
  match b.collectTasks b.executor.batchSize with
  | (.error _, _) => []
  | (.ok tasks, b) => turnsOf tasks b

/-- Turns that follow one another, each of a task that is ready. -/
inductive Turns : Broker → List Turn → Broker → Prop
  | none (b : Broker) : Turns b [] b
  | next {b c : Broker} {turn : Turn} {turns : List Turn} (hbegins : turn.broker = b)
      (hready : b.Ready turn.task) (hrest : Turns turn.after turns c) : Turns b (turn :: turns) c

/-- Tasks that are ready and about different operations take turns. -/
theorem execute_turns (tasks : List OperationTask) :
    ∀ b : Broker, (∀ task ∈ tasks, b.Ready task) →
      (tasks.map fun task => task.operation.id).Nodup →
      Turns b (turnsOf tasks b) (execute tasks b).2 := by
  induction tasks with
  | nil => intro b _ _; exact .none b
  | cons task rest ih =>
      intro b hready hnodup
      obtain ⟨hnew, hnodup'⟩ := List.nodup_cons.mp hnodup
      have hfirst := hready task List.mem_cons_self
      have hdoes := b.perform_does task
      unfold execute turnsOf
      rcases hperform : b.perform task with ⟨e | ⟨⟩, c⟩
      · exact .next rfl hfirst (by unfold Turn.after; rw [hperform]; exact .none c)
      · rw [hperform] at hdoes
        have hready' : ∀ other ∈ rest, c.Ready other := by
          intro other ho
          obtain ⟨hstored, hflight⟩ := hdoes.others fun hsame =>
            hnew (List.mem_map.mpr ⟨other, ho, hsame⟩)
          exact (hready other (List.mem_cons_of_mem _ ho)).of_same hstored hflight
        refine .next rfl hfirst ?_
        unfold Turn.after
        rw [hperform]
        exact ih c hready' hnodup'

/-- **A batch collects its tasks and then takes turns.** -/
theorem executeBatch_turns (b : Broker) :
    ∃ c, Collects b c ∧ Turns c b.turns b.executeBatch.2 := by
  obtain ⟨hcollects, hready⟩ := b.collectTasks_ready b.executor.batchSize
  refine ⟨_, hcollects, ?_⟩
  unfold turns executeBatch
  rcases hcollect : b.collectTasks b.executor.batchSize with ⟨e | tasks, c⟩
  · exact .none c
  · rw [hcollect] at hready
    obtain ⟨hall, hnodup⟩ := hready tasks rfl
    exact execute_turns tasks c hall hnodup

end Broker

end Workflow
