/-
A broker at work, with all that has become of its operations.

Anything may happen in such a run (`ServiceAction`): other clients use the partition, under any
names, and take their responses; the clock moves, appends and calls of the store are refused, and
rounds are run.  Nothing is asked of the log or of the handlers either.

The run keeps the broker of every moment, and every turn that the executor has taken.  What it
consists of are `Step`s, a turn being one of them, so a fact about operations has to be shown for
single turns only (`runAll_steps`).
-/
import Workflow.Proofs.Broker.Turn
import Workflow.Proofs.Partition.Change

namespace Workflow

/-! ### Runs -/

/-- The request whose response is taken. -/
def Arrival.taken? : Arrival → Option PendingResponse
  | .take pending => some pending
  | _ => none

/-- What may happen at any moment. -/
inductive ServiceEvent where
  /-- A client sends a request through the gateway of a stream. -/
  | send (streamId : Int) (request : CommandRequest)
  /-- Something else comes to the partition. -/
  | arrive (arrival : Arrival) (hkept : arrival.taken? = none)
  /-- A client looks for the response to one of the requests that it has sent. -/
  | take (index : Nat)
  /-- From now on these calls of the store are refused. -/
  | storeOutage (inserts fetches updates : Outage)
  /-- Operations are scheduled. -/
  | schedule (request : BatchRequest)
  /-- One batch of operations is carried out. -/
  | execute

/-- What a run consists of. -/
inductive ServiceAction where
  /-- Something happens. -/
  | event (event : ServiceEvent)
  /-- A round is prepared, and what it read is not applied. -/
  | prepareRound (max : Nat)
  /-- A round of any size, with events between its reading and its applying. -/
  | runBatch (max : Nat) (events : List ServiceEvent)
  /-- Rounds until one applies nothing, at most so many. -/
  | processUntilIdle (rounds : Nat)
  /-- The state is rebuilt. -/
  | recover

/-- A client that waits for no response sends a request. -/
def ServiceAction.submit (request : CommandRequest) : ServiceAction :=
  .event (.arrive (.submitInternal request) rfl)

/-- What comes to the partition from outside. -/
def ServiceEvent.arrivals : ServiceEvent → List Arrival
  | .arrive arrival _ => [arrival]
  | _ => []

/-- What comes to the partition from outside. -/
def ServiceAction.arrivals : ServiceAction → List Arrival
  | .event one => one.arrivals
  | .runBatch _ events => events.flatMap ServiceEvent.arrivals
  | _ => []

/-- A broker, with what has happened so far. -/
structure Service where
  /-- The broker. -/
  broker : Broker
  /-- The requests that other clients have sent with success. -/
  held : List PendingResponse := []
  /-- The broker at earlier moments, the earliest first. -/
  past : List Broker := []
  /-- The turns that the executor has taken, the earliest first. -/
  turns : List Turn := []

namespace Service

/-- The run with another partition. -/
def withPartition (r : Service) (partition : Partition) : Service :=
  { r with broker := r.broker.withPartition partition }

/-- The run in which the present moment is kept. -/
def noted (r : Service) : Service := { r with past := r.past ++ [r.broker] }

/-- The run after an arrival. -/
def arrive (r : Service) (arrival : Arrival) : Service :=
  { r.withPartition (arrival.run r.broker.partition) with
    held := arrival.sent r.broker.partition ++ r.held }

/-- The run after a request was sent. -/
def send (r : Service) (streamId : Int) (request : CommandRequest) : Service where
  broker := (r.broker.send streamId request).2
  held := match (r.broker.send streamId request).1 with
    | .ok pending => pending :: r.held
    | .error _ => r.held
  past := r.past
  turns := r.turns

/-- The run after a batch was carried out. -/
def execute (r : Service) : Service where
  broker := r.broker.executeBatch.2
  held := r.held
  past := r.past ++ r.broker.turns.map Turn.broker
  turns := r.turns ++ r.broker.turns

/-- The run after an event. -/
def event (r : Service) : ServiceEvent → Service
  | .send streamId request => r.noted.send streamId request
  | .arrive arrival _ => r.noted.arrive arrival
  | .take index =>
      match r.held[index]? with
      | some pending => r.noted.arrive (.take pending)
      | none => r.noted
  | .storeOutage inserts fetches updates =>
      { r.noted with broker := { r.broker with
          store := { r.broker.store with inserts, fetches, updates } } }
  | .schedule request => { r.noted with broker := (r.broker.schedule request).2 }
  | .execute => r.noted.execute

/-- The run after a round of any size, with events between its reading and its applying. -/
def runBatch (r : Service) (max : Nat) (events : List ServiceEvent) : Service :=
  match r.broker.partition.prepareRound max with
  | (.error _, p) => r.withPartition p
  | (.ok commands, p) =>
      let r := events.foldl event (r.withPartition p)
      r.withPartition (r.broker.partition.processCommands commands).2

/-- The run after an action. -/
def run (r : Service) : ServiceAction → Service
  | .event event => r.event event
  | .prepareRound max => r.noted.withPartition (r.broker.partition.prepareRound max).2
  | .runBatch max events => r.noted.runBatch max events
  | .processUntilIdle rounds =>
      r.noted.withPartition (Partition.processUntilIdle rounds r.broker.partition).2
  | .recover => r.noted.withPartition r.broker.partition.recover.2

/-- The run after all actions. -/
def runAll (r : Service) (actions : List ServiceAction) : Service := actions.foldl run r

/-! ### Where a run starts -/

/-- A broker that has opened: the stored operations are as they were left, and none has departed. -/
theorem parts_of_open {site : Site} {settings : BrokerSettings} {b : Broker}
    (hopen : Broker.open site settings = .ok b) :
    Partition.open site.host settings.registry settings.evaluator settings.partition =
        .ok b.partition ∧
      b.store = site.store ∧ b.executor =
        { streamId := settings.executorStream, batchSize := max settings.executorBatchSize 1 } := by
  unfold Broker.open at hopen
  split at hopen
  · cases hopen
  · rename_i heq
    cases hopen
    exact ⟨heq, rfl, rfl⟩

theorem flight?_of_open {site : Site} {settings : BrokerSettings} {b : Broker}
    (hopen : Broker.open site settings = .ok b) (id : Uuid) : b.flight? id = none := by
  unfold Broker.flight? Executor.flight?
  rw [(parts_of_open hopen).2.2]
  rfl

theorem stored?_of_open {site : Site} {settings : BrokerSettings} {b : Broker}
    (hempty : site.store.store.entries = []) (hopen : Broker.open site settings = .ok b)
    (id : Uuid) : b.stored? id = none := by
  unfold Broker.stored?
  rw [OperationStore.get?_eq_find?, (parts_of_open hopen).2.1, hempty]
  rfl

/-! ### Steps -/

/-- What a run consists of, when `Rounds` is what rounds do to a partition. -/
inductive Step (Rounds : Partition → Partition → Prop) (r : Service) :
    List Arrival → Service → Prop
  /-- A moment is kept. -/
  | noted : Step Rounds r [] r.noted
  /-- Rounds are run. -/
  | rounds {q : Partition} (h : Rounds r.broker.partition q) : Step Rounds r [] (r.withPartition q)
  /-- A client sends a request. -/
  | sent (streamId : Int) (request : CommandRequest) : Step Rounds r [] (r.send streamId request)
  /-- A client takes a response. -/
  | took {pending : PendingResponse} (h : pending ∈ r.held) :
      Step Rounds r [] (r.arrive (.take pending))
  /-- Something else comes to the partition. -/
  | arrived {arrival : Arrival} (h : arrival.taken? = none) :
      Step Rounds r [arrival] (r.arrive arrival)
  /-- Calls of the store are counted, or other ones are refused. -/
  | connected (store : StoreLink) (h : store.store = r.broker.store.store) :
      Step Rounds r [] { r with broker := { r.broker with store } }
  /-- Operations are scheduled. -/
  | scheduled (request : BatchRequest) :
      Step Rounds r [] { r with broker := (r.broker.schedule request).2 }
  /-- A flight is polled. -/
  | polled (id : Uuid) : Step Rounds r [] { r with broker := (r.broker.poll id).2 }
  /-- The executor takes a turn. -/
  | turn {task : OperationTask} (hready : r.broker.Ready task) :
      Step Rounds r []
        { r.noted with broker := (r.broker.perform task).2, turns := r.turns ++ [⟨r.broker, task⟩] }

/-- Any number of steps, with what came from outside. -/
inductive Steps (Rounds : Partition → Partition → Prop) :
    Service → List Arrival → Service → Prop
  | refl (r : Service) : Steps Rounds r [] r
  | head {r r' r'' : Service} {arrivals later : List Arrival} (hstep : Step Rounds r arrivals r')
      (hsteps : Steps Rounds r' later r'') : Steps Rounds r (arrivals ++ later) r''

variable {Rounds : Partition → Partition → Prop} {r r' r'' : Service}
  {arrivals later : List Arrival}

theorem Steps.trans (h : Steps Rounds r arrivals r') (h' : Steps Rounds r' later r'') :
    Steps Rounds r (arrivals ++ later) r'' := by
  induction h with
  | refl => exact h'
  | head hstep _ ih =>
      rw [List.append_assoc]
      exact .head hstep (ih h')

theorem Step.steps (h : Step Rounds r arrivals r') : Steps Rounds r arrivals r' := by
  have hsteps := Steps.head h (.refl r')
  rwa [List.append_nil] at hsteps

/-- Steps that nothing came to. -/
theorem Steps.next (h : Steps Rounds r [] r') (hstep : Step Rounds r' [] r'') :
    Steps Rounds r [] r'' := h.trans hstep.steps

/-! ### Runs are sequences of steps -/

/-- Collecting tasks. -/
theorem steps_of_collects {b c : Broker} (h : Broker.Collects b c) (r : Service) :
    Steps Rounds { r with broker := b } [] { r with broker := c } := by
  induction h with
  | nothing => exact .refl _
  | fetched _ fetches ih => exact ih.next (.connected _ rfl)
  | polled _ id ih => exact ih.next (.polled id)

/-- Taking turns. -/
theorem steps_of_turns {b c : Broker} {turns : List Turn} (h : Broker.Turns b turns c) :
    ∀ r : Service, Steps Rounds { r with broker := b } []
      { r with
        broker := c, past := r.past ++ turns.map Turn.broker, turns := r.turns ++ turns } := by
  induction h with
  | none b =>
      intro r
      rw [List.map_nil, List.append_nil, List.append_nil]
      exact .refl _
  | @next b c turn turns hbegins hready _ ih =>
      intro r
      subst hbegins
      have hrest := ih { r with past := r.past ++ [turn.broker], turns := r.turns ++ [turn] }
      rw [List.append_assoc, List.append_assoc] at hrest
      exact .head (r := { r with broker := turn.broker }) (.turn hready) hrest

theorem execute_steps (r : Service) : Steps Rounds r [] r.execute := by
  obtain ⟨c, hcollects, hturns⟩ := r.broker.executeBatch_turns
  exact (steps_of_collects hcollects r).trans (steps_of_turns hturns r)

/-- Sending is an arrival, and the gateways are told. -/
theorem event_steps (r : Service) (event : ServiceEvent) :
    Steps Rounds r event.arrivals (r.event event) := by
  have hnoted : Steps Rounds r [] r.noted := Step.noted.steps
  cases event with
  | send streamId request => exact hnoted.next (.sent streamId request)
  | arrive arrival hkept => exact hnoted.trans (Step.arrived hkept).steps
  | take index =>
      show Steps Rounds r [] (match r.held[index]? with
        | some pending => r.noted.arrive (.take pending)
        | none => r.noted)
      cases hheld : r.held[index]? with
      | none => exact hnoted
      | some pending => exact hnoted.next (.took (r := r.noted) (List.mem_of_getElem? hheld))
  | storeOutage inserts fetches updates => exact hnoted.next (.connected _ rfl)
  | schedule request => exact hnoted.next (.scheduled request)
  | execute => exact hnoted.trans (execute_steps r.noted)

theorem events_steps (events : List ServiceEvent) :
    ∀ r : Service,
      Steps Rounds r (events.flatMap ServiceEvent.arrivals) (events.foldl event r) := by
  induction events with
  | nil => intro r; exact .refl r
  | cons event rest ih =>
      intro r
      exact (event_steps r event).trans (ih (r.event event))

theorem run_steps (r : Service) (action : ServiceAction) :
    ∃ arrivals : List Arrival, arrivals.Sublist action.arrivals ∧
      Steps Partition.Changes r arrivals (r.run action) := by
  have hnoted : Steps Partition.Changes r [] r.noted := Step.noted.steps
  cases action with
  | event event => exact ⟨_, List.Sublist.refl _, event_steps r event⟩
  | prepareRound max =>
      exact ⟨[], .refl _, hnoted.next (.rounds (Partition.prepareRound_changes _ max))⟩
  | processUntilIdle rounds =>
      exact ⟨[], .refl _, hnoted.next (.rounds (Partition.processUntilIdle_changes rounds _))⟩
  | recover => exact ⟨[], .refl _, hnoted.next (.rounds (.single (Partition.recover_change _)))⟩
  | runBatch max events =>
      have hprepared := r.noted.broker.partition.prepareRound_changes max
      show ∃ arrivals : List Arrival, arrivals.Sublist (events.flatMap ServiceEvent.arrivals) ∧
        Steps Partition.Changes r arrivals (r.noted.runBatch max events)
      unfold runBatch
      rcases hprepare : r.noted.broker.partition.prepareRound max with ⟨e | commands, q⟩ <;>
        rw [hprepare] at hprepared
      -- When nothing was read the events do not take place.
      · exact ⟨[], List.nil_sublist _, hnoted.next (.rounds hprepared)⟩
      · have hevents : Steps Partition.Changes (r.noted.withPartition q) _ _ :=
          events_steps events _
        refine ⟨_, .refl _, (hnoted.next (.rounds hprepared)).trans ?_⟩
        have happlied := hevents.trans
          (Step.rounds (Partition.processCommands_changes _ commands)).steps
        rwa [List.append_nil] at happlied

/-- **A run is a sequence of steps.** -/
theorem runAll_steps (actions : List ServiceAction) :
    ∀ r : Service, ∃ arrivals : List Arrival,
      arrivals.Sublist (actions.flatMap ServiceAction.arrivals) ∧
        Steps Partition.Changes r arrivals (r.runAll actions) := by
  induction actions with
  | nil => intro r; exact ⟨[], .refl _, .refl r⟩
  | cons action rest ih =>
      intro r
      obtain ⟨arrivals, hfirst, hsteps⟩ := run_steps r action
      obtain ⟨later, hrest, hsteps'⟩ := ih (r.run action)
      exact ⟨arrivals ++ later, hfirst.append hrest, hsteps.trans hsteps'⟩

end Service

end Workflow
