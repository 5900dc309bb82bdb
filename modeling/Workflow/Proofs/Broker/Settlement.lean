/-
The end of an operation is the truth, and no operation is stuck.

At any moment each operation has its account, and each response one taker (`Attends`).  Whatever
happens to a broker keeps that, so the ends of operations are justified by responses, and the log
bears them out.

When rounds end idle all responses have come.  So the next batch would settle what was sent, and
send what is scheduled: if it finds nothing to do, there is nothing to do (`Attends.settled`).
-/
import Workflow.Proofs.Broker.Account
import Workflow.Proofs.Broker.Course
import Workflow.Proofs.Broker.Trail

namespace Workflow

/-! ### A batch that finds nothing -/

/-- A fetch that has room finds nothing only if there is nothing. -/
theorem OperationStore.of_fetch_eq_nil {store : OperationStore} {state : OperationState}
    {limit : Nat} (hroom : store.entries ≠ [] → 0 < limit) (h : store.fetch state limit = []) :
    ∀ operation ∈ store.entries, operation.state ≠ state := by
  intro operation ho hstate
  rcases List.take_eq_nil_iff.mp h with hzero | hnone
  · exact Nat.ne_of_gt (hroom (List.ne_nil_of_mem ho)) hzero
  · exact List.filter_eq_nil_iff.mp hnone operation ho (by rw [hstate]; exact beq_self_eq_true _)

namespace Broker

variable {b : Broker}

/-- A batch that counts nothing has found nothing. -/
theorem collectTasks_of_idle (h : b.executeBatch.1 = .ok 0) :
    b.collectTasks b.executor.batchSize = (.ok [], b.executeBatch.2) := by
  unfold executeBatch at h ⊢
  rcases hcollect : b.collectTasks b.executor.batchSize with ⟨e | tasks, c⟩ <;>
    rw [hcollect] at h <;> dsimp only at h ⊢
  · cases h
  · cases tasks with
    | nil => rfl
    | cons task tasks =>
        unfold execute at h
        rcases hperform : c.perform task with ⟨e | done, d⟩ <;> rw [hperform] at h <;>
          dsimp only at h
        · cases h
        · cases hcount : (execute tasks d).1 <;> rw [hcount] at h <;> cases h

/-- Flights do not depend on the store. -/
theorem poll_withStore (store : StoreLink) (id : Uuid) :
    (poll { b with store } id).1 = (b.poll id).1 := by
  unfold poll
  dsimp only
  cases b.executor.flight? id <;> rfl

/-- There is a task for the first operation if it is known how it ends. -/
theorem settleTasks_ne_nil {max : Nat} (hmax : 0 < max) {operation : Operation}
    {rest : List Operation} {settlement : Settlement}
    (hend : (b.poll operation.id).1 = some settlement) :
    (settleTasks max (operation :: rest) b).1 ≠ [] := by
  cases max with
  | zero => exact absurd hmax (Nat.lt_irrefl 0)
  | succ max =>
      unfold settleTasks
      rcases hpoll : b.poll operation.id with ⟨end', c⟩
      rw [hpoll] at hend
      cases hend
      exact List.cons_ne_nil _ _

/-- A batch has found nothing, though it is known how each operation that is sent ends.  So none is,
and none is scheduled, and the batch has changed nothing. -/
theorem of_idle (hroom : 0 < b.executor.batchSize) (h : b.executeBatch.1 = .ok 0)
    (hends : ∀ operation ∈ b.store.store.entries, operation.state = .sent →
      ∃ settlement, (b.poll operation.id).1 = some settlement) :
    (∀ operation ∈ b.store.store.entries,
      operation.state ≠ .scheduled ∧ operation.state ≠ .sent) ∧
      b.executeBatch.2.store.store = b.store.store ∧ b.executeBatch.2.executor = b.executor := by
  have hcollect := collectTasks_of_idle h
  unfold collectTasks at hcollect
  obtain ⟨fetches, ⟨e, hfetch⟩ | hfetch⟩ := b.fetch_cases .sent b.store.store.size
  · rw [hfetch] at hcollect
    cases hcollect
  · rw [hfetch] at hcollect
    dsimp only at hcollect
    rcases hsettle : settleTasks b.executor.batchSize
      (b.store.store.fetch .sent b.store.store.size)
      { b with store := { b.store with fetches } } with ⟨tasks, c⟩
    rw [hsettle] at hcollect
    dsimp only at hcollect
    -- There was room for scheduled operations.
    split at hcollect
    · obtain ⟨fetches', ⟨e, hfetch'⟩ | hfetch'⟩ :=
        c.fetch_cases .scheduled (b.executor.batchSize - tasks.length)
      · rw [hfetch'] at hcollect
        cases hcollect
      · rw [hfetch'] at hcollect
        obtain ⟨hnone, hafter⟩ := Prod.mk.inj hcollect
        obtain ⟨rfl, hscheduled⟩ := List.append_eq_nil_iff.mp (Except.ok.inj hnone)
        -- The first one that is sent would be settled.
        have hsent : b.store.store.fetch .sent b.store.store.size = [] := by
          cases hfound : b.store.store.fetch .sent b.store.store.size with
          | nil => rfl
          | cons operation rest =>
              have hmem : operation ∈ b.store.store.fetch .sent b.store.store.size :=
                hfound ▸ List.mem_cons_self
              obtain ⟨ho, hstate⟩ := List.mem_filter.mp (List.mem_of_mem_take hmem)
              obtain ⟨settlement, hend⟩ := hends operation ho (by simpa using hstate)
              rw [hfound] at hsettle
              exact absurd (congrArg Prod.fst hsettle)
                (settleTasks_ne_nil hroom ((poll_withStore _ _).trans hend))
        rw [hsent] at hsettle
        cases hsettle
        rw [← hafter]
        refine ⟨fun operation ho => ⟨?_, ?_⟩, rfl, rfl⟩
        · exact OperationStore.of_fetch_eq_nil (fun _ => hroom) (List.map_eq_nil_iff.mp hscheduled)
            operation ho
        · exact OperationStore.of_fetch_eq_nil List.length_pos_iff.mpr hsent operation ho
    · rename_i hfull
      cases hcollect
      exact absurd hroom hfull

end Broker

namespace Service

open Broker

variable {evaluator : Evaluator} {r r' : Service} {s t : Session} {id : Uuid}

/-! ### A run -/

/-- What is known at any moment of a run. -/
structure Attends (evaluator : Evaluator) (r : Service) (s : Session) : Prop where
  backed : Backed evaluator r.broker s
  takers : SoleTakers r.held r.broker.executor s
  room : 0 < r.broker.executor.batchSize
  account : ∀ id, r.Account evaluator s id

/-- A run goes on with the same settings, and as much is known about it. -/
def GoesOn (evaluator : Evaluator) (r r' : Service) : Prop :=
  ∃ t, r'.Attends evaluator t ∧
    r'.broker.executor.streamId = r.broker.executor.streamId ∧
    r'.broker.partition.config = r.broker.partition.config

/-- What justifies an end still does. -/
theorem justifies_onward {b c : Broker} (h : Backed evaluator b s)
    (honward : Onward evaluator b s c t) {operation : Operation} {commands : List Record}
    (hjustifies : b.partition.Justifies evaluator operation commands) :
    c.partition.Justifies evaluator operation commands := by
  refine hjustifies.grow h.sourced honward.backed.sourced
    (congrArg PartitionConfig.partitionId (honward.config h)) ?_
  rw [← h.same, ← honward.backed.same]
  exact honward.grows.records

namespace Attends

/-- No operation has a turn, and the store is as it was. -/
theorem onward (h : r.Attends evaluator s) (honward : Onward evaluator r.broker s r'.broker t)
    (hexecutor : r'.broker.executor = r.broker.executor)
    (hstore : r'.broker.store.store = r.broker.store.store) (hpast : r'.past = r.past)
    (hturns : r'.turns = r.turns) (htakers : SoleTakers r'.held r.broker.executor t) :
    r'.Attends evaluator t := by
  refine ⟨honward.backed, by rw [hexecutor]; exact htakers, by rw [hexecutor]; exact h.room,
    fun id => ?_⟩
  refine (h.account id).kept (by unfold turnsOf; rw [hturns]) hpast (stored?_congr hstore id)
    honward.streamId honward.grows (fun _ _ hj => justifies_onward h.backed honward hj)
    (by rw [flight?_congr hexecutor]) fun later hlater => ?_
  rw [flight?_congr hexecutor] at hlater
  exact ⟨later, hlater, fun _ _ hfollows => hfollows.grows honward.grows⟩

/-- Rounds are run. -/
theorem rounds (h : r.Attends evaluator s) {q : Partition}
    (hmoves : Partition.SteadyMoves evaluator r.broker.partition q) :
    (r.withPartition q).Attends evaluator { s with partition := q } := by
  obtain ⟨hbacked, hgrows⟩ := h.backed.rounds hmoves
  refine ⟨hbacked, ⟨h.takers.waits, h.takers.taken, h.takers.fresh⟩, h.room, fun id => ?_⟩
  refine (h.account id).kept rfl rfl rfl rfl hgrows (fun _ _ hj => ?_) Iff.rfl
    fun later hlater => ⟨later, hlater, fun _ _ hfollows => hfollows.grows hgrows⟩
  refine hj.grow h.backed.sourced hbacked.sourced
    (congrArg PartitionConfig.partitionId hmoves.kept.2) ?_
  have hrecords := hgrows.records
  rw [h.backed.same] at hrecords
  exact hrecords

/-- The present moment is kept. -/
theorem noted (h : r.Attends evaluator s) : r.noted.Attends evaluator s :=
  ⟨h.backed, h.takers, h.room, fun id => (h.account id).noted h.backed.sourced⟩

/-- A client sends a request. -/
theorem send (h : r.Attends evaluator s) (streamId : Int) (request : CommandRequest) :
    ∃ t, Onward evaluator r.broker s (r.send streamId request).broker t ∧
      (r.send streamId request).Attends evaluator t := by
  have honward := h.backed.send streamId request
  obtain ⟨hreceived, hrefused, hseen⟩ := h.backed.seen_send streamId request
  refine ⟨_, honward, h.onward honward (r.broker.executor_send _ _)
    (congrArg _ (r.broker.store_send _ _)) rfl rfl ?_⟩
  unfold Service.send
  dsimp only
  cases hresult : (r.broker.send streamId request).1 with
  | ok pending =>
      have hsent := hseen pending hresult
      rw [← List.singleton_append] at hsent
      exact h.takers.sent hsent hreceived
  | error e =>
      have hsent := hrefused ⟨e, hresult⟩
      exact h.takers.sent (hsent.trans (List.nil_append _).symm) hreceived

/-- The responses that a flight waits for are held for it. -/
theorem awaits (h : r.Attends evaluator s) {flight : Flight}
    (hflight : r.broker.flight? id = some flight) :
    (flight.waiting.map PendingResponse.ticket).Nodup ∧
      ∀ pending ∈ flight.waiting, s.partition.host.router.Holds pending.ticket ∧
        pending.ticket ∉ s.received.map Prod.fst := by
  have hawaited : flight.waiting.Subperm r.broker.executor.awaited :=
    (List.sublist_append_left _ _).subperm.trans (Executor.awaited_split hflight)
  have hsent : flight.waiting.Subperm s.sent :=
    hawaited.trans ((List.sublist_append_right _ _).subperm.trans h.takers.waits)
  refine ⟨nodup_tickets hsent h.backed.sound.distinct, fun pending hp => ?_⟩
  have hfresh := h.takers.fresh pending (hawaited.subset hp)
  exact ⟨h.backed.holds (hsent.subset hp) hfresh, hfresh⟩

/-- **A flight is polled.** -/
theorem poll (h : r.Attends evaluator s) (id : Uuid) :
    ∃ t, Onward evaluator r.broker s (r.broker.poll id).2 t ∧
      Attends evaluator { r with broker := (r.broker.poll id).2 } t := by
  cases hflight : r.broker.flight? id with
  | none =>
      have heq : r.broker.poll id = (none, r.broker) := by
        rcases r.broker.poll_cases id with ⟨-, heq⟩ | ⟨flight, hsome, -⟩
        · exact heq
        · cases hflight.symm.trans hsome
      rw [heq]
      exact ⟨s, h.backed.idle rfl rfl rfl, h⟩
  | some flight =>
      have honward := h.backed.takes hflight
      have hdistinct := h.backed.sound.distinct
      obtain ⟨hnodup, hheld⟩ := h.awaits hflight
      have hpoll : ∀ requests, flight.Follows s requests → _ := fun requests hfollows =>
        hfollows.poll hnodup hheld
      have hexecutor : (r.broker.poll id).2.executor =
          r.broker.executor.board id (flight.poll s.partition.host.router).1 := by
        rcases r.broker.poll_cases id with ⟨hnone, -⟩ | ⟨found, hfound, heq⟩
        · cases hflight.symm.trans hnone
        · cases hflight.symm.trans hfound
          rw [heq, h.backed.same]
      have hstore : (r.broker.poll id).2.store.store = r.broker.store.store :=
        congrArg _ (r.broker.store_poll id)
      refine ⟨_, honward, honward.backed, ?_, ?_, fun other => ?_⟩
      · obtain ⟨⟨-, -, requests, -, -, -, hfollows⟩, -⟩ := (h.account id).flying flight hflight
        obtain ⟨-, hleft, hkept, hback⟩ := hpoll requests hfollows
        show SoleTakers r.held (r.broker.poll id).2.executor _
        rw [hexecutor]
        exact h.takers.polled hdistinct hflight (Session.sent_takes _ s) hleft
          (fun pending hp => (hkept pending hp).2) hback
      · show 0 < (r.broker.poll id).2.executor.batchSize
        rw [hexecutor]
        exact h.room
      · refine (h.account other).kept rfl rfl (stored?_congr hstore other) honward.streamId
          honward.grows (fun _ _ hj => justifies_onward h.backed honward hj) ?_
          fun later hlater => ?_
        · rcases r.broker.flight?_poll id other with ⟨hold, hnew⟩ | ⟨flight, polled, hold, hnew, -⟩
          · exact iff_of_true hnew hold
          · exact iff_of_false (by rw [hnew]; exact Option.some_ne_none _)
              (by rw [hold]; exact Option.some_ne_none _)
        · change (r.broker.poll id).2.executor.flight? other = some later at hlater
          rw [hexecutor, Executor.flight?_board] at hlater
          by_cases hother : other = id
          · rw [if_pos hother] at hlater
            cases hlater
            exact ⟨flight, hother ▸ hflight, fun requests _ hfollows => (hpoll requests hfollows).1⟩
          · rw [if_neg hother] at hlater
            exact ⟨later, hlater, fun _ _ hfollows => hfollows.grows honward.grows⟩

/-- **The executor takes a turn.** -/
theorem turn (h : r.Attends evaluator s) {task : OperationTask} (hready : r.broker.Ready task) :
    ∃ t, Onward evaluator r.broker s (r.broker.perform task).2 t ∧
      Attends evaluator { r.noted with
        broker := (r.broker.perform task).2, turns := r.turns ++ [⟨r.broker, task⟩] } t := by
  have hbacked : Backed evaluator (Turn.mk r.broker task).broker s := h.backed
  obtain ⟨t, hattended⟩ := hbacked.attended
  have honward := hattended.onward
  have hdoes := r.broker.perform_does task
  refine ⟨t, honward, honward.backed, hattended.takers _ h.takers,
    hattended.batchSize ▸ h.room, fun id => ?_⟩
  have hnoted := (h.account id).noted h.backed.sourced
  by_cases hid : task.operation.id = id
  · refine hnoted.turn ?_ hready hbacked hattended rfl rfl rfl rfl
    exact hid
  · obtain ⟨hstored, hflight⟩ := hdoes.others (Ne.symm hid)
    exact hnoted.kept (turnsOf_append rfl hid) rfl hstored honward.streamId honward.grows
      (fun _ _ hj => justifies_onward h.backed honward hj) (iff_of_eq (congrArg (· = none) hflight))
      fun later hlater =>
        ⟨later, hflight ▸ hlater, fun _ _ hfollows => hfollows.grows honward.grows⟩

/-- **A step in which no round is run.** -/
theorem step (h : r.Attends evaluator s) {arrivals : List Arrival}
    (hstep : Step (fun _ _ => False) r arrivals r')
    (hforeign : ∀ arrival ∈ arrivals, ∀ name, arrival.name? = some name →
      name.streamId ≠ r.broker.executor.streamId) :
    ∃ t, Onward evaluator r.broker s r'.broker t ∧ r'.Attends evaluator t := by
  cases hstep with
  | noted => exact ⟨s, h.backed.idle rfl rfl rfl, h.noted⟩
  | rounds hrounds => exact hrounds.elim
  | sent streamId request => exact h.send streamId request
  | @took pending hheld =>
      have honward : Onward evaluator r.broker s (r.arrive (.take pending)).broker _ :=
        h.backed.arrive_nameless rfl
      exact ⟨_, honward, h.onward honward rfl rfl rfl rfl
        (h.takers.took h.backed.sound.distinct hheld)⟩
  | @arrived arrival harrival =>
      have honward : Onward evaluator r.broker s (r.arrive arrival).broker _ :=
        h.backed.arrive_foreign (hforeign arrival List.mem_cons_self)
      refine ⟨_, honward, h.onward honward rfl rfl rfl rfl ?_⟩
      have hheld : (r.arrive arrival).held = arrival.sent s.partition ++ r.held := by
        rw [h.backed.same]
        rfl
      rw [hheld]
      refine h.takers.sent rfl ?_
      cases arrival with
      | take pending => cases harrival
      | _ => rfl
  | connected store hstore =>
      have honward : Onward evaluator r.broker s { r.broker with store } s :=
        h.backed.idle rfl rfl rfl
      exact ⟨s, honward, h.onward honward rfl hstore rfl rfl h.takers⟩
  | scheduled request =>
      have honward := h.backed.schedule request
      refine ⟨s, honward, honward.backed, ?_, ?_,
        fun id => (h.account id).scheduled request⟩
      · rw [executor_schedule]
        exact h.takers
      · rw [executor_schedule]
        exact h.room
  | polled id => exact h.poll id
  | turn hready => exact h.turn hready

theorem steps {arrivals : List Arrival} (hsteps : Steps (fun _ _ => False) r arrivals r') :
    ∀ s : Session, r.Attends evaluator s →
      (∀ arrival ∈ arrivals, ∀ name, arrival.name? = some name →
        name.streamId ≠ r.broker.executor.streamId) →
      ∃ t, Onward evaluator r.broker s r'.broker t ∧ r'.Attends evaluator t := by
  induction hsteps with
  | refl => exact fun s h _ => ⟨s, h.backed.idle rfl rfl rfl, h⟩
  | head hstep _ ih =>
      intro s h hforeign
      obtain ⟨hfirst, hlater⟩ := List.forall_mem_append.mp hforeign
      obtain ⟨t, honward, hmid⟩ := h.step hstep hfirst
      rw [← honward.streamId] at hlater
      obtain ⟨u, honward', hlast⟩ := ih t hmid hlater
      exact ⟨u, honward.trans honward', hlast⟩

/-- **A round with events between its reading and its applying.**  These events are things that
arrive, so what the round has read is still what is applied first. -/
theorem runBatch (h : r.Attends evaluator s) (max : Nat) (events : List ServiceEvent)
    (hforeign : ∀ arrival ∈ events.flatMap ServiceEvent.arrivals, ∀ name,
      arrival.name? = some name → name.streamId ≠ r.broker.executor.streamId) :
    GoesOn evaluator r (r.runBatch max events) := by
  obtain ⟨result, q, heq, hmoves, hread⟩ :=
    Partition.prepareRound_steady h.backed.sourced h.backed.partitionId max
  have hmid := h.rounds hmoves
  unfold Service.runBatch
  rw [heq]
  cases result with
  | error e => exact ⟨_, hmid, rfl, hmoves.kept.2⟩
  | ok commands =>
      obtain ⟨hcurrent, hcommands⟩ := hread commands rfl
      obtain ⟨t, honward, hafter⟩ :=
        steps (events_steps events (r.withPartition q)) _ hmid hforeign
      have happlied := honward.applies hmid.backed hcurrent (hcommands ▸ List.take_prefix _ _)
      refine ⟨_, hafter.rounds happlied, honward.streamId, ?_⟩
      exact happlied.kept.2.trans ((honward.config hmid.backed).trans hmoves.kept.2)

/-- **An action.** -/
theorem run (h : r.Attends evaluator s) (action : ServiceAction)
    (hforeign : ∀ arrival ∈ action.arrivals, ∀ name, arrival.name? = some name →
      name.streamId ≠ r.broker.executor.streamId) : GoesOn evaluator r (r.run action) := by
  have hsourced := h.backed.sourced
  have hid := h.backed.partitionId
  have hrounds : ∀ {q : Partition}, Partition.SteadyMoves evaluator r.broker.partition q →
      GoesOn evaluator r (r.noted.withPartition q) :=
    fun hmoves => ⟨_, h.noted.rounds hmoves, rfl, hmoves.kept.2⟩
  cases action with
  | event event =>
      obtain ⟨t, honward, hlast⟩ := steps (event_steps r event) s h hforeign
      exact ⟨t, hlast, honward.streamId, honward.config h.backed⟩
  | prepareRound max =>
      obtain ⟨result, q, heq, hmoves, -⟩ := Partition.prepareRound_steady hsourced hid max
      have hprepared : (r.broker.partition.prepareRound max).2 = q := by rw [heq]
      exact hrounds (hprepared ▸ hmoves)
  | processUntilIdle rounds =>
      exact hrounds (Partition.processUntilIdle_steady rounds _ hsourced hid).1
  | recover => exact hrounds (.single (.of_kept .recover (Partition.recover_kept _)))
  | runBatch max events => exact h.noted.runBatch max events hforeign

/-- **A run.** -/
theorem runAll (actions : List ServiceAction) :
    ∀ (r : Service) (s : Session), r.Attends evaluator s →
      (∀ arrival ∈ actions.flatMap ServiceAction.arrivals, ∀ name, arrival.name? = some name →
        name.streamId ≠ r.broker.executor.streamId) →
      GoesOn evaluator r (r.runAll actions) := by
  induction actions with
  | nil => intro r s h _; exact ⟨s, h, rfl, rfl⟩
  | cons action rest ih =>
      intro r s h hforeign
      rw [List.flatMap_cons] at hforeign
      obtain ⟨hfirst, hlater⟩ := List.forall_mem_append.mp hforeign
      obtain ⟨t, hmid, hstream, hconfig⟩ := h.run action hfirst
      rw [← hstream] at hlater
      obtain ⟨u, hlast, hstream', hconfig'⟩ := ih _ t hmid hlater
      exact ⟨u, hlast, hstream'.trans hstream, hconfig'.trans hconfig⟩

/-- At the start there are neither flights nor operations that were sent. -/
theorem of_open {site : Site} {settings : BrokerSettings} {b : Broker}
    (hbuiltin : settings.registry = .builtin)
    (hhost : site.host.Kept settings.evaluator settings.partition.partitionId)
    (hstream : ∀ command ∈ site.host.link.log.records, command.isCommand → ∀ name,
      command.correlation = some name → name.streamId ≠ settings.executorStream)
    (hunsent : ∀ operation ∈ site.store.store.entries, operation.state ≠ .sent)
    (hopen : Broker.open site settings = .ok b) :
    Attends settings.evaluator { broker := b } { partition := b.partition } := by
  obtain ⟨hbacked, hstore, hflights⟩ := backed_of_open hbuiltin hhost hstream hopen
  have hawaited : b.executor.awaited = [] := by
    unfold Executor.awaited
    rw [hflights]
    rfl
  refine ⟨hbacked, ⟨?_, fun _ he => absurd he List.not_mem_nil, fun pending hp => ?_⟩, ?_,
    fun id => ⟨sentOnce_of_open hopen id, fun flight hflight => ?_, fun hsome => ?_,
      fun operation ho hsent => ?_, fun _ _ _ _ hd => absurd hd List.not_mem_nil,
      fun _ hm => absurd hm List.not_mem_nil⟩⟩
  · rw [hawaited]
    exact List.Subperm.refl _
  · rw [hawaited] at hp
    exact absurd hp List.not_mem_nil
  · show 0 < b.executor.batchSize
    rw [(parts_of_open hopen).2.2]
    exact Nat.lt_of_lt_of_le Nat.zero_lt_one (Nat.le_max_right _ _)
  · cases (flight?_of_open hopen id).symm.trans hflight
  · exact absurd (flight?_of_open hopen id) hsome
  · exact absurd hsent (hunsent operation (hstore ▸ (OperationStore.get?_mem ho).1))

/-- When nobody waits for a response it is known how each flight ends. -/
theorem settles (h : r.Attends evaluator s)
    (hnobody : r.broker.partition.host.router.waiting = [])
    (hflight : r.broker.flight? id ≠ none) :
    ∃ settlement, (r.broker.poll id).1 = some settlement := by
  rcases r.broker.poll_cases id with ⟨hnone, -⟩ | ⟨flight, hflies, heq⟩
  · exact absurd hnone hflight
  · obtain ⟨hnodup, hheld⟩ := h.awaits hflies
    obtain ⟨⟨-, -, requests, -, -, -, hfollows⟩, -⟩ := (h.account id).flying flight hflies
    obtain ⟨-, -, hleft, -⟩ := hfollows.poll hnodup hheld
    rw [h.backed.same] at hleft
    rw [heq]
    refine Flight.exists_settlement (List.eq_nil_iff_forall_not_mem.mpr fun pending hp => ?_)
    obtain ⟨⟨name, hwaits⟩, -⟩ := hleft pending hp
    rw [hnobody] at hwaits
    exact List.not_mem_nil hwaits

/-- **When nobody waits for a response, a batch that finds nothing to do leaves nothing to do.** -/
theorem settled (h : r.Attends evaluator s)
    (hnobody : r.broker.partition.host.router.waiting = [])
    (hidle : r.broker.executeBatch.1 = .ok 0) :
    (∀ operation ∈ r.broker.executeBatch.2.store.store.entries,
      operation.state ≠ .scheduled ∧ operation.state ≠ .sent) ∧
      r.broker.executeBatch.2.executor.flights = [] := by
  obtain ⟨hnothing, hstore, hexecutor⟩ := of_idle h.room hidle fun operation ho hsent =>
    h.settles hnobody
      ((h.account operation.id).sent operation (OperationStore.get?_of_mem ho) hsent)
  rw [hstore, hexecutor]
  refine ⟨hnothing, List.eq_nil_iff_forall_not_mem.mpr fun entry he => ?_⟩
  -- A flight is of a stored operation that is not at its end.
  cases hflight : r.broker.flight? entry.1 with
  | none => simpa using List.lookup_eq_none_iff.mp hflight entry he
  | some flight =>
      obtain ⟨-, hlive⟩ := (h.account entry.1).flying flight hflight
      obtain ⟨operation, ho⟩ := Option.ne_none_iff_exists'.mp
        ((h.account entry.1).stored (hflight ▸ Option.some_ne_none _))
      obtain ⟨hscheduled, hsent⟩ := hnothing operation (OperationStore.get?_mem ho).1
      refine hlive ⟨operation, ho, ?_⟩
      cases hstate : operation.state with
      | scheduled => exact absurd hstate hscheduled
      | sent => exact absurd hstate hsent
      | completed => rfl
      | failed => rfl

end Attends

/-! ### The main result -/

/-- **The end of an operation is the truth, and no operation is stuck**, in every run in which
nobody else sends requests on the stream of the executor.  When an operation that was sent is at its
end, there is one turn in which its commands were sent, and the log bears out how it has ended: its
commands are processed, if it is completed each of them has led to events and to no rejection, and
if it has failed one of them was rejected for the reason that the operation holds.  When rounds end
idle and the next batch finds nothing to do, no operation is scheduled or sent, and there are no
flights. -/
theorem settlement_borne_out {site : Site} {settings : BrokerSettings} {b : Broker}
    (hbuiltin : settings.registry = .builtin)
    (hhost : site.host.Kept settings.evaluator settings.partition.partitionId)
    (hstream : ∀ command ∈ site.host.link.log.records, command.isCommand → ∀ name,
      command.correlation = some name → name.streamId ≠ settings.executorStream)
    (hunsent : ∀ operation ∈ site.store.store.entries, operation.state ≠ .sent)
    (hlimit : 0 < settings.partition.maxCommandsPerRound)
    (hopen : Broker.open site settings = .ok b) (actions : List ServiceAction)
    (hown : ∀ arrival ∈ actions.flatMap ServiceAction.arrivals, ∀ name,
      arrival.name? = some name → name.streamId ≠ settings.executorStream) :
    let r := Service.runAll { broker := b } actions
    (∀ moment ∈ r.past ++ [r.broker], ∀ id operation, moment.stored? id = some operation →
      operation.state.isTerminal = true → (∃ version ∈ r.trail id, version.state = .sent) →
        ∃ departure, r.departures id = [departure] ∧ departure.appended ≠ [] ∧
          moment.partition.Bears operation departure.appended) ∧
    ∀ rounds count, (Partition.processUntilIdle rounds r.broker.partition).1 = .idle count →
      let c := r.broker.withPartition (Partition.processUntilIdle rounds r.broker.partition).2
      c.executeBatch.1 = .ok 0 →
        (∀ operation ∈ c.executeBatch.2.store.store.entries,
          operation.state ≠ .scheduled ∧ operation.state ≠ .sent) ∧
          c.executeBatch.2.executor.flights = [] := by
  intro r
  obtain ⟨hpartition, -, hexecutor⟩ := parts_of_open hopen
  obtain ⟨t, h, -, hconfig⟩ :=
    (Attends.of_open hbuiltin hhost hstream hunsent hopen).runAll actions _ _
      (by rw [hexecutor]; exact hown)
  refine ⟨fun moment hm id operation ho hend ⟨version, hversion, hsent⟩ => ?_, ?_⟩
  · have haccount := (h.noted).account id
    obtain ⟨earlier, he, hwas⟩ := List.mem_filterMap.mp hversion
    have hdeparted : r.departures id ≠ [] := (haccount.before earlier he version hwas).1 hsent
    obtain ⟨departure, hmem⟩ := List.exists_mem_of_ne_nil _ hdeparted
    exact ⟨departure, haccount.once.departures_eq hmem, by simpa using (List.mem_filter.mp hmem).2,
      ((haccount.before moment hm operation ho).2 hend).2 departure hmem⟩
  · intro rounds count hidle c hbatch
    have hid := h.backed.partitionId
    have hlimit' : 0 < r.broker.partition.config.maxCommandsPerRound := by
      rw [hconfig, Partition.config_of_open hpartition]
      exact hlimit
    obtain ⟨-, -, -, -, -, hleft⟩ := Partition.last_round rounds r.broker.partition h.backed.sourced
      hid hlimit' count c.partition (Prod.fst_eq_iff.mp hidle)
    have hc := h.rounds (Partition.processUntilIdle_steady rounds _ h.backed.sourced hid).1
    have hnobody := (hc.backed.sound.all_answered hleft).1
    exact hc.settled (List.length_eq_zero_iff.mp hnobody) hbatch

/-- A job is canceled before commands are sent for it and for another one, and the end of the
operation is not written down at first. -/
def contested : List ServiceAction :=
  BrokerRun.exhaustingRequests.map .submit ++
    [.processUntilIdle 3, .event (.schedule ⟨[{}], .updateRetries⟩),
      .submit ⟨some (EngineState.keyAt 1 3), .job .cancel, .job { jobType := "task" }⟩,
      .event .execute, .processUntilIdle 3, .event (.storeOutage .none .none (.window 0 1)),
      .event .execute, .event .execute]

theorem settlement_borne_out_contested :
    let r := Service.runAll { broker := BrokerRun.fresh } contested
    let c := r.broker.withPartition (Partition.processUntilIdle 3 r.broker.partition).2
    (∃ operation ∈ r.broker.store.store.entries, operation.state = .failed ∧
      ∃ departure, r.departures operation.id = [departure] ∧ departure.appended.length = 2 ∧
        r.broker.partition.Bears operation departure.appended) ∧
      c.executeBatch.2.executor.flights = [] := by
  intro r c
  have hrun : ∃ operation ∈ r.broker.store.store.entries,
      r.broker.stored? operation.id = some operation ∧ operation.state = .failed ∧
        (∃ version ∈ r.trail operation.id, version.state = .sent) ∧
        (r.departures operation.id).map (·.appended.length) = [2] := by decide +kernel
  obtain ⟨operation, ho, hstored, hfailed, hsent, htwo⟩ := hrun
  have hforeign : ∀ arrival ∈ contested.flatMap ServiceAction.arrivals,
      arrival.name? = none := by decide +kernel
  obtain ⟨hends, hsettled⟩ := settlement_borne_out rfl (.new _)
    (fun _ hc => absurd hc List.not_mem_nil)
    (fun _ ho => absurd ho List.not_mem_nil) (by decide) BrokerRun.open_fresh contested
    fun arrival ha name hname => by cases (hforeign arrival ha).symm.trans hname
  obtain ⟨departure, hdeparture, -, hbears⟩ := hends r.broker
    (List.mem_append_right _ List.mem_cons_self) operation.id operation hstored
    (by rw [hfailed]; rfl) hsent
  rw [hdeparture] at htwo
  exact ⟨⟨operation, ho, hfailed, departure, hdeparture, List.head_eq_of_cons_eq htwo, hbears⟩,
    (hsettled 3 0 (by decide +kernel) (by decide +kernel)).2⟩

end Service

end Workflow
