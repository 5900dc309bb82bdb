/-
What the tasks of a batch do in a session, one statement for each.

Collecting takes responses (`Backed.collectTasks`).  What doing a task changes about its operation
is one of five things (`Performed`); about other operations it changes nothing.
-/
import Workflow.Proofs.Broker.Turn

namespace Workflow

namespace Broker

variable {evaluator : Evaluator} {b b' b'' : Broker} {s s' s'' : Session}

/-! ### Collecting -/

/-- What collecting tasks leaves behind: responses were taken, and all else is as before. -/
structure Collected (evaluator : Evaluator) (b : Broker) (s : Session) (c : Broker) (t : Session) :
    Prop where
  onward : Onward evaluator b s c t
  link : c.partition.host.link = b.partition.host.link
  store : c.store.store = b.store.store
  /-- Flights are polled, but none begins or ends. -/
  flights : ∀ id, (b.flight? id = none ∧ c.flight? id = none) ∨
    ∃ flight polled, b.flight? id = some flight ∧ c.flight? id = some polled ∧
      ∀ sent, Flight.Fares s sent flight → Flight.Fares t sent polled

theorem Collected.trans (h : Collected evaluator b s b' s')
    (h' : Collected evaluator b' s' b'' s'') : Collected evaluator b s b'' s'' := by
  refine ⟨h.onward.trans h'.onward, h'.link.trans h.link, h'.store.trans h.store, fun id => ?_⟩
  rcases h.flights id with ⟨hnone, hnone'⟩ | ⟨flight, polled, hflight, hpolled, hfares⟩
  · rcases h'.flights id with ⟨-, hlast⟩ | ⟨_, _, hsome, -⟩
    · exact .inl ⟨hnone, hlast⟩
    · rw [hnone'] at hsome
      cases hsome
  · rcases h'.flights id with ⟨hgone, -⟩ | ⟨_, again, hsome, hagain, hfares'⟩
    · rw [hpolled] at hgone
      cases hgone
    · cases hpolled.symm.trans hsome
      exact .inr ⟨flight, again, hflight, hagain, fun sent hf => hfares' sent (hfares sent hf)⟩

namespace Backed

/-- Nothing is collected. -/
theorem collected_idle (h : Backed evaluator b s) (hpartition : b'.partition = b.partition)
    (hexecutor : b'.executor = b.executor) (hgateways : b'.gateways = b.gateways)
    (hstore : b'.store.store = b.store.store) : Collected evaluator b s b' s := by
  refine ⟨h.idle hpartition (congrArg _ hexecutor) hgateways, by rw [hpartition], hstore,
    fun id => ?_⟩
  rw [flight?_congr hexecutor]
  cases hflight : b.flight? id with
  | none => exact .inl ⟨rfl, rfl⟩
  | some flight => exact .inr ⟨flight, flight, rfl, rfl, fun _ hf => hf⟩

/-- To poll a flight is to take the responses that it waits for. -/
theorem takes (h : Backed evaluator b s) {id : Uuid} {flight : Flight}
    (hflight : b.flight? id = some flight) :
    Onward evaluator b s (b.poll id).2
      ((flight.waiting.map Arrival.take).foldl Session.arrive s) := by
  rcases b.poll_cases id with ⟨hnone, -⟩ | ⟨found, hfound, heq⟩
  · cases hflight.symm.trans hnone
  · cases hflight.symm.trans hfound
    have htakes := h.arriveAll (flight.waiting.map Arrival.take) b s fun arrival ha => by
      obtain ⟨pending, -, rfl⟩ := List.mem_map.mp ha
      rfl
    have hrouter : (flight.waiting.map Arrival.take).foldl Arrival.run b.partition =
        b.partition.withRouter (flight.poll b.partition.host.router).2 :=
      Flight.collect_router flight.waiting { flight with waiting := [] } b.partition
    rw [hrouter] at htakes
    rw [heq]
    exact htakes.trans (htakes.backed.idle rfl rfl rfl)

/-- **A flight is polled.** -/
theorem poll (h : Backed evaluator b s) (id : Uuid) :
    ∃ t, Collected evaluator b s (b.poll id).2 t := by
  rcases b.poll_cases id with ⟨-, heq⟩ | ⟨flight, hflight, heq⟩
  · rw [heq]
    exact ⟨s, h.collected_idle rfl rfl rfl rfl⟩
  · have honward := h.takes hflight
    rw [heq] at honward ⊢
    refine ⟨_, honward, rfl, rfl, fun other => ?_⟩
    unfold flight?
    dsimp only
    rw [Executor.flight?_board]
    by_cases hother : other = id
    · rw [if_pos hother, hother]
      refine .inr ⟨flight, _, hflight, rfl, fun sent hf => ?_⟩
      have hpolled := hf.poll
      rw [h.same] at hpolled
      exact hpolled
    · rw [if_neg hother]
      cases hheld : b.executor.flight? other with
      | none => exact .inl ⟨rfl, rfl⟩
      | some held => exact .inr ⟨held, held, rfl, rfl, fun sent hf => hf.grows honward.grows⟩

theorem collects {c : Broker} (h : Backed evaluator b s) (hcollects : Collects b c) :
    ∃ t, Collected evaluator b s c t := by
  induction hcollects with
  | nothing => exact ⟨s, h.collected_idle rfl rfl rfl rfl⟩
  | fetched _ fetches ih =>
      obtain ⟨t, hcollected⟩ := ih
      exact ⟨t, hcollected.trans (hcollected.onward.backed.collected_idle rfl rfl rfl rfl)⟩
  | polled _ id ih =>
      obtain ⟨t, hcollected⟩ := ih
      obtain ⟨u, hpolled⟩ := hcollected.onward.backed.poll id
      exact ⟨u, hcollected.trans hpolled⟩

/-- Tasks are collected. -/
theorem collectTasks (h : Backed evaluator b s) (max : Nat) :
    ∃ t, Collected evaluator b s (b.collectTasks max).2 t ∧
      ∀ tasks, (b.collectTasks max).1 = .ok tasks →
        (∀ task ∈ tasks, (b.collectTasks max).2.Ready task) ∧
          (tasks.map fun task => task.operation.id).Nodup := by
  obtain ⟨hcollects, hready⟩ := b.collectTasks_ready max
  obtain ⟨t, hcollected⟩ := h.collects hcollects
  exact ⟨t, hcollected, hready⟩

end Backed

/-! ### Doing a task -/

/-- A flight as it is when its commands were sent: it has a job, each of its jobs has a command that
is to update its retries, and it waits for all of them. -/
structure Launched (s : Session) (streamId : Int) (flight : Flight) : Prop where
  some : flight.jobKeys ≠ []
  waits : flight.settlement? = none
  asked : ∀ key ∈ flight.jobKeys, ∃ pending ∈ flight.waiting, ∃ request : CommandRequest,
    request.key = .some key ∧ request.intent = .job .updateRetries ∧
      s.Asked streamId request pending

theorem Launched.grows {streamId : Int} {flight : Flight} (h : Launched s streamId flight)
    (hgrows : s.Grows s') : Launched s' streamId flight := by
  refine ⟨h.some, h.waits, fun key hk => ?_⟩
  obtain ⟨pending, hp, request, hkey, hintent, hasked⟩ := h.asked key hk
  exact ⟨pending, hp, request, hkey, hintent, hasked.grows hgrows⟩

/-- What doing a task changes about its operation. -/
inductive Performed (b : Broker) (c : Broker) (t : Session) (operation : Operation) : Prop
  /-- Nothing. -/
  | nothing (hexecutor : c.executor = b.executor) (hstore : c.store.store = b.store.store)
  /-- It was sent before, which is written down now. -/
  | noted (flight : Flight) (hflight : b.flight? operation.id = some flight)
      (hexecutor : c.executor = b.executor)
      (hstore : b.store.store.update (operation.sent flight.jobKeys) = .ok c.store.store)
  /-- There is nothing to send, and it has failed. -/
  | refused (message : String) (now : Instant) (hflight : b.flight? operation.id = none)
      (hexecutor : c.executor = b.executor)
      (hstore : b.store.store.update (operation.failed message now) = .ok c.store.store)
  /-- It is sent, which is written down if the store allows it. -/
  | sent (flight : Flight) (hflight : b.flight? operation.id = none)
      (hexecutor : c.executor = b.executor.board operation.id flight)
      (hstore : c.store.store = b.store.store ∨
        b.store.store.update (operation.sent flight.jobKeys) = .ok c.store.store)
      (hlaunched : Launched t b.executor.streamId flight)
      (hfirst : flight.jobKeys <+: troubledKeys b.partition operation.targetKey)
      (hall : flight.jobKeys = troubledKeys b.partition operation.targetKey ∨
        b.partition.host.link.Refused c.partition.host.link)
  /-- It has ended, which is written down. -/
  | settled (flight : Flight) (settlement : Settlement) (now : Instant)
      (hstate : operation.state = .sent) (hflight : b.flight? operation.id = some flight)
      (hend : flight.settlement? = some settlement)
      (hexecutor : c.executor = b.executor.land operation.id)
      (hstore : b.store.store.update (ended operation settlement now) = .ok c.store.store)

section Dispatch

variable {sent : List (Nat × PendingResponse)} {failure : Option PartitionError} {c : Broker}
  {t : Session} {operation : Operation}

/-- Requests that were sent make a flight. -/
theorem Sent.launched (h : Sent evaluator b s (b.requestsOf operation) sent failure c t)
    (hsome : sent ≠ []) :
    Launched t b.executor.streamId (launch sent) ∧
      (launch sent).jobKeys <+: troubledKeys b.partition operation.targetKey ∧
      ((launch sent).jobKeys = troubledKeys b.partition operation.targetKey ∨
        b.partition.host.link.Refused c.partition.host.link) := by
  have hfirst := h.first
  have hall := h.all
  rw [map_fst_requestsOf] at hfirst hall
  refine ⟨⟨by simpa [launch] using hsome, ?_, fun key hk => ?_⟩, hfirst, ?_⟩
  · simp [Flight.settlement?, launch, hsome]
  · obtain ⟨entry, he, rfl⟩ := List.mem_map.mp hk
    obtain ⟨request, hr, hasked⟩ := h.asked entry he
    obtain ⟨hkey, hintent⟩ := of_mem_requestsOf hr
    exact ⟨entry.2, List.mem_map_of_mem he, request, hkey, hintent, hasked⟩
  · cases failure with
    | none => exact .inl (hall rfl)
    | some e => exact .inr (h.stopped nofun (.inl hsome))

/-- Only requests that were sent change the flights, and then only that of the operation. -/
theorem Backed.dispatch (h : Backed evaluator b s) (operation : Operation) :
    ∃ t, Onward evaluator b s (b.dispatch operation).2 t ∧
      b.partition.host.link.CountsOn (b.dispatch operation).2.partition.host.link ∧
      Performed b (b.dispatch operation).2 t operation := by
  rcases b.dispatch_cases operation with ⟨flight, hflight, heq⟩ | ⟨hflight,
    ⟨-, heq⟩ | ⟨-, sent, failure, c, hsend, hcases⟩⟩
  · rw [heq]
    obtain ⟨updates, ⟨e, hrecord⟩ | ⟨store, hupdate, hrecord⟩⟩ :=
      b.record_cases (operation.sent flight.jobKeys) <;> rw [hrecord]
    · exact ⟨s, h.idle rfl rfl rfl, .refl _, .nothing rfl rfl⟩
    · exact ⟨s, h.idle rfl rfl rfl, .refl _, .noted flight hflight rfl hupdate⟩
  · rw [heq]
    obtain ⟨updates, ⟨e, hrecord⟩ | ⟨store, hupdate, hrecord⟩⟩ :=
      b.record_cases (operation.failed noIncidentsMessage b.now) <;> rw [hrecord]
    · exact ⟨s, h.idle rfl rfl rfl, .refl _, .nothing rfl rfl⟩
    · exact ⟨s, h.idle rfl rfl rfl, .refl _, .refused _ _ hflight rfl hupdate⟩
  · obtain ⟨t, hsent⟩ := Backed.sendAll (b.requestsOf operation) b s h
    rw [hsend] at hsent
    dsimp only at hsent
    have hexecutor : c.executor = b.executor := by rw [hsent.kept]
    have hstore : c.store = b.store := by rw [hsent.kept]
    rcases hcases with ⟨e, rfl, heq⟩ | ⟨hsome, heq⟩
    · rw [heq]
      exact ⟨t, hsent.onward, hsent.counts, .nothing hexecutor (congrArg _ hstore)⟩
    · rw [heq]
      obtain ⟨hlaunched, hfirst, hall⟩ := hsent.launched hsome
      have hboarded : c.executor.board operation.id (launch sent) =
          b.executor.board operation.id (launch sent) := by rw [hexecutor]
      obtain ⟨updates, ⟨e, hrecord⟩ | ⟨store, hupdate, hrecord⟩⟩ :=
        ({ c with executor := c.executor.board operation.id (launch sent) } : Broker).record_cases
          (operation.sent (sent.map Prod.fst)) <;> rw [hrecord]
      · exact ⟨t, hsent.onward.trans (hsent.onward.backed.idle rfl rfl rfl), hsent.counts,
          .sent (launch sent) hflight hboarded (.inl (congrArg StoreLink.store hstore :)) hlaunched
            hfirst hall⟩
      · refine ⟨t, hsent.onward.trans (hsent.onward.backed.idle rfl rfl rfl), hsent.counts,
          .sent (launch sent) hflight hboarded (.inr ?_) hlaunched hfirst hall⟩
        rw [← hstore]
        exact hupdate

end Dispatch

/-- The end of a flight is written down, or the flight goes on. -/
theorem Backed.settle (h : Backed evaluator b s) {operation : Operation} {flight : Flight}
    {settlement : Settlement} (hstate : operation.state = .sent)
    (hflight : b.flight? operation.id = some flight) (hend : flight.settlement? = some settlement) :
    ∃ t, Onward evaluator b s (b.settle operation settlement).2 t ∧
      b.partition.host.link.CountsOn (b.settle operation settlement).2.partition.host.link ∧
      Performed b (b.settle operation settlement).2 t operation := by
  unfold Broker.settle
  obtain ⟨updates, ⟨e, heq⟩ | ⟨store, hupdate, heq⟩⟩ :=
    b.record_cases (ended operation settlement b.now)
  · rw [heq]
    exact ⟨s, h.idle rfl rfl rfl, .refl _, .nothing rfl rfl⟩
  · rw [heq]
    exact ⟨s, h.idle rfl rfl rfl, .refl _,
      .settled flight settlement b.now hstate hflight hend rfl hupdate⟩

/-- **Doing a task that is ready.** -/
theorem Backed.perform (h : Backed evaluator b s) {task : OperationTask} (hready : b.Ready task) :
    ∃ t, Onward evaluator b s (b.perform task).2 t ∧
      b.partition.host.link.CountsOn (b.perform task).2.partition.host.link ∧
      Performed b (b.perform task).2 t task.operation := by
  cases task with
  | dispatch operation => exact h.dispatch operation
  | settle operation settlement =>
      obtain ⟨-, hstate, flight, hflight, hend⟩ := hready
      exact h.settle hstate hflight hend

end Broker

end Workflow
