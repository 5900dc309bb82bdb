/-
How an operation gets from its departure to its end.

An operation departs in one batch: that is when its commands are sent and it gets its flight.  From
then on it is away until the end of its flight is written down, and then it has landed (`Status`).
The store may refuse to write down the departure, or the end; the flight is what remembers them.

A batch changes the status of an operation at most twice, by a poll of its flight and by one task,
and never lets it depart again (`Told`).
-/
import Workflow.Proofs.Broker.Tasks

namespace Workflow

/-- The departure of an operation. -/
structure Departure where
  /-- The broker before the batch in which its commands were sent. -/
  broker : Broker
  /-- The instance that it is about. -/
  instanceKey : Nat
  /-- The flight it had then. -/
  flight : Flight

namespace Broker

variable {evaluator : Evaluator} {b c d : Broker} {s t : Session} {id : Uuid}
  {before : Option Departure}

/-- How far an operation is. -/
inductive Status (b : Broker) (s : Session) (id : Uuid) : Option Departure → Prop
  /-- It has not departed. -/
  | grounded (hflight : b.flight? id = none)
      (hstored : ∀ operation, b.stored? id = some operation →
        operation.state = .scheduled ∨ operation.state = .failed) : Status b s id none
  /-- It has, and it is not known how that ended. -/
  | away {departure : Departure} {operation : Operation} {flight : Flight}
      (hflight : b.flight? id = some flight) (hstored : b.stored? id = some operation)
      (hinstance : operation.targetKey = departure.instanceKey)
      (hopen : operation.state = .scheduled ∨
        operation.state = .sent ∧ operation.jobKeys = departure.flight.jobKeys)
      (hlaunched : Launched s b.executor.streamId departure.flight)
      (hfares : Flight.Fares s departure.flight flight) : Status b s id (some departure)
  /-- It has ended. -/
  | landed {departure : Departure} {operation : Operation} (hflight : b.flight? id = none)
      (hstored : b.stored? id = some operation)
      (hinstance : operation.targetKey = departure.instanceKey)
      (hend : operation.state = .failed ∨ operation.state = .completed ∧
        operation.jobKeys = departure.flight.jobKeys ∧
          ∀ pending ∈ departure.flight.waiting, ∃ response,
            (pending.ticket, response) ∈ s.received ∧ response.isRejection = false)
      (hlaunched : Launched s b.executor.streamId departure.flight) :
      Status b s id (some departure)

/-- The status stays when the operation and its flight do. -/
theorem Status.kept (h : Status b s id before) (hflight : c.flight? id = b.flight? id)
    (hstored : c.stored? id = b.stored? id) (hstream : c.executor.streamId = b.executor.streamId)
    (hgrows : s.Grows t) : Status c t id before := by
  cases h with
  | grounded hnone hopen =>
      exact .grounded (hflight.trans hnone) fun operation ho => hopen operation (hstored ▸ ho)
  | away hsome hget hinstance hopen hlaunched hfares =>
      exact .away (hflight.trans hsome) (hstored.trans hget) hinstance hopen
        (hstream ▸ hlaunched.grows hgrows) (hfares.grows hgrows)
  | landed hnone hget hinstance hend hlaunched =>
      refine .landed (hflight.trans hnone) (hstored.trans hget) hinstance
        (hend.imp_right fun ⟨hstate, hkeys, hall⟩ => ⟨hstate, hkeys, fun pending hp => ?_⟩)
        (hstream ▸ hlaunched.grows hgrows)
      obtain ⟨response, hreceived, haccepted⟩ := hall pending hp
      exact ⟨response, hgrows.received _ hreceived, haccepted⟩

/-- Collecting tasks keeps the status. -/
theorem Status.collect (h : Status b s id before) (hcollected : Collected evaluator b s c t) :
    Status c t id before := by
  have hstored := stored?_congr hcollected.store id
  rcases hcollected.flights id with ⟨hnone, hnone'⟩ | ⟨flight, polled, hflight, hpolled, hfares⟩
  · exact h.kept (hnone'.trans hnone.symm) hstored hcollected.onward.streamId
      hcollected.onward.grows
  · cases h with
    | grounded hnone hopen => cases hnone.symm.trans hflight
    | away hsome hget hinstance hopen hlaunched hold =>
        cases hsome.symm.trans hflight
        exact .away hpolled (hstored.trans hget) hinstance hopen
          (hcollected.onward.streamId ▸ hlaunched.grows hcollected.onward.grows) (hfares _ hold)
    | landed hnone => cases hnone.symm.trans hflight

/-! ### The middle of a batch -/

/-- What is known about an operation in the middle of a batch: it is as far as before, or it has
departed in this batch. -/
inductive Told (d b : Broker) (s : Session) (id : Uuid) (before : Option Departure) : Prop
  | asBefore (hstatus : Status b s id before) (hfirst : before = none → d.flight? id = none)
      (hlast : d.flight? id = none → b.flight? id = none)
  | departed (departure : Departure) (hbefore : before = none) (hbroker : departure.broker = d)
      (hnone : d.flight? id = none) (hflight : b.flight? id = some departure.flight)
      (hfirst : departure.flight.jobKeys <+: troubledKeys d.partition departure.instanceKey)
      (hall : departure.flight.jobKeys = troubledKeys d.partition departure.instanceKey ∨
        d.partition.host.link.Refused b.partition.host.link)
      (hstatus : Status b s id (some departure))

theorem Told.kept (h : Told d b s id before) (hflight : c.flight? id = b.flight? id)
    (hstored : c.stored? id = b.stored? id) (honward : Onward evaluator b s c t)
    (hcounts : b.partition.host.link.CountsOn c.partition.host.link) : Told d c t id before := by
  have hkept := fun {after : Option Departure} (hstatus : Status b s id after) =>
    hstatus.kept (t := t) hflight hstored honward.streamId honward.grows
  cases h with
  | asBefore hstatus hfirst hlast =>
      exact .asBefore (hkept hstatus) hfirst fun hnone => hflight.trans (hlast hnone)
  | departed departure hbefore hbroker hnone hsome hfirst hall hstatus =>
      exact .departed departure hbefore hbroker hnone (hflight.trans hsome) hfirst
        (hall.imp_right fun hrefused => hrefused.of_earlier hcounts) (hkept hstatus)

/-- The middle of a batch. -/
structure Midway (evaluator : Evaluator) (d b : Broker) (s : Session) : Prop where
  backed : Backed evaluator b s
  processor : b.partition.processor = d.partition.processor
  counts : d.partition.host.link.CountsOn b.partition.host.link

/-- Jobs are found in the state alone. -/
theorem troubledKeys_congr {p q : Partition} (h : q.processor = p.processor) (instanceKey : Nat) :
    troubledKeys q instanceKey = troubledKeys p instanceKey := by
  unfold troubledKeys troubledJobs Partition.activeIncidents Partition.job? Partition.state
  rw [h]

section Perform

variable {operation : Operation} {flight : Flight}

/-- That it has departed is written down. -/
theorem Status.noted (h : Status b s operation.id before)
    (hget : b.stored? operation.id = some operation)
    (hflight : b.flight? operation.id = some flight)
    (hflight' : c.flight? operation.id = b.flight? operation.id)
    (hwritten : c.stored? operation.id = some (operation.sent flight.jobKeys))
    (honward : Onward evaluator b s c t) : Status c t operation.id before := by
  cases h with
  | grounded hnone => cases hnone.symm.trans hflight
  | landed hnone => cases hnone.symm.trans hflight
  | away hsome hstored hinstance hopen hlaunched hfares =>
      cases hsome.symm.trans hflight
      cases hstored.symm.trans hget
      exact .away (hflight'.trans hflight) hwritten hinstance (.inr ⟨rfl, hfares.jobKeys⟩)
        (honward.streamId ▸ hlaunched.grows honward.grows) (hfares.grows honward.grows)

/-- Its end is written down. -/
theorem Status.settled (h : Status b s operation.id before)
    (hget : b.stored? operation.id = some operation) (hstate : operation.state = .sent)
    (hflight : b.flight? operation.id = some flight) {settlement : Settlement} {now : Instant}
    (hend : flight.settlement? = some settlement) (hgone : c.flight? operation.id = none)
    (hwritten : c.stored? operation.id = some (ended operation settlement now))
    (honward : Onward evaluator b s c t) : Status c t operation.id before := by
  cases h with
  | grounded hnone => cases hnone.symm.trans hflight
  | landed hnone => cases hnone.symm.trans hflight
  | away hsome hstored hinstance hopen hlaunched hfares =>
      cases hsome.symm.trans hflight
      cases hstored.symm.trans hget
      have hlaunched' := honward.streamId ▸ hlaunched.grows honward.grows
      cases settlement with
      | failed message => exact .landed hgone hwritten hinstance (.inl rfl) hlaunched'
      | completed =>
          refine .landed hgone hwritten hinstance (.inr ⟨rfl, ?_, ?_⟩) hlaunched'
          · rcases hopen with hscheduled | ⟨-, hkeys⟩
            · cases hscheduled.symm.trans hstate
            · exact hkeys
          · exact (hfares.grows honward.grows).completed hend

/-- A live operation without a flight has not departed. -/
theorem Status.eq_none (h : Status b s operation.id before)
    (hget : b.stored? operation.id = some operation)
    (hlive : operation.state = .scheduled ∨ operation.state = .sent)
    (hnone : b.flight? operation.id = none) : before = none ∧ operation.state = .scheduled := by
  cases h with
  | grounded _ hopen =>
      refine ⟨rfl, hlive.resolve_right fun hsent => ?_⟩
      rcases hopen operation hget with hstate | hstate <;> cases hstate.symm.trans hsent
  | away hsome => cases hnone.symm.trans hsome
  | landed _ hstored hinstance hend =>
      cases hstored.symm.trans hget
      rcases hend with hstate | ⟨hstate, -⟩ <;>
        rcases hlive with hlive | hlive <;> cases hlive.symm.trans hstate

/-- **A task on an operation.**  It is noted that the operation has departed, or the operation
fails, departs or lands. -/
theorem Told.performed (h : Told d b s operation.id before) (hmid : Midway evaluator d b s)
    (hget : b.stored? operation.id = some operation)
    (hlive : operation.state = .scheduled ∨ operation.state = .sent)
    (honward : Onward evaluator b s c t)
    (hcounts : b.partition.host.link.CountsOn c.partition.host.link)
    (hperformed : Performed b c t operation) : Told d c t operation.id before := by
  have hwritten : ∀ {next : Operation}, b.store.store.update next = .ok c.store.store →
      next.id = operation.id → c.stored? operation.id = some next := fun hupdate hid =>
    (OperationStore.update_ok hupdate operation.id).1.trans (if_pos hid.symm)
  have hsame := fun hexecutor : c.executor = b.executor => flight?_congr hexecutor operation.id
  cases hperformed with
  | nothing hexecutor hstore =>
      exact h.kept (hsame hexecutor) (stored?_congr hstore _) honward hcounts
  | noted flight hflight hexecutor hstore =>
      have hnoted := fun {after : Option Departure} (hstatus : Status b s operation.id after) =>
        hstatus.noted hget hflight (hsame hexecutor) (hwritten hstore rfl) honward
      cases h with
      | asBefore hstatus hfirst hlast =>
          exact .asBefore (hnoted hstatus) hfirst fun hnone =>
            (hsame hexecutor).trans (hlast hnone)
      | departed departure hbefore hbroker hnone hsome hfirst hall hstatus =>
          exact .departed departure hbefore hbroker hnone ((hsame hexecutor).trans hsome) hfirst
            (hall.imp_right fun hrefused => hrefused.of_earlier hcounts) (hnoted hstatus)
  | refused message now hnone hexecutor hstore =>
      cases h with
      | departed departure _ _ _ hsome => cases hnone.symm.trans hsome
      | asBefore hstatus hfirst hlast =>
          obtain ⟨rfl, -⟩ := hstatus.eq_none hget hlive hnone
          refine .asBefore (.grounded ((hsame hexecutor).trans hnone) fun other ho => ?_) hfirst
            fun _ => (hsame hexecutor).trans hnone
          cases (hwritten hstore rfl).symm.trans ho
          exact .inr rfl
  | sent flight hnone hexecutor hstore hlaunched hfirst hall =>
      have hflight : c.flight? operation.id = some flight := by
        unfold flight?
        rw [hexecutor, Executor.flight?_board, if_pos rfl]
      rw [troubledKeys_congr hmid.processor] at hfirst hall
      cases h with
      | departed departure _ _ _ hsome => cases hnone.symm.trans hsome
      | asBefore hstatus hground hlast =>
          obtain ⟨hbefore, hscheduled⟩ := hstatus.eq_none hget hlive hnone
          have hfares : Flight.Fares t flight flight :=
            ⟨rfl, fun pending hp => .inl hp⟩
          refine .departed ⟨d, operation.targetKey, flight⟩ hbefore rfl (hground hbefore) hflight
            hfirst (hall.imp_right (.of_later hmid.counts)) ?_
          have hlaunched' := honward.streamId ▸ hlaunched
          rcases hstore with hkept | hupdate
          · exact .away hflight ((stored?_congr hkept _).trans hget) rfl (.inl hscheduled)
              hlaunched' hfares
          · exact .away hflight (hwritten hupdate rfl) rfl (.inr ⟨rfl, rfl⟩) hlaunched' hfares
  | settled flight settlement now hstate hflight hend hexecutor hstore =>
      have hgone : c.flight? operation.id = none := by
        unfold flight?
        rw [hexecutor, Executor.flight?_land, if_pos rfl]
      cases h with
      | asBefore hstatus hfirst hlast =>
          exact .asBefore (hstatus.settled hget hstate hflight hend hgone
            (hwritten hstore (id_ended _ _ _)) honward) hfirst fun _ => hgone
      | departed departure hbefore hbroker hnone hsome hfirst hall hstatus =>
          -- It waits for all that was sent in this batch.
          cases hstatus with
          | away _ _ _ _ hlaunched =>
              cases hsome.symm.trans hflight
              cases hlaunched.waits.symm.trans hend
          | landed hnone' => cases hnone'.symm.trans hsome

/-- **A task that is ready.** -/
theorem Told.perform {id : Uuid} (h : Told d b s id before) (hmid : Midway evaluator d b s)
    {task : OperationTask} (hready : b.Ready task) :
    ∃ t, Onward evaluator b s (b.perform task).2 t ∧ Midway evaluator d (b.perform task).2 t ∧
      Told d (b.perform task).2 t id before ∧
      ∀ other, other ≠ task.operation.id →
        (b.perform task).2.stored? other = b.stored? other ∧
          (b.perform task).2.flight? other = b.flight? other := by
  obtain ⟨t, honward, hcounts, hperformed⟩ := hmid.backed.perform hready
  have hdoes := b.perform_does task
  refine ⟨t, honward,
    ⟨honward.backed, honward.processor.trans hmid.processor, hmid.counts.trans hcounts⟩, ?_,
    fun other hother => hdoes.others hother⟩
  by_cases hid : id = task.operation.id
  · subst hid
    cases task with
    | dispatch operation =>
        exact h.performed hmid hready.1 (.inl hready.2) honward hcounts hperformed
    | settle operation settlement =>
        exact h.performed hmid hready.1 (.inr hready.2.1) honward hcounts hperformed
  · obtain ⟨hstored, hflight⟩ := hdoes.others hid
    exact h.kept hflight hstored honward hcounts

/-- **Tasks that are ready, and about different operations.** -/
theorem Told.execute {id : Uuid} (tasks : List OperationTask) :
    ∀ (b : Broker) (s : Session), Told d b s id before → Midway evaluator d b s →
      (∀ task ∈ tasks, b.Ready task) → (tasks.map fun task => task.operation.id).Nodup →
      ∃ t, Onward evaluator b s (execute tasks b).2 t ∧ Midway evaluator d (execute tasks b).2 t ∧
        Told d (execute tasks b).2 t id before := by
  induction tasks with
  | nil => intro b s h hmid _ _; exact ⟨s, hmid.backed.idle rfl rfl rfl, hmid, h⟩
  | cons task rest ih =>
      intro b s h hmid hready hnodup
      obtain ⟨hnew, hnodup'⟩ := List.nodup_cons.mp hnodup
      obtain ⟨t, honward, hmid', htold, hothers⟩ :=
        h.perform hmid (hready task List.mem_cons_self)
      unfold Broker.execute
      rcases hperform : b.perform task with ⟨e | ⟨⟩, c⟩
      · rw [hperform] at honward hmid' htold
        exact ⟨t, honward, hmid', htold⟩
      · rw [hperform] at honward hmid' htold hothers
        have hready' : ∀ other ∈ rest, c.Ready other := by
          intro other ho
          obtain ⟨hstored, hflight⟩ := hothers other.operation.id fun hsame =>
            hnew (List.mem_map.mpr ⟨other, ho, hsame⟩)
          exact (hready other (List.mem_cons_of_mem _ ho)).of_same hstored hflight
        obtain ⟨u, hrest, hend, htold'⟩ := ih c t htold hmid' hready' hnodup'
        exact ⟨u, honward.trans hrest, hend, htold'⟩

end Perform

/-- **A batch.** -/
theorem Status.executeBatch (h : Status b s id before) (hbacked : Backed evaluator b s) :
    ∃ t, Onward evaluator b s b.executeBatch.2 t ∧ Midway evaluator b b.executeBatch.2 t ∧
      Told b b.executeBatch.2 t id before := by
  obtain ⟨t, hcollected, hready⟩ := hbacked.collectTasks b.executor.batchSize
  have hmid : Midway evaluator b (b.collectTasks b.executor.batchSize).2 t := by
    refine ⟨hcollected.onward.backed, hcollected.onward.processor, ?_⟩
    rw [hcollected.link]
    exact .refl _
  have htold : Told b (b.collectTasks b.executor.batchSize).2 t id before := by
    refine .asBefore (h.collect hcollected) (fun hbefore => ?_) fun hnone => ?_
    · subst hbefore
      cases h with
      | grounded hnone => exact hnone
    · rcases hcollected.flights id with ⟨-, hnone'⟩ | ⟨_, _, hsome, -⟩
      · exact hnone'
      · cases hnone.symm.trans hsome
  unfold Broker.executeBatch
  rcases hcollect : b.collectTasks b.executor.batchSize with ⟨e | tasks, c⟩
  · rw [hcollect] at hcollected hmid htold
    exact ⟨t, hcollected.onward, hmid, htold⟩
  · rw [hcollect] at hcollected hmid htold hready
    obtain ⟨hall, hnodup⟩ := hready tasks rfl
    obtain ⟨u, honward, hmid', htold'⟩ := htold.execute tasks c t hmid hall hnodup
    exact ⟨u, hcollected.onward.trans honward, hmid', htold'⟩

end Broker

end Workflow
