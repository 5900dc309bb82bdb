/-
The account of an operation.

While an operation has a flight, it is not at its end, and the flight follows the requests of the
one turn in which the operation departed.  What is sent has a flight.  So where an operation is at
its end, either nothing was sent for it, or the responses to its commands justify that end.
-/
import Workflow.Proofs.Broker.Awaited

namespace Workflow

namespace Service

open Broker

variable {evaluator : Evaluator} {r r' : Service} {s t : Session} {id : Uuid}

/-- What is known about an operation at any moment of a run. -/
structure Account (evaluator : Evaluator) (r : Service) (s : Session) (id : Uuid) : Prop where
  once : r.SentOnce id
  /-- Its flight follows the requests of its departure, and it is not at its end. -/
  flying : ∀ flight, r.broker.flight? id = some flight →
    (∃ departure ∈ r.departures id, departure.Launches r.broker.executor.streamId s flight) ∧
      ¬ r.broker.Ended id
  /-- A flight is stored. -/
  stored : r.broker.flight? id ≠ none → r.broker.stored? id ≠ none
  /-- What was sent has a flight. -/
  sent : ∀ operation, r.broker.stored? id = some operation → operation.state = .sent →
    r.broker.flight? id ≠ none
  /-- An end is justified by the responses to what was sent. -/
  justified : ∀ operation, r.broker.stored? id = some operation →
    operation.state.isTerminal = true → ∀ departure ∈ r.departures id,
      r.broker.partition.Justifies evaluator operation departure.appended
  /-- What was stored at earlier moments. -/
  before : ∀ moment ∈ r.past, ∀ operation, moment.stored? id = some operation →
    (operation.state = .sent → r.departures id ≠ []) ∧
    (operation.state.isTerminal = true → r.broker.Ended id ∧
      ∀ departure ∈ r.departures id, moment.partition.Bears operation departure.appended)

namespace Account

/-- The operation has no turn. -/
theorem kept (h : r.Account evaluator s id) (hturns : r'.turnsOf id = r.turnsOf id)
    (hpast : r'.past = r.past) (hstored : r'.broker.stored? id = r.broker.stored? id)
    (hstream : r'.broker.executor.streamId = r.broker.executor.streamId) (hgrows : s.Grows t)
    (hjustified : ∀ operation commands, r.broker.partition.Justifies evaluator operation commands →
      r'.broker.partition.Justifies evaluator operation commands)
    (hnone : r'.broker.flight? id = none ↔ r.broker.flight? id = none)
    (hflight : ∀ later, r'.broker.flight? id = some later → ∃ flight,
      r.broker.flight? id = some flight ∧ ∀ requests, requests ⊆ s.sent →
        flight.Follows s requests → later.Follows t requests) :
    r'.Account evaluator t id := by
  have hdepartures : r'.departures id = r.departures id := by
    unfold departures
    rw [hturns]
  have hended : r'.broker.Ended id ↔ r.broker.Ended id := by
    unfold Broker.Ended
    rw [hstored]
  refine ⟨h.once.kept hturns hnone hended.mpr, fun later hlater => ?_, fun hsome => ?_,
    fun operation ho hstate => ?_, fun operation ho hend => ?_, fun moment hm operation ho => ?_⟩
  · obtain ⟨flight, hflies, hlater'⟩ := hflight later hlater
    obtain ⟨⟨departure, hd, hlaunches⟩, hlive⟩ := h.flying flight hflies
    rw [hdepartures, hstream, hended]
    exact ⟨⟨departure, hd, hlaunches.grows hgrows hlater'⟩, hlive⟩
  · rw [hstored]
    exact h.stored (mt hnone.mpr hsome)
  · exact mt hnone.mp (h.sent operation (hstored ▸ ho) hstate)
  · rw [hdepartures]
    exact fun departure hd =>
      hjustified _ _ (h.justified operation (hstored ▸ ho) hend departure hd)
  · rw [hpast] at hm
    rw [hdepartures, hended]
    exact h.before moment hm operation ho

/-- The operation is at another version, after one at which it had not ended. -/
theorem next (h : r.Account evaluator s id) (hlive : ¬ r.broker.Ended id)
    (hpast : r'.past = r.past) (hdepartures : r.departures id ⊆ r'.departures id)
    (honce : r'.SentOnce id) {version : Operation} (hstored : r'.broker.stored? id = some version)
    (hflying : ∀ flight, r'.broker.flight? id = some flight →
      (∃ departure ∈ r'.departures id, departure.Launches r'.broker.executor.streamId t flight) ∧
        version.state.isTerminal = false)
    (hsent : version.state = .sent → r'.broker.flight? id ≠ none)
    (hjustified : version.state.isTerminal = true → ∀ departure ∈ r'.departures id,
      r'.broker.partition.Justifies evaluator version departure.appended) :
    r'.Account evaluator t id := by
  have hversion : ∀ {operation}, r'.broker.stored? id = some operation → version = operation :=
    fun ho => Option.some.inj (hstored.symm.trans ho)
  refine ⟨honce, fun flight hf => ?_, fun _ => hstored ▸ Option.some_ne_none _,
    fun operation ho => hversion ho ▸ hsent, fun operation ho => hversion ho ▸ hjustified,
    fun moment hm operation ho => ?_⟩
  · obtain ⟨hlaunches, hgoes⟩ := hflying flight hf
    refine ⟨hlaunches, fun ⟨operation, ho, hterminal⟩ => ?_⟩
    rw [← hversion ho, hgoes] at hterminal
    cases hterminal
  · rw [hpast] at hm
    obtain ⟨hwas, hended⟩ := h.before moment hm operation ho
    refine ⟨fun hstate hnone => hwas hstate ?_, fun hend => absurd (hended hend).1 hlive⟩
    exact List.eq_nil_of_subset_nil (hnone ▸ hdepartures)

/-- The present moment is kept. -/
theorem noted (h : r.Account evaluator s id) (hsourced : r.broker.partition.Sourced evaluator) :
    r.noted.Account evaluator s id := by
  refine ⟨h.once.same rfl rfl rfl, h.flying, h.stored, h.sent, h.justified,
    fun moment hm operation ho => ?_⟩
  rcases List.mem_append.mp hm with hold | hnew
  · exact h.before moment hold operation ho
  · cases List.mem_singleton.mp hnew
    refine ⟨fun hstate => h.once.flown (h.sent operation ho hstate), fun hend =>
      ⟨⟨operation, ho, hend⟩, fun departure hd => ?_⟩⟩
    exact (h.justified operation ho hend departure hd).bears hsourced fun command hc =>
      (Turn.of_mem_appended hc).2.1

/-- An operation is scheduled. -/
theorem scheduled (h : r.Account evaluator s id) (request : BatchRequest) :
    Account evaluator { r with broker := (r.broker.schedule request).2 } s id := by
  have hflight : (r.broker.schedule request).2.flight? id = r.broker.flight? id :=
    flight?_congr (r.broker.executor_schedule request) id
  have hstream : (r.broker.schedule request).2.executor.streamId = r.broker.executor.streamId := by
    rw [executor_schedule]
  rcases r.broker.stored?_schedule request id with hsame | ⟨hnone, operation, hnew, hscheduled⟩
  · refine h.kept rfl rfl hsame hstream (.refl s) (fun _ _ hj => ?_)
      (iff_of_eq (congrArg (· = none) hflight)) fun later hlater =>
        ⟨later, hflight ▸ hlater, fun _ _ hf => hf⟩
    dsimp only
    rw [partition_schedule]
    exact hj
  · -- What is not stored has neither departed nor ended.
    have hground : r.broker.flight? id = none := by
      by_contra hsome
      exact h.stored hsome hnone
    have hend : ¬ r.broker.Ended id := by
      rintro ⟨other, ho, -⟩
      cases hnone.symm.trans ho
    refine h.next hend rfl (fun _ hd => hd) ?_ hnew (fun flight hf => ?_) (fun hstate => ?_)
      fun hterminal => ?_
    · exact h.once.kept rfl (iff_of_eq (congrArg (· = none) hflight)) fun hended =>
        absurd hended hend
    · cases (hflight.trans hground).symm.trans hf
    · cases hscheduled.state.symm.trans hstate
    · rw [hscheduled.state] at hterminal
      cases hterminal

/-- **The operation has a turn.** -/
theorem turn (h : r.Account evaluator s id) {turn : Turn} (hid : turn.id = id)
    (hready : turn.broker.Ready turn.task) (hbacked : Backed evaluator turn.broker s)
    (hattended : turn.Attended evaluator s t) (hbegins : r.broker = turn.broker)
    (hends : r'.broker = turn.after) (hturns : r'.turns = r.turns ++ [turn])
    (hpast : r'.past = r.past) : r'.Account evaluator t id := by
  subst hid
  have honce := h.once.turn rfl (turn.passes hready) hready hbegins hends hturns
  obtain ⟨hof, hdepartures⟩ := departures_append hturns
  have hsubset : r.departures turn.id ⊆ r'.departures turn.id := by
    rw [hdepartures]
    exact List.subset_append_left _ _
  have hlive : ¬ r.broker.Ended turn.id := hbegins ▸ hready.not_ended
  have hflying := h.flying
  rw [hbegins] at hflying
  -- The flight is the one of before, or the one that was launched in this turn.
  have hflies : ∀ flight, turn.after.flight? turn.id = some flight →
      ∃ departure ∈ r'.departures turn.id,
        departure.Launches turn.after.executor.streamId t flight := by
    intro flight hf
    rw [hattended.onward.streamId]
    rcases hattended.flight flight hf with hsame | ⟨hsome, hlaunches⟩
    · obtain ⟨⟨departure, hd, hlaunches⟩, -⟩ := hflying flight hsame
      exact ⟨departure, hsubset hd, hlaunches.grows hattended.onward.grows
        fun _ _ hfollows => hfollows.grows hattended.onward.grows⟩
    · refine ⟨turn, ?_, hlaunches⟩
      rw [hdepartures, if_neg hsome]
      exact List.mem_append_right _ List.mem_cons_self
  cases turn.leaves hready with
  | @goesOn version hstored hgoes hflight =>
      rw [← hends] at hstored hflies hflight
      refine h.next hlive hpast hsubset honce hstored (fun flight hf => ⟨hflies flight hf, hgoes⟩)
        hflight fun hterminal => ?_
      rw [hgoes] at hterminal
      cases hterminal
  | @givenUp version hstored hstate hup hflight =>
      rw [← hends] at hstored hflight
      refine h.next hlive hpast hsubset honce hstored (fun flight hf => ?_) (fun hsent => ?_)
        fun _ departure hd => ?_
      · cases hflight.symm.trans hf
      · cases hstate.symm.trans hsent
      · have hmem : turn ∈ r'.turnsOf turn.id := by
          rw [hof]
          exact List.mem_append_right _ List.mem_cons_self
        rw [(honce.given turn hmem hup).1] at hd
        exact absurd hd List.not_mem_nil
  | @settled operation settlement flight hflight hend hstored hlanded hpartition =>
      rw [← hends] at hstored hlanded hpartition
      refine h.next hlive hpast hsubset honce hstored (fun other hf => ?_) (fun hsent => ?_)
        fun _ departure hd => ?_
      · cases hlanded.symm.trans hf
      · cases settlement <;> cases hsent
      · obtain ⟨⟨launch, hl, requests, hnames, hsent, hlogged, hfollows⟩, -⟩ :=
          hflying flight hflight
        -- It has departed once.
        have hsame : launch = departure := by
          have hl' := hsubset hl
          rw [honce.departures_eq hd] at hl'
          exact List.mem_singleton.mp hl'
        subst hsame
        rw [hpartition]
        rw [hbacked.same] at hlogged
        exact hbacked.justifies hnames hsent hlogged hfollows hend operation _

end Account

end Service

end Workflow
