/-
Who takes which response.

Each response can be taken once.  Clients look for the responses to their own requests only, and
different operations have different requests, so no response is looked for twice (`SoleTakers`).
What the executor does keeps that (`Backed.attended`): what a flight waits for was sent in the turn
that launched it, or is left of what it waited for before.
-/
import Mathlib.Data.List.Flatten
import Mathlib.Data.List.Perm.Subperm
import Workflow.Proofs.Broker.SentOnce
import Workflow.Proofs.Broker.Verdict

namespace Workflow

/-! ### Who takes which response -/

namespace Executor

variable {executor : Executor} {id : Uuid} {flight : Flight}

/-- The requests whose responses flights wait for. -/
def awaited (executor : Executor) : List PendingResponse :=
  executor.flights.flatMap fun entry => entry.2.waiting

theorem awaited_board (executor : Executor) (id : Uuid) (flight : Flight) :
    (executor.board id flight).awaited = flight.waiting ++ (executor.land id).awaited := rfl

theorem awaited_land (executor : Executor) (id : Uuid) :
    (executor.land id).awaited.Sublist executor.awaited :=
  List.Sublist.flatMap List.filter_sublist _

/-- A flight has its share of what is awaited. -/
theorem awaited_split (h : executor.flight? id = some flight) :
    (flight.waiting ++ (executor.land id).awaited).Subperm executor.awaited := by
  obtain ⟨before, after, hsplit, -⟩ := List.lookup_eq_some_iff.mp h
  have hland : (executor.land id).flights =
      (before.filter fun entry => entry.1 != id) ++ after.filter fun entry => entry.1 != id := by
    unfold land
    rw [hsplit, List.filter_append, List.filter_cons_of_neg (by simp)]
  unfold awaited
  rw [hland, hsplit, List.flatMap_append, List.flatMap_append, List.flatMap_cons]
  refine List.Subperm.trans (List.Sublist.subperm ?_)
    (List.perm_append_comm_assoc flight.waiting _ _).subperm
  refine List.Sublist.append_left ?_ _
  exact (List.Sublist.flatMap List.filter_sublist _).append
    (List.Sublist.flatMap List.filter_sublist _)

end Executor

/-- Among requests that were sent tickets are different. -/
theorem nodup_tickets {requests sent : List PendingResponse} (h : requests.Subperm sent)
    (hdistinct : (sent.map PendingResponse.ticket).Nodup) :
    (requests.map PendingResponse.ticket).Nodup := by
  obtain ⟨found, hperm, hsublist⟩ := h
  exact (hperm.map _).nodup_iff.mp (hdistinct.sublist (hsublist.map _))

/-- Each response can be taken by one client or one flight. -/
structure SoleTakers (held : List PendingResponse) (executor : Executor) (s : Session) : Prop where
  /-- Clients and flights look for the responses to different requests, all of which were sent. -/
  waits : (held ++ executor.awaited).Subperm s.sent
  /-- What was taken are responses to requests that were sent. -/
  taken : ∀ entry ∈ s.received, ∃ pending ∈ s.sent, pending.ticket = entry.1
  /-- What a flight waits for was not taken. -/
  fresh : ∀ pending ∈ executor.awaited, pending.ticket ∉ s.received.map Prod.fst

/-- Who looks for responses sends nothing. -/
theorem Session.sent_takes (requests : List PendingResponse) :
    ∀ s : Session, ((requests.map Arrival.take).foldl Session.arrive s).sent = s.sent := by
  induction requests with
  | nil => intro s; rfl
  | cons pending rest ih => intro s; exact ih _

namespace SoleTakers

variable {held : List PendingResponse} {executor : Executor} {s t : Session} {id : Uuid}

/-- Clients send requests. -/
theorem sent (h : SoleTakers held executor s) {requests : List PendingResponse}
    (hsent : t.sent = requests ++ s.sent) (hreceived : t.received = s.received) :
    SoleTakers (requests ++ held) executor t where
  waits := by
    rw [hsent, List.append_assoc]
    exact (List.subperm_append_left requests).mpr h.waits
  taken := fun entry he => by
    rw [hreceived] at he
    obtain ⟨pending, hp, hticket⟩ := h.taken entry he
    exact ⟨pending, hsent ▸ List.mem_append_right _ hp, hticket⟩
  fresh := by
    rw [hreceived]
    exact h.fresh

/-- A client looks for the response to one of its requests. -/
theorem took (h : SoleTakers held executor s)
    (hdistinct : (s.sent.map PendingResponse.ticket).Nodup)
    {pending : PendingResponse} (hp : pending ∈ held) :
    SoleTakers held executor (s.arrive (.take pending)) := by
  have htaken : ∀ entry ∈ (s.arrive (.take pending)).received,
      entry.1 = pending.ticket ∨ entry ∈ s.received := by
    intro entry he
    refine (List.mem_append.mp he).imp_left fun hnew => ?_
    change entry ∈ s.partition.host.router.taken pending.ticket at hnew
    unfold ResponseRouter.taken at hnew
    split at hnew
    · rw [List.mem_singleton.mp hnew]
    · exact absurd hnew List.not_mem_nil
  refine ⟨h.waits, fun entry he => ?_, fun other ho hmem => ?_⟩
  · rcases htaken entry he with hticket | hold
    · exact ⟨pending, h.waits.subset (List.mem_append_left _ hp), hticket.symm⟩
    · exact h.taken entry hold
  · obtain ⟨entry, he, hticket⟩ := List.mem_map.mp hmem
    rcases htaken entry he with hsame | hold
    · -- The flight would wait for a request of the client.
      have hnodup := nodup_tickets h.waits hdistinct
      rw [List.map_append, List.nodup_append] at hnodup
      exact hnodup.2.2 _ (List.mem_map_of_mem hp) _ (List.mem_map_of_mem ho)
        (hsame.symm.trans hticket)
    · exact h.fresh other ho (List.mem_map.mpr ⟨entry, hold, hticket⟩)

/-- A flight is polled. -/
theorem polled (h : SoleTakers held executor s)
    (hdistinct : (s.sent.map PendingResponse.ticket).Nodup)
    {flight polled : Flight} (hflight : executor.flight? id = some flight)
    (hsent : t.sent = s.sent) (hleft : polled.waiting.Sublist flight.waiting)
    (hfresh : ∀ pending ∈ polled.waiting, pending.ticket ∉ t.received.map Prod.fst)
    (hback : ∀ entry ∈ t.received, entry ∈ s.received ∨
      ∃ pending ∈ flight.waiting, pending.ticket = entry.1) :
    SoleTakers held (executor.board id polled) t := by
  have hsplit : (held ++ (flight.waiting ++ (executor.land id).awaited)).Subperm s.sent :=
    ((List.subperm_append_left held).mpr (Executor.awaited_split hflight)).trans h.waits
  refine ⟨?_, fun entry he => ?_, fun pending hp => ?_⟩
  · rw [hsent, Executor.awaited_board]
    exact ((List.Sublist.append_left (hleft.append_right _) held).subperm).trans hsplit
  · rw [hsent]
    rcases hback entry he with hold | ⟨pending, hp, hticket⟩
    · exact h.taken entry hold
    · exact ⟨pending, hsplit.subset (List.mem_append_right _ (List.mem_append_left _ hp)), hticket⟩
  · rw [Executor.awaited_board] at hp
    rcases List.mem_append.mp hp with hown | hother
    · exact hfresh pending hown
    · intro hmem
      obtain ⟨entry, he, hticket⟩ := List.mem_map.mp hmem
      rcases hback entry he with hold | ⟨own, ho, hsame⟩
      · exact h.fresh pending ((executor.awaited_land id).subset hother)
          (List.mem_map.mpr ⟨entry, hold, hticket⟩)
      · -- Two flights would wait for one request.
        have hnodup := nodup_tickets hsplit hdistinct
        rw [List.map_append, List.nodup_append, List.map_append, List.nodup_append] at hnodup
        exact hnodup.2.1.2.2 _ (List.mem_map_of_mem ho) _ (List.mem_map_of_mem hother)
          (hsame.trans hticket)

/-- An operation departs. -/
theorem departed (h : SoleTakers held executor s) {flight : Flight}
    (hsent : t.sent = flight.waiting.reverse ++ s.sent) (hreceived : t.received = s.received)
    (hdistinct : (t.sent.map PendingResponse.ticket).Nodup) :
    SoleTakers held (executor.board id flight) t := by
  refine ⟨?_, fun entry he => ?_, fun pending hp => ?_⟩
  · rw [hsent, Executor.awaited_board]
    refine (List.perm_append_comm_assoc held flight.waiting _).subperm.trans ?_
    refine List.Subperm.append (List.reverse_perm _).symm.subperm ?_
    exact (List.Sublist.append_left (executor.awaited_land id) held).subperm.trans h.waits
  · rw [hreceived] at he
    obtain ⟨pending, hp, hticket⟩ := h.taken entry he
    exact ⟨pending, hsent ▸ List.mem_append_right _ hp, hticket⟩
  · rw [hreceived]
    rw [Executor.awaited_board] at hp
    rcases List.mem_append.mp hp with hnew | hold
    · intro hmem
      obtain ⟨entry, he, hticket⟩ := List.mem_map.mp hmem
      obtain ⟨other, ho, hsame⟩ := h.taken entry he
      rw [hsent, List.map_append, List.nodup_append] at hdistinct
      exact hdistinct.2.2 _ (List.mem_map_of_mem (List.mem_reverse.mpr hnew)) _
        (List.mem_map_of_mem ho) (hticket.symm.trans hsame.symm)
    · exact h.fresh pending ((executor.awaited_land id).subset hold)

/-- An operation lands. -/
theorem landed (h : SoleTakers held executor s) : SoleTakers held (executor.land id) s where
  waits := (List.Sublist.append_left (executor.awaited_land id) held).subperm.trans h.waits
  taken := h.taken
  fresh := fun pending hp => h.fresh pending ((executor.awaited_land id).subset hp)

end SoleTakers

/-! ### Turns -/

/-- A flight follows the requests that a turn has sent. -/
def Turn.Launches (turn : Turn) (streamId : Int) (s : Session) (flight : Flight) : Prop :=
  ∃ requests, List.Forall₂ (Broker.Names streamId) requests turn.appended ∧ requests ⊆ s.sent ∧
    turn.appended ⊆ s.partition.records ∧ flight.Follows s requests

theorem Turn.Launches.grows {turn : Turn} {streamId : Int} {s t : Session} {flight later : Flight}
    (h : turn.Launches streamId s flight) (hgrows : s.Grows t)
    (hlater : ∀ requests, requests ⊆ s.sent → flight.Follows s requests →
      later.Follows t requests) : turn.Launches streamId t later := by
  obtain ⟨requests, hnames, hsent, hlogged, hfollows⟩ := h
  exact ⟨requests, hnames, fun _ hp => hgrows.sent _ (hsent hp),
    fun _ hc => hgrows.records.subset (hlogged hc), hlater requests hsent hfollows⟩

namespace Turn

open Broker

variable {turn : Turn}

/-- What a turn leaves of its operation. -/
inductive Leaves (turn : Turn) : Prop
  /-- It is not at its end, and if it is sent it has a flight. -/
  | goesOn {version : Operation} (hstored : turn.after.stored? turn.id = some version)
      (hlive : version.state.isTerminal = false)
      (hflight : version.state = .sent → turn.after.flight? turn.id ≠ none)
  /-- It is given up. -/
  | givenUp {version : Operation} (hstored : turn.after.stored? turn.id = some version)
      (hstate : version.state = .failed) (hup : turn.GivesUp)
      (hflight : turn.after.flight? turn.id = none)
  /-- It has ended as its flight has. -/
  | settled {operation : Operation} {settlement : Settlement} {flight : Flight}
      (hflight : turn.broker.flight? turn.id = some flight)
      (hend : flight.settlement? = some settlement)
      (hstored : turn.after.stored? turn.id = some (ended operation settlement turn.broker.now))
      (hlanded : turn.after.flight? turn.id = none)
      (hpartition : turn.after.partition = turn.broker.partition)

/-- **Each turn leaves its operation in one of these ways.** -/
theorem leaves (turn : Turn) (hready : turn.broker.Ready turn.task) : turn.Leaves := by
  obtain ⟨b, task⟩ := turn
  have hdoes := Turn.does ⟨b, task⟩
  dsimp only at hdoes hready
  have hstill : ∀ {operation : Operation}, operation.state = .scheduled →
      operation.state.isTerminal = false ∧ operation.state ≠ .sent := by
    intro operation hstate
    rw [hstate]
    exact ⟨rfl, nofun⟩
  cases hdoes with
  | @noted operation flight hflight hkept hwrites =>
      have hflies : (Turn.after ⟨b, .dispatch operation⟩).flight? operation.id ≠ none := by
        rw [flight?_congr (b := b) (by rw [hkept]), hflight]
        exact Option.some_ne_none _
      rcases hwrites.stored? operation.id with hsame | ⟨-, hnew⟩
      · exact .goesOn (hsame.trans hready.1) (hstill hready.2).1 fun _ => hflies
      · exact .goesOn hnew rfl fun _ => hflies
  | @refused operation hflight hnothing hkept hwrites =>
      rcases hwrites.stored? operation.id with hsame | ⟨-, hnew⟩
      · exact .goesOn (hsame.trans hready.1) (hstill hready.2).1 fun hsent =>
          absurd hsent (hstill hready.2).2
      · exact .givenUp hnew rfl ⟨operation, rfl, _, hnew, rfl⟩
          ((flight?_congr (by rw [hkept]) _).trans hflight)
  | @stuck operation hflight hsome hsend =>
      obtain ⟨failure, hsends⟩ := hsend.imp fun _ => Sends.of_eq
      exact .goesOn ((stored?_congr (by rw [hsends.kept]) _).trans hready.1) (hstill hready.2).1
        fun hsent => absurd hsent (hstill hready.2).2
  | @departed operation d sent hflight hsome hsend hkept hwrites =>
      have hflies : (Turn.after ⟨b, .dispatch operation⟩).flight? operation.id ≠ none := by
        rw [hkept]
        refine fun hnone => Option.some_ne_none (launch sent) ?_
        exact ((Executor.flight?_board _ _ _ _).trans (if_pos rfl)).symm.trans hnone
      rcases hwrites.stored? operation.id with hsame | ⟨-, hnew⟩
      · exact .goesOn (hsame.trans hready.1) (hstill hready.2).1 fun _ => hflies
      · exact .goesOn hnew rfl fun _ => hflies
  | @unsettled operation settlement hkept hstore =>
      obtain ⟨hstored, hstate, flight, hflight, -⟩ := hready
      refine .goesOn ((stored?_congr hstore _).trans hstored) (by rw [hstate]; rfl) fun _ => ?_
      show (Turn.after ⟨b, .settle operation settlement⟩).flight? operation.id ≠ none
      rw [flight?_congr (b := b) (by rw [hkept]), hflight]
      exact Option.some_ne_none _
  | @settled operation settlement hkept hupdate =>
      obtain ⟨-, -, flight, hflight, hend⟩ := hready
      refine .settled hflight hend
        ((OperationStore.update_ok hupdate _).1.trans (if_pos (id_ended _ _ _).symm)) ?_
        (by rw [hkept])
      rw [hkept]
      exact (Executor.flight?_land _ _ _).trans (if_pos rfl)

end Turn

/-- What a turn does in a session: responses still have one taker each, and the flight of the
operation, if there is one, is the same or one that the turn has launched. -/
structure Turn.Attended (evaluator : Evaluator) (turn : Turn) (s t : Session) : Prop where
  onward : Broker.Onward evaluator turn.broker s turn.after t
  takers : ∀ held, SoleTakers held turn.broker.executor s → SoleTakers held turn.after.executor t
  batchSize : turn.after.executor.batchSize = turn.broker.executor.batchSize
  flight : ∀ flight, turn.after.flight? turn.id = some flight →
    turn.broker.flight? turn.id = some flight ∨
      turn.appended ≠ [] ∧ turn.Launches turn.broker.executor.streamId t flight

namespace Broker

variable {evaluator : Evaluator} {s t : Session} {turn : Turn}

/-- Requests that are sent make a flight that follows them. -/
theorem Sent.launches {operation : Operation} {d : Broker} {sent : List (Nat × PendingResponse)}
    {failure : Option PartitionError}
    (h : Sent evaluator turn.broker s (turn.broker.requestsOf operation) sent failure d t)
    (hkept : turn.after.partition = d.partition) :
    turn.Launches turn.broker.executor.streamId t (launch sent) := by
  have hcarried := (Turn.commands_of_sends h.toSends hkept).carried
  have hstream : ∀ entry ∈ sent,
      entry.2.correlation.streamId = turn.broker.executor.streamId := fun entry he => by
    obtain ⟨request, -, hasked⟩ := h.asked entry he
    exact hasked.stream
  have hwaits : (launch sent).waiting = sent.map Prod.snd := rfl
  refine ⟨sent.map Prod.snd, ?_, fun pending hp => ?_, fun command hc => ?_, rfl,
    fun _ hp => hp, fun _ hp => .inl hp, fun _ hr => absurd hr List.not_mem_nil⟩
  · rw [List.forall₂_map_left_iff]
    refine ((List.forall₂_and_left _ _).mpr ⟨hstream, hcarried⟩).imp fun entry command hboth => ?_
    obtain ⟨hown, request, -, hcarries⟩ := hboth
    exact ⟨hcarries.command, hcarries.name, hown⟩
  · rw [h.seen]
    exact List.mem_append_left _ (List.mem_reverse.mpr hp)
  · rw [h.onward.backed.same, ← hkept, turn.records_after]
    exact List.mem_append_right _ hc

/-- **A turn in a session.** -/
theorem Backed.attended (h : Backed evaluator turn.broker s) :
    ∃ t, turn.Attended evaluator s t := by
  obtain ⟨b, task⟩ := turn
  have hdoes := Turn.does ⟨b, task⟩
  -- Most turns leave the partition alone.
  have hquiet : ∀ {task : OperationTask} {executor : Executor},
      Turn.after ⟨b, task⟩ = { b with store := (Turn.after ⟨b, task⟩).store, executor } →
      executor.streamId = b.executor.streamId → executor.batchSize = b.executor.batchSize →
      (∀ held, SoleTakers held b.executor s → SoleTakers held executor s) →
      (∀ flight, executor.flight? task.operation.id = some flight →
        b.executor.flight? task.operation.id = some flight) →
      Turn.Attended evaluator ⟨b, task⟩ s s := by
    intro task executor hkept hstream hbatch htakers hflight
    have hexecutor : (Turn.after ⟨b, task⟩).executor = executor := by rw [hkept]
    refine ⟨h.idle (by rw [hkept]) (by rw [hexecutor, hstream]) (by rw [hkept]), ?_, ?_, ?_⟩
    · rw [hexecutor]
      exact htakers
    · rw [hexecutor]
      exact hbatch
    · intro flight hf
      refine .inl (hflight flight ?_)
      rw [← hexecutor]
      exact hf
  cases hdoes with
  | noted flight hflight hkept hwrites =>
      exact ⟨s, hquiet hkept rfl rfl (fun _ ha => ha) fun _ hf => hf⟩
  | refused hflight hnothing hkept hwrites =>
      exact ⟨s, hquiet hkept rfl rfl (fun _ ha => ha) fun _ hf => hf⟩
  | unsettled hkept hstore =>
      exact ⟨s, hquiet hkept rfl rfl (fun _ ha => ha) fun _ hf => hf⟩
  | @settled operation settlement hkept hupdate =>
      refine ⟨s, hquiet hkept rfl rfl (fun _ ha => ha.landed) fun flight hf => ?_⟩
      cases ((Executor.flight?_land _ _ _).trans (if_pos rfl)).symm.trans hf
  | @stuck operation hflight hsome hsend =>
      obtain ⟨failure, hsend⟩ := hsend
      obtain ⟨t, hsent⟩ := Backed.sendAll (b.requestsOf operation) b s h
      rw [hsend] at hsent
      dsimp only at hsent
      have hexecutor : (Turn.after ⟨b, .dispatch operation⟩).executor = b.executor := by
        rw [hsent.kept]
      refine ⟨t, hsent.onward, fun held ha => ?_, congrArg _ hexecutor, fun flight hf => .inl ?_⟩
      · rw [hexecutor]
        exact ha.sent hsent.seen hsent.received
      · rw [← hf]
        exact (flight?_congr hexecutor _).symm
  | @departed operation d sent hflight hsome hsend hkept hwrites =>
      obtain ⟨failure, hsend⟩ := hsend
      obtain ⟨t, hsent⟩ := Backed.sendAll (b.requestsOf operation) b s h
      rw [hsend] at hsent
      dsimp only at hsent
      have hexecutor : d.executor = b.executor := by rw [hsent.kept]
      have hboarded : (Turn.after ⟨b, .dispatch operation⟩).executor =
          b.executor.board operation.id (launch sent) := by
        rw [hkept, ← hexecutor]
      have hpartition : (Turn.after ⟨b, .dispatch operation⟩).partition = d.partition := by
        rw [hkept]
      have hidle : Onward evaluator d t (Turn.after ⟨b, .dispatch operation⟩) t :=
        hsent.onward.backed.idle hpartition (by rw [hboarded, hexecutor]; rfl) (by rw [hkept])
      refine ⟨t, hsent.onward.trans hidle, fun held ha => ?_, by rw [hboarded]; rfl,
        fun flight hf => .inr ⟨fun hnone => ?_, ?_⟩⟩
      · rw [hboarded]
        exact ha.departed hsent.seen hsent.received hsent.onward.backed.sound.distinct
      · have hcommands : Turn.Commands ⟨b, .dispatch operation⟩ operation sent :=
          Turn.commands_of_sends hsent.toSends hpartition
        have hcarried := hcommands.carried
        rw [hnone] at hcarried
        exact hsome (List.forall₂_nil_right_iff.mp hcarried)
      · have hboards : (Turn.after ⟨b, .dispatch operation⟩).flight? operation.id =
            some (launch sent) := by
          unfold flight?
          rw [hboarded]
          exact (Executor.flight?_board _ _ _ _).trans (if_pos rfl)
        cases hboards.symm.trans hf
        exact Sent.launches hsent hpartition

end Broker

end Workflow
