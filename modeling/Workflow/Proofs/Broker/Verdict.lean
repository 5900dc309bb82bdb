/-
What the responses of a flight tell about its commands.

A response is in short what follows from its command in the log: events, or one rejection with the
same reason (`Processor.followUps_of_response`).  A flight holds the response to each of its
requests that does not wait any more, and no other ones (`Flight.Follows`).  So what a flight makes
of its responses is what the log says about the commands (`Backed.justifies`).

Responses can be taken once only, so this needs that nobody else takes them.
-/
import Workflow.Proofs.Broker.Flight
import Workflow.Proofs.Engine.Contract

namespace Workflow

/-! ### Responses and what follows in the log -/

/-- A command that is to update retries has led to events if its response is no rejection, and to
nothing but a rejection of the same reason otherwise. -/
theorem Processor.followUps_of_response {processor : Processor} {command : Record}
    {response : Response} (hbuiltin : processor.registry = .builtin)
    (hcommand : command.isCommand) (hintent : command.intent = .job .updateRetries)
    (hresponse : (processor.apply command).1.response = some response) :
    let followUps := (processor.apply command).1.followUps
    (response.isRejection = false → followUps ≠ [] ∧ ∀ draft ∈ followUps, draft.kind = .event) ∧
    (response.isRejection = true → ∃ draft, followUps = [draft] ∧ draft.kind = .rejection ∧
      draft.rejectionReason = response.rejectionReason) := by
  rw [apply_command hbuiltin hcommand] at hresponse ⊢
  dsimp only at hresponse ⊢
  obtain ⟨correlation, -, rfl⟩ := Option.map_eq_some_iff.mp hresponse
  cases hdecision : decision processor.evaluator processor.state command with
  | reject type reason => exact ⟨nofun, fun _ => ⟨_, rfl, rfl, rfl⟩⟩
  | accept final answer others =>
      refine ⟨fun _ => ⟨List.cons_ne_nil _ _, fun draft hd => ?_⟩, nofun⟩
      obtain ⟨event, -, rfl⟩ := List.mem_map.mp hd
      rfl
  | confirm key intent =>
      obtain ⟨-, hcancel, -⟩ := of_decision_confirm hdecision
      cases hintent.symm.trans hcancel

namespace Partition

variable {evaluator : Evaluator} {p q : Partition} {operation : Operation} {commands : List Record}

/-- The log bears out how an operation has ended. -/
structure Bears (p : Partition) (operation : Operation) (commands : List Record) : Prop where
  /-- None of its commands is still to be processed. -/
  processed : ∀ command ∈ commands, command ∈ p.applied
  /-- When it is completed, each of them has led to an event, and none to a rejection. -/
  completed : operation.state = .completed → ∀ command ∈ commands,
    (∃ event ∈ p.records, event.sourcePosition = some command.position ∧ event.kind = .event) ∧
      ∀ record ∈ p.records, record.sourcePosition = some command.position →
        record.kind ≠ .rejection
  /-- When it has failed, one of them was rejected, for the reason that the operation holds. -/
  failed : operation.state = .failed → ∃ command ∈ commands, ∃ rejection ∈ p.records,
    rejection.sourcePosition = some command.position ∧ rejection.kind = .rejection ∧
      operation.errorMessage = some rejection.rejectionReason

/-- The responses to its commands justify how an operation has ended. -/
structure Justifies (evaluator : Evaluator) (p : Partition) (operation : Operation)
    (commands : List Record) : Prop where
  answered : ∀ command ∈ commands, ∃ response, p.Answers evaluator command response ∧
    (operation.state = .completed → response.isRejection = false)
  rejected : operation.state = .failed → ∃ command ∈ commands, ∃ response,
    p.Answers evaluator command response ∧ response.isRejection = true ∧
      operation.errorMessage = some response.rejectionReason

/-- They still do when the log has grown. -/
theorem Justifies.grow (h : p.Justifies evaluator operation commands) (hp : Sourced evaluator p)
    (hq : Sourced evaluator q) (hid : q.config.partitionId = p.config.partitionId)
    (hfront : p.records <+: q.records) : q.Justifies evaluator operation commands := by
  obtain ⟨hanswered, hrejected⟩ := h
  refine ⟨fun command hc => ?_, fun hfailed => ?_⟩
  · obtain ⟨response, hanswers, hcompleted⟩ := hanswered command hc
    exact ⟨response, hanswers.grow hp hq hid hfront, hcompleted⟩
  · obtain ⟨command, hc, response, hanswers, hrejection, hreason⟩ := hrejected hfailed
    exact ⟨command, hc, response, hanswers.grow hp hq hid hfront, hrejection, hreason⟩

/-- **What responses justify the log bears out.** -/
theorem Justifies.bears (h : p.Justifies evaluator operation commands)
    (hp : Sourced evaluator p)
    (hintent : ∀ command ∈ commands, command.intent = .job .updateRetries) :
    p.Bears operation commands := by
  -- What follows from a command in the log is what its response is about.
  have hfollows : ∀ command ∈ commands, ∀ response, p.Answers evaluator command response →
      let followUps := Recovery.followUpsOf p.records command.position
      (response.isRejection = false →
        followUps ≠ [] ∧ ∀ draft ∈ followUps, draft.kind = .event) ∧
      (response.isRejection = true → ∃ draft, followUps = [draft] ∧ draft.kind = .rejection ∧
        draft.rejectionReason = response.rejectionReason) := by
    intro command hc response hanswers
    rw [hanswers.followUps]
    exact Processor.followUps_of_response (Processor.after_registry _ _) hanswers.kind
      (hintent command hc) hanswers.response
  have hlogged : ∀ {position : Nat} {draft : Draft},
      draft ∈ Recovery.followUpsOf p.records position →
        ∃ record ∈ p.records, record.sourcePosition = some position ∧ record.toDraft = draft := by
    intro position draft hd
    obtain ⟨record, hr, rfl⟩ := List.mem_map.mp hd
    obtain ⟨hmem, hsource⟩ := List.mem_filter.mp hr
    exact ⟨record, hmem, by simpa using hsource, rfl⟩
  refine ⟨fun command hc => ?_, fun hcompleted command hc => ?_, fun hfailed => ?_⟩
  · obtain ⟨response, hanswers, -⟩ := h.answered command hc
    obtain ⟨haccepted, hrejected⟩ := hfollows command hc response hanswers
    have hsome : Recovery.followUpsOf p.records command.position ≠ [] := by
      cases hrejection : response.isRejection with
      | false => exact (haccepted hrejection).1
      | true =>
          obtain ⟨draft, heq, -⟩ := hrejected hrejection
          rw [heq]
          exact List.cons_ne_nil _ _
    refine mem_applied_iff.mpr ⟨hanswers.mem, hanswers.kind, ?_⟩
    by_contra hnot
    have hleft : command ∈ p.unapplied :=
      mem_unapplied_iff.mpr ⟨hanswers.mem, hanswers.kind, Bool.eq_false_iff.mpr hnot⟩
    exact hsome (hp.followUpsOf_unapplied (lt_of_mem_unapplied hp.numbered hleft))
  · obtain ⟨response, hanswers, hresponse⟩ := h.answered command hc
    obtain ⟨hsome, hevents⟩ := (hfollows command hc response hanswers).1 (hresponse hcompleted)
    refine ⟨?_, fun record hr hsource hrejection => ?_⟩
    · obtain ⟨draft, hd⟩ := List.exists_mem_of_ne_nil _ hsome
      obtain ⟨event, he, hsource, rfl⟩ := hlogged hd
      exact ⟨event, he, hsource, hevents _ hd⟩
    · have hmem : record.toDraft ∈ Recovery.followUpsOf p.records command.position :=
        List.mem_map_of_mem (List.mem_filter.mpr ⟨hr, by simpa using hsource⟩)
      cases (hevents _ hmem).symm.trans hrejection
  · obtain ⟨command, hc, response, hanswers, hresponse, hreason⟩ := h.rejected hfailed
    obtain ⟨draft, heq, hkind, hsame⟩ := (hfollows command hc response hanswers).2 hresponse
    obtain ⟨rejection, hr, hsource, rfl⟩ := hlogged (heq ▸ List.mem_cons_self)
    exact ⟨command, hc, rejection, hr, hsource, hkind, hreason.trans (congrArg some hsame.symm)⟩

end Partition

/-! ### Taking responses -/

namespace ResponseRouter

variable {router : ResponseRouter} {ticket : Nat}

/-- A request of the ticket waits, or its response has come. -/
def Holds (router : ResponseRouter) (ticket : Nat) : Prop :=
  (∃ name, (name, ticket) ∈ router.waiting) ∨ ∃ response, (ticket, response) ∈ router.delivered

/-- Who looks for a response that is held is not told that it was dropped. -/
theorem Holds.take_cases (h : router.Holds ticket) :
    (router.take ticket = (.waiting, router) ∧ ∃ name, (name, ticket) ∈ router.waiting) ∨
    ∃ response, router.take ticket = (.response response, { router with
      delivered := router.delivered.filter fun entry => entry.1 != ticket }) := by
  unfold take
  cases hlookup : router.delivered.lookup ticket with
  | some response => exact .inr ⟨response, rfl⟩
  | none =>
      have hwaits : ∃ name, (name, ticket) ∈ router.waiting := by
        refine h.resolve_right fun ⟨response, hmem⟩ => ?_
        have hother := List.lookup_eq_none_iff.mp hlookup _ hmem
        simp at hother
      refine .inl ⟨?_, hwaits⟩
      obtain ⟨name, hmem⟩ := hwaits
      have hany : (router.waiting.any fun entry => entry.2 == ticket) = true :=
        List.any_eq_true.mpr ⟨_, hmem, beq_self_eq_true _⟩
      dsimp only
      rw [if_pos hany]

/-- Taking a response leaves the other ones. -/
theorem Holds.take (h : router.Holds ticket) {other : Nat} (hother : ticket ≠ other) :
    (router.take other).2.Holds ticket := by
  unfold ResponseRouter.take
  cases router.delivered.lookup other with
  | none => exact h
  | some response =>
      refine h.imp id fun ⟨came, hmem⟩ => ⟨came, List.mem_filter.mpr ⟨hmem, ?_⟩⟩
      exact bne_iff_ne.mpr hother

end ResponseRouter

namespace Flight

variable {s t : Session} {requests : List PendingResponse} {flight : Flight}

/-- What taking responses for requests has led to: requests that wait on are left, and the responses
to the other ones came. -/
structure Takes (s t : Session) (requests left : List PendingResponse) (came : List Response) :
    Prop where
  fewer : left.Sublist requests
  /-- A request that is left waits in the router, and its response was not taken. -/
  waits : ∀ pending ∈ left, (∃ name, (name, pending.ticket) ∈ s.partition.host.router.waiting) ∧
    pending.ticket ∉ t.received.map Prod.fst
  /-- Each other one has its response. -/
  each : ∀ pending ∈ requests, pending ∈ left ∨
    ∃ response ∈ came, (pending.ticket, response) ∈ t.received
  /-- There are no other responses. -/
  only : ∀ response ∈ came, ∃ pending ∈ requests, (pending.ticket, response) ∈ t.received
  /-- What was taken is a response to one of them, or was taken before. -/
  back : ∀ entry ∈ t.received, entry ∈ s.received ∨
    ∃ pending ∈ requests, pending.ticket = entry.1
  kept : ∀ entry ∈ s.received, entry ∈ t.received

namespace Takes

variable {left : List PendingResponse} {came : List Response} {pending : PendingResponse}
  {mid : Session}

theorem nil (s : Session) : Takes s s [] [] [] where
  fewer := .slnil
  waits := fun _ hp => absurd hp List.not_mem_nil
  each := fun _ hp => absurd hp List.not_mem_nil
  only := fun _ hr => absurd hr List.not_mem_nil
  back := fun _ => .inl
  kept := fun _ he => he

/-- The first request waits on. -/
theorem waited (h : Takes mid t requests left came)
    (hrouter : mid.partition.host.router = s.partition.host.router)
    (hreceived : mid.received = s.received)
    (hwaits : ∃ name, (name, pending.ticket) ∈ s.partition.host.router.waiting)
    (hfresh : pending.ticket ∉ s.received.map Prod.fst)
    (hother : ∀ other ∈ requests, other.ticket ≠ pending.ticket) :
    Takes s t (pending :: requests) (pending :: left) came := by
  obtain ⟨hleft, hwaits', heach, honly, hback, hkept⟩ := h
  rw [hrouter] at hwaits'
  rw [hreceived] at hback hkept
  refine ⟨hleft.cons_cons _, List.forall_mem_cons.mpr ⟨⟨hwaits, fun hmem => ?_⟩, hwaits'⟩,
    ?_, fun response hr => ?_, fun entry he => ?_, hkept⟩
  · obtain ⟨entry, he, hticket⟩ := List.mem_map.mp hmem
    rcases hback entry he with hold | ⟨other, ho, hsame⟩
    · exact hfresh (List.mem_map.mpr ⟨entry, hold, hticket⟩)
    · exact hother other ho (hsame.trans hticket)
  · exact List.forall_mem_cons.mpr ⟨.inl List.mem_cons_self, fun other ho =>
      (heach other ho).imp_left (List.mem_cons_of_mem _)⟩
  · exact (honly response hr).imp fun _ => And.imp_left (List.mem_cons_of_mem _)
  · exact (hback entry he).imp_right (Exists.imp fun _ => And.imp_left (List.mem_cons_of_mem _))

/-- The response to the first request came. -/
theorem answered {response : Response} (h : Takes mid t requests left came)
    (hrouter : mid.partition.host.router.waiting = s.partition.host.router.waiting)
    (hreceived : mid.received = (pending.ticket, response) :: s.received) :
    Takes s t (pending :: requests) left (response :: came) := by
  obtain ⟨hleft, hwaits, heach, honly, hback, hkept⟩ := h
  rw [hrouter] at hwaits
  rw [hreceived] at hback hkept
  have hcame : (pending.ticket, response) ∈ t.received := hkept _ List.mem_cons_self
  refine ⟨hleft.cons _, hwaits, ?_, ?_, fun entry he => ?_, fun entry he =>
    hkept entry (List.mem_cons_of_mem _ he)⟩
  · exact List.forall_mem_cons.mpr ⟨.inr ⟨response, List.mem_cons_self, hcame⟩, fun other ho =>
      (heach other ho).imp_right (Exists.imp fun _ => And.imp_left (List.mem_cons_of_mem _))⟩
  · exact List.forall_mem_cons.mpr ⟨⟨pending, List.mem_cons_self, hcame⟩, fun answer ha =>
      (honly answer ha).imp fun _ => And.imp_left (List.mem_cons_of_mem _)⟩
  · rcases hback entry he with hold | ⟨other, ho, hsame⟩
    · rcases List.mem_cons.mp hold with rfl | hold
      · exact .inr ⟨pending, List.mem_cons_self, rfl⟩
      · exact .inl hold
    · exact .inr ⟨other, List.mem_cons_of_mem _ ho, hsame⟩

end Takes

/-- **Responses are taken for requests that are held**, one of each ticket.  A request waits on, and
then its ticket waits in the router, or its response comes to the flight. -/
theorem collect_takes (requests : List PendingResponse) :
    ∀ (flight : Flight) (s : Session), (requests.map PendingResponse.ticket).Nodup →
      (∀ pending ∈ requests, s.partition.host.router.Holds pending.ticket ∧
        pending.ticket ∉ s.received.map Prod.fst) →
      ∃ left came, (collect requests flight s.partition.host.router).1 =
          { flight with
            waiting := flight.waiting ++ left, responses := flight.responses ++ came } ∧
        Takes s ((requests.map Arrival.take).foldl Session.arrive s) requests left came := by
  induction requests with
  | nil =>
      intro flight s _ _
      refine ⟨[], [], ?_, .nil s⟩
      rw [List.append_nil, List.append_nil]
      rfl
  | cons pending rest ih =>
      intro flight s hnodup hheld
      rw [List.map_cons, List.nodup_cons] at hnodup
      obtain ⟨hnew, hnodup'⟩ := hnodup
      obtain ⟨⟨hholds, hfresh⟩, hheld'⟩ := List.forall_mem_cons.mp hheld
      have hother : ∀ other ∈ rest, other.ticket ≠ pending.ticket := fun other ho heq =>
        hnew (List.mem_map.mpr ⟨other, ho, heq⟩)
      have hrouter : (s.arrive (.take pending)).partition.host.router =
          (s.partition.host.router.take pending.ticket).2 := rfl
      have hreceived : (s.arrive (.take pending)).received =
          s.partition.host.router.taken pending.ticket ++ s.received := rfl
      unfold ResponseRouter.taken at hreceived
      have hstill : ∀ other ∈ rest,
          (s.arrive (.take pending)).partition.host.router.Holds other.ticket := fun other ho => by
        rw [hrouter]
        exact (hheld' other ho).1.take (hother other ho)
      rcases hholds.take_cases with ⟨htake, hwaits⟩ | ⟨response, htake⟩ <;>
        rw [htake] at hrouter hreceived <;> dsimp only at hrouter hreceived
      · obtain ⟨left, came, hcollect, htakes⟩ :=
          ih { flight with waiting := flight.waiting ++ [pending] } (s.arrive (.take pending))
            hnodup' fun other ho => ⟨hstill other ho, by
              rw [hreceived]
              exact (hheld' other ho).2⟩
        refine ⟨pending :: left, came, ?_, htakes.waited hrouter hreceived hwaits hfresh hother⟩
        rw [hrouter] at hcollect
        unfold collect
        rw [htake]
        dsimp only
        rw [hcollect, List.append_assoc]
        rfl
      · obtain ⟨left, came, hcollect, htakes⟩ :=
          ih { flight with responses := flight.responses ++ [response] }
            (s.arrive (.take pending)) hnodup' fun other ho => ⟨hstill other ho, by
              rw [hreceived, List.cons_append, List.map_cons, List.mem_cons, not_or]
              exact ⟨hother other ho, (hheld' other ho).2⟩⟩
        refine ⟨left, response :: came, ?_, htakes.answered (by rw [hrouter]) hreceived⟩
        rw [hrouter] at hcollect
        unfold collect
        rw [htake]
        dsimp only
        rw [hcollect, List.append_assoc]
        rfl

/-- What has become of the requests of a flight. -/
structure Follows (s : Session) (requests : List PendingResponse) (flight : Flight) : Prop where
  /-- No response is lost. -/
  safe : flight.lost = false
  /-- Those that wait are requests of the flight. -/
  waits : flight.waiting ⊆ requests
  /-- Each other one has its response. -/
  each : ∀ pending ∈ requests, pending ∈ flight.waiting ∨
    ∃ response ∈ flight.responses, (pending.ticket, response) ∈ s.received
  /-- There are no other responses. -/
  only : ∀ response ∈ flight.responses, ∃ pending ∈ requests,
    (pending.ticket, response) ∈ s.received

theorem Follows.grows (h : Follows s requests flight) (hgrows : s.Grows t) :
    Follows t requests flight where
  safe := h.safe
  waits := h.waits
  each := fun pending hp => (h.each pending hp).imp_right fun ⟨response, hr, htaken⟩ =>
    ⟨response, hr, hgrows.received _ htaken⟩
  only := fun response hr =>
    (h.only response hr).imp fun _ hp => ⟨hp.1, hgrows.received _ hp.2⟩

/-- What is known once it is known how a flight ends. -/
theorem Follows.settlement_cases (h : Follows s requests flight) {settlement : Settlement}
    (hend : flight.settlement? = some settlement) :
    (∀ pending ∈ requests, ∃ response ∈ flight.responses,
      (pending.ticket, response) ∈ s.received) ∧
    ((settlement = .completed ∧ ∀ response ∈ flight.responses, response.isRejection = false) ∨
      ∃ rejection ∈ flight.responses, rejection.isRejection = true ∧
        settlement = .failed rejection.rejectionReason) := by
  unfold settlement? at hend
  rw [h.safe, if_neg Bool.false_ne_true] at hend
  split at hend
  · cases hend
  · rename_i hwaiting
    have hnone : flight.waiting = [] := by simpa using hwaiting
    refine ⟨fun pending hp => (h.each pending hp).resolve_left fun hwaits => ?_, ?_⟩
    · rw [hnone] at hwaits
      exact absurd hwaits List.not_mem_nil
    · cases hfind : flight.responses.find? Response.isRejection with
      | none =>
          rw [hfind] at hend
          cases hend
          refine .inl ⟨rfl, fun response hr => ?_⟩
          simpa using List.find?_eq_none.mp hfind response hr
      | some rejection =>
          rw [hfind] at hend
          cases hend
          exact .inr ⟨rejection, List.mem_of_find?_eq_some hfind, List.find?_some hfind, rfl⟩

/-- When nothing waits it is known how the flight ends. -/
theorem exists_settlement (h : flight.waiting = []) :
    ∃ settlement, flight.settlement? = some settlement := by
  unfold settlement?
  split
  · exact ⟨_, rfl⟩
  · rw [h]
    cases flight.responses.find? Response.isRejection <;> exact ⟨_, rfl⟩

/-- **A flight is polled.**  Its requests that wait are held, and they still wait in the router. -/
theorem Follows.poll (h : Follows s requests flight)
    (hnodup : (flight.waiting.map PendingResponse.ticket).Nodup)
    (hheld : ∀ pending ∈ flight.waiting, s.partition.host.router.Holds pending.ticket ∧
      pending.ticket ∉ s.received.map Prod.fst) :
    let t := (flight.waiting.map Arrival.take).foldl Session.arrive s
    let polled := (flight.poll s.partition.host.router).1
    Follows t requests polled ∧ polled.waiting.Sublist flight.waiting ∧
      (∀ pending ∈ polled.waiting,
        (∃ name, (name, pending.ticket) ∈ s.partition.host.router.waiting) ∧
          pending.ticket ∉ t.received.map Prod.fst) ∧
      ∀ entry ∈ t.received, entry ∈ s.received ∨
        ∃ pending ∈ flight.waiting, pending.ticket = entry.1 := by
  intro t polled
  obtain ⟨left, came, hcollect, hleft, hwaits, heach, honly, hback, hkept⟩ :=
    collect_takes flight.waiting { flight with waiting := [] } s hnodup hheld
  have hpolled : polled = { flight with
      waiting := left, responses := flight.responses ++ came } := hcollect
  rw [hpolled]
  refine ⟨⟨h.safe, fun pending hp => h.waits (hleft.subset hp), fun pending hp => ?_,
    fun response hr => ?_⟩, hleft, hwaits, hback⟩
  · rcases h.each pending hp with hwaited | ⟨response, hr, htaken⟩
    · exact (heach pending hwaited).imp_right fun ⟨response, hr, htaken⟩ =>
        ⟨response, List.mem_append_right _ hr, htaken⟩
    · exact .inr ⟨response, List.mem_append_left _ hr, hkept _ htaken⟩
  · rcases List.mem_append.mp hr with hold | hnew
    · obtain ⟨pending, hp, htaken⟩ := h.only response hold
      exact ⟨pending, hp, hkept _ htaken⟩
    · obtain ⟨pending, hp, htaken⟩ := honly response hnew
      exact ⟨pending, h.waits hp, htaken⟩

end Flight

/-! ### The end of a flight -/

namespace Broker

variable {evaluator : Evaluator} {b : Broker} {s : Session}

/-- A request of a stream has its own command. -/
structure Names (streamId : Int) (pending : PendingResponse) (command : Record) : Prop where
  kind : command.isCommand = true
  name : command.correlation = some pending.correlation
  stream : pending.correlation.streamId = streamId

namespace Backed

/-- A request that was sent and whose response was not taken is held. -/
theorem holds (h : Backed evaluator b s) {pending : PendingResponse} (hsent : pending ∈ s.sent)
    (hfresh : pending.ticket ∉ s.received.map Prod.fst) :
    s.partition.host.router.Holds pending.ticket := by
  rcases List.mem_append.mp (h.sound.kept pending hsent) with hwaits | hcame
  · obtain ⟨entry, he, hticket⟩ := List.mem_map.mp hwaits
    exact .inl ⟨entry.1, hticket ▸ he⟩
  · obtain ⟨entry, he, hticket⟩ := List.mem_map.mp hcame
    rcases List.mem_append.mp he with hdelivered | hreceived
    · exact .inr ⟨entry.2, hticket ▸ hdelivered⟩
    · exact absurd (List.mem_map.mpr ⟨entry, hreceived, hticket⟩) hfresh

/-- The response that was taken for a request answers its command. -/
theorem answers (h : Backed evaluator b s) {pending : PendingResponse} {command : Record}
    {response : Response} (hsent : pending ∈ s.sent)
    (hnames : Names b.executor.streamId pending command) (hlogged : command ∈ b.partition.records)
    (htaken : (pending.ticket, response) ∈ s.received) :
    b.partition.Answers evaluator command response := by
  obtain ⟨answered, hname, hanswers⟩ :=
    h.sound.answered pending hsent response (List.mem_append_right _ htaken)
  rw [h.same] at hanswers
  -- The name belongs to one command.
  cases h.named.once command hlogged answered hanswers.mem hnames.kind hanswers.kind _ hnames.name
    hname hnames.stream
  exact hanswers

/-- **How a flight ends is justified by the responses to its commands.** -/
theorem justifies (h : Backed evaluator b s) {requests : List PendingResponse}
    {commands : List Record} {flight : Flight} {settlement : Settlement}
    (hnames : List.Forall₂ (Names b.executor.streamId) requests commands)
    (hsent : requests ⊆ s.sent) (hlogged : commands ⊆ b.partition.records)
    (hfollows : flight.Follows s requests) (hend : flight.settlement? = some settlement)
    (operation : Operation) (now : Instant) :
    b.partition.Justifies evaluator (ended operation settlement now) commands := by
  obtain ⟨hall, hcases⟩ := hfollows.settlement_cases hend
  have hcommand : ∀ {command}, command ∈ commands →
      ∃ pending ∈ requests, Names b.executor.streamId pending command :=
    fun hc => exists_of_mem_right hnames hc
  refine ⟨fun command hc => ?_, fun hfailed => ?_⟩
  · obtain ⟨pending, hp, hname⟩ := hcommand hc
    obtain ⟨response, hr, htaken⟩ := hall pending hp
    refine ⟨response, h.answers (hsent hp) hname (hlogged hc) htaken, fun hcompleted => ?_⟩
    rcases hcases with ⟨-, hnone⟩ | ⟨rejection, -, -, rfl⟩
    · exact hnone response hr
    · cases hcompleted
  · rcases hcases with ⟨rfl, -⟩ | ⟨rejection, hr, hrejection, rfl⟩
    · cases hfailed
    · obtain ⟨pending, hp, htaken⟩ := hfollows.only rejection hr
      obtain ⟨command, hc, hname⟩ := exists_of_mem_left hnames hp
      exact ⟨command, hc, rejection, h.answers (hsent hp) hname (hlogged hc) htaken, hrejection,
        rfl⟩

end Backed

end Broker

end Workflow
