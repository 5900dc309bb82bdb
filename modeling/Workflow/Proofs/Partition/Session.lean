/-
No response is lost, and none comes twice.

A session is a partition from one opening to the next, with what its clients have seen: the requests
that were sent with success, and the responses that were taken.  Clients change nothing by looking,
so the partition of a session is the one of the plain run (`Session.runAll_partition`).

A request may have any name.  While it waits no other request of its name does, which is all that
delivering a response by name needs.  The invariant (`Session.Sound`) joins the two accounts that
are kept elsewhere, where the tickets are and which command is owed for every request that waits;
one step of a session is one move, and each of three kinds of steps keeps it.

The main result (`answered_once`) holds at the end of every run, and so after every part of it.
-/
import Workflow.Proofs.Partition.Debt
import Workflow.Proofs.Partition.Rest
import Workflow.Proofs.Partition.Tickets

namespace Workflow

/-! ### What clients see -/

/-- The request that is sent with success by an arrival, if there is one. -/
def Arrival.sent (p : Partition) : Arrival → List PendingResponse
  | .submit request correlation =>
      match (p.submit request correlation).1 with
      | .ok pending => [pending]
      | .error _ => []
  | _ => []

/-- The response that is taken by an arrival, if there is one, with its ticket. -/
def Arrival.received (p : Partition) : Arrival → List (Nat × Response)
  | .take pending => p.host.router.taken pending.ticket
  | _ => []

/-- A partition, with what clients have seen since it was opened. -/
structure Session where
  partition : Partition
  /-- The requests that were sent with success. -/
  sent : List PendingResponse := []
  /-- The responses that were taken, with their tickets. -/
  received : List (Nat × Response) := []

namespace Session

variable {evaluator : Evaluator} {s t : Session}

/-- The session after an arrival. -/
def arrive (s : Session) (arrival : Arrival) : Session where
  partition := arrival.run s.partition
  sent := arrival.sent s.partition ++ s.sent
  received := arrival.received s.partition ++ s.received

/-- The session after a round of any size, with arrivals between its reading and its applying. -/
def runBatch (s : Session) (max : Nat) (arrivals : List Arrival) : Session :=
  match s.partition.prepareRound max with
  | (.error _, p) => { s with partition := p }
  | (.ok commands, p) =>
      let s := arrivals.foldl arrive { s with partition := p }
      { s with partition := (s.partition.processCommands commands).2 }

/-- The session after an action.  When the partition is opened again a new one begins. -/
def run (evaluator : Evaluator) (s : Session) : PartitionAction → Session
  | .arrive arrival => s.arrive arrival
  | .runBatch max arrivals => s.runBatch max arrivals
  | .reopen limit => { partition := (PartitionAction.reopen limit).run evaluator s.partition }
  | action => { s with partition := action.run evaluator s.partition }

/-- The session after all actions. -/
def runAll (evaluator : Evaluator) (s : Session) (actions : List PartitionAction) : Session :=
  actions.foldl (run evaluator) s

/-- The responses that have come for a ticket, whether they were taken or not. -/
def responses (s : Session) (ticket : Nat) : List Response :=
  ((s.partition.host.router.answers s.received).filter fun entry => entry.1 == ticket).map Prod.snd

theorem arrivals_partition (arrivals : List Arrival) :
    ∀ s : Session, (arrivals.foldl arrive s).partition =
      arrivals.foldl Arrival.run s.partition := by
  induction arrivals with
  | nil => intro s; rfl
  | cons arrival rest ih => intro s; exact ih (s.arrive arrival)

theorem run_partition (s : Session) (action : PartitionAction) :
    (s.run evaluator action).partition = action.run evaluator s.partition := by
  cases action with
  | runBatch max arrivals =>
      show (s.runBatch max arrivals).partition = (s.partition.runBatch max arrivals).2
      unfold runBatch Partition.runBatch
      rcases s.partition.prepareRound max with ⟨e | commands, p⟩
      · rfl
      · exact congrArg (fun p => (p.processCommands commands).2) (arrivals_partition arrivals _)
  | _ => rfl

/-- **Clients change nothing by looking.** -/
theorem runAll_partition (actions : List PartitionAction) :
    ∀ s : Session, (s.runAll evaluator actions).partition =
      PartitionAction.runAll evaluator s.partition actions := by
  induction actions with
  | nil => intro s; rfl
  | cons action rest ih =>
      intro s
      show ((s.run evaluator action).runAll evaluator rest).partition =
        PartitionAction.runAll evaluator (action.run evaluator s.partition) rest
      rw [ih, run_partition]

/-! ### Steps -/

/-- A step of a session is a move of its partition: something arrives, nothing from outside has a
part in it, or the partition is opened again. -/
inductive Step (evaluator : Evaluator) : Session → Session → Prop
  | arrive {s : Session} (arrival : Arrival) : Step evaluator s (s.arrive arrival)
  | steady {s : Session} {q : Partition} (hmove : Partition.SteadyMove evaluator s.partition q) :
      Step evaluator s { s with partition := q }
  | reopen {s : Session} {q : Partition} (config : PartitionConfig)
      (hsame : config.partitionId = s.partition.config.partitionId)
      (hopen : Partition.open s.partition.close .builtin evaluator config = .ok q) :
      Step evaluator s { partition := q }

/-- Any number of steps. -/
abbrev Steps (evaluator : Evaluator) : Session → Session → Prop :=
  Relation.ReflTransGen (Step evaluator)

theorem Step.move (hstep : Step evaluator s t) :
    Partition.Move evaluator s.partition t.partition := by
  cases hstep with
  | arrive arrival => exact arrival.move
  | steady hmove => exact hmove.move
  | reopen config hsame hopen => exact .reopen config hsame hopen

theorem Steps.of_steady {q : Partition}
    (hmoves : Partition.SteadyMoves evaluator s.partition q) :
    Steps evaluator s { s with partition := q } := by
  induction hmoves with
  | refl => exact .refl
  | tail _ hmove ih => exact ih.tail (.steady hmove)

theorem Steps.of_arrivals (arrivals : List Arrival) :
    ∀ s : Session, Steps evaluator s (arrivals.foldl Session.arrive s) := by
  induction arrivals with
  | nil => intro s; exact .refl
  | cons arrival rest ih => intro s; exact (ih (s.arrive arrival)).head (.arrive arrival)

theorem Steps.of_action (h : s.partition.Sourced evaluator)
    (hid : s.partition.config.partitionId ≤ maxPartitionId) (action : PartitionAction) :
    Steps evaluator s (s.run evaluator action) := by
  cases action with
  | arrive arrival => exact .single (.arrive arrival)
  | prepareRound max =>
      obtain ⟨result, q, heq, hmoves, -⟩ := Partition.prepareRound_steady h hid max
      show Steps evaluator s { s with partition := (s.partition.prepareRound max).2 }
      rw [heq]
      exact .of_steady hmoves
  | processRound => exact .of_steady (Partition.processRound_steady h hid).1
  | processUntilIdle rounds => exact .of_steady (Partition.processUntilIdle_steady rounds _ h hid).1
  | recover => exact .of_steady (.single (.of_kept .recover s.partition.recover_kept))
  | reopen limit =>
      let config : PartitionConfig := ⟨s.partition.config.partitionId, limit⟩
      obtain ⟨calls, hopen⟩ := h.open_eq hid (rfl : config.partitionId = _)
      simp only [run, PartitionAction.run, config, hopen]
      exact .single (.reopen config rfl hopen)
  | runBatch max arrivals =>
      obtain ⟨q, hmoves, ⟨e, hprepare, -⟩ | ⟨commands, hprepare, hround, happly, -⟩⟩ :=
        Partition.runBatch_parts h hid max arrivals
      · simp only [run, runBatch, hprepare]
        exact .of_steady hmoves
      · simp only [run, runBatch, hprepare]
        have hmid : Steps evaluator s (arrivals.foldl Session.arrive { s with partition := q }) :=
          (Steps.of_steady hmoves).trans (Steps.of_arrivals arrivals _)
        refine hmid.trans (Steps.of_steady ?_)
        rw [arrivals_partition]
        rw [hround] at happly
        exact happly

/-! ### The invariant -/

/-- No response is lost, and none comes twice. -/
structure Sound (evaluator : Evaluator) (s : Session) : Prop where
  /-- Every ticket is in one place. -/
  accounted : s.partition.host.router.Accounted s.received
  /-- Every request that waits has a command that is still to be applied. -/
  owes : s.partition.Owes
  /-- Requests have different tickets. -/
  distinct : (s.sent.map PendingResponse.ticket).Nodup
  /-- No ticket is lost. -/
  kept : ∀ pending ∈ s.sent, pending.ticket ∈ s.partition.host.router.tickets s.received
  /-- A request waits under its own name. -/
  named : ∀ pending ∈ s.sent, ∀ name,
    (name, pending.ticket) ∈ s.partition.host.router.waiting → name = pending.correlation
  /-- Its response answers a command of that name. -/
  answered : ∀ pending ∈ s.sent, ∀ response,
    (pending.ticket, response) ∈ s.partition.host.router.answers s.received →
      ∃ command, command.correlation = some pending.correlation ∧
        s.partition.Answers evaluator command response

section Step

variable (hs : Sound evaluator s) (hp : s.partition.Sourced evaluator)
  (hid : s.partition.config.partitionId ≤ maxPartitionId)

include hs hp hid

/-- A step that sends nothing keeps the invariant if it keeps the accounts, lets nobody wait who did
not, and brings responses only to who waits for them. -/
theorem Sound.keep (hstep : Step evaluator s t) (hsent : t.sent = s.sent)
    (haccounted : t.partition.host.router.Accounted t.received)
    (hkept : ∀ ticket ∈ s.partition.host.router.tickets s.received,
      ticket ∈ t.partition.host.router.tickets t.received)
    (hwaiting : ∀ entry ∈ t.partition.host.router.waiting, entry ∈ s.partition.host.router.waiting)
    (hanswers : ∀ ticket response,
      (ticket, response) ∈ t.partition.host.router.answers t.received →
        (ticket, response) ∈ s.partition.host.router.answers s.received ∨
          ∃ name command, (name, ticket) ∈ s.partition.host.router.waiting ∧
            command.correlation = some name ∧ t.partition.Answers evaluator command response) :
    Sound evaluator t := by
  obtain ⟨ht, hsame⟩ := hp.move hid hstep.move
  refine ⟨haccounted, hs.owes.move hp hid hstep.move, ?_, ?_, ?_, ?_⟩
  · rw [hsent]
    exact hs.distinct
  · intro pending hpending
    exact hkept _ (hs.kept pending (hsent ▸ hpending))
  · intro pending hpending name hwaits
    exact hs.named pending (hsent ▸ hpending) name (hwaiting _ hwaits)
  · intro pending hpending response hresponse
    rw [hsent] at hpending
    rcases hanswers _ _ hresponse with hold | ⟨name, command, hwaits, hname, hanswer⟩
    · obtain ⟨command, hname, hanswer⟩ := hs.answered pending hpending response hold
      exact ⟨command, hname,
        hanswer.grow hp ht hsame (Partition.Move.records_grow hp hid hstep.move)⟩
    · rw [hs.named pending hpending name hwaits] at hname
      exact ⟨command, hname, hanswer⟩

/-- So does a step that has no part in the requests. -/
theorem Sound.same (hstep : Step evaluator s t) (hsent : t.sent = s.sent)
    (hreceived : t.received = s.received)
    (hrouter : t.partition.host.router = s.partition.host.router) : Sound evaluator t := by
  refine hs.keep hp hid hstep hsent ?_ ?_ ?_ ?_ <;> rw [hrouter]
  · rw [hreceived]
    exact hs.accounted
  · rw [hreceived]
    exact fun ticket hticket => hticket
  · exact fun entry hentry => hentry
  · rw [hreceived]
    exact fun ticket response hresponse => .inl hresponse

/-- **A response is delivered to the request that waits.** -/
theorem Sound.steady {q : Partition} (hmove : Partition.SteadyMove evaluator s.partition q) :
    Sound evaluator { s with partition := q } := by
  rcases hmove.router with hrouter | ⟨command, rest, link, hcurrent, hnext, hlog, rfl⟩
  · exact hs.same hp hid (.steady hmove) rfl rfl hrouter
  · have hrouter := s.partition.advanced_router link command
    cases hresponse : (s.partition.processor.apply command).1.response with
    | none =>
        refine hs.same hp hid (.steady hmove) rfl rfl (hrouter.trans ?_)
        unfold Partition.answered
        rw [hresponse]
    | some response =>
        have hdelivered : (s.partition.advanced link command).host.router =
            s.partition.host.router.deliver response := by
          rw [hrouter]
          unfold Partition.answered
          rw [hresponse]
        have hanswer := hp.answers_next hid hcurrent hnext hlog hmove.move hresponse
        obtain ⟨haccounted, hperm⟩ := hs.accounted.deliver response
        refine hs.keep hp hid (.steady hmove) rfl ?_ ?_ ?_ ?_ <;> dsimp only <;> rw [hdelivered]
        · exact haccounted
        · exact fun ticket hticket => hperm.mem_iff.mpr hticket
        · exact (s.partition.host.router.deliver_router response).2
        · intro ticket came hcame
          rcases List.mem_append.mp hcame with hmem | hmem
          · rcases ResponseRouter.mem_delivered_deliver hmem with hold | ⟨hself, hwaits⟩
            · exact .inl (List.mem_append_left _ hold)
            · refine .inr ⟨_, command, hwaits,
                Processor.correlation_of_response hp.builtin hresponse, ?_⟩
              rw [show came = response from hself]
              exact hanswer
          · exact .inl (List.mem_append_right _ hmem)

/-- **A request that is sent with success waits under a new ticket.** -/
theorem Sound.submit (request : CommandRequest) (correlation : Correlation) :
    Sound evaluator (s.arrive (.submit request correlation)) := by
  have hstep : Step evaluator s (s.arrive (.submit request correlation)) := .arrive _
  rcases s.partition.submit_cases request correlation with
    ⟨e, heq⟩ | ⟨link, -, hfree, ⟨e, heq, -⟩ | ⟨heq, -⟩⟩
  · refine hs.same hp hid hstep ?_ rfl ?_ <;> simp only [arrive, Arrival.run, Arrival.sent, heq]
    rfl
  · refine hs.keep hp hid hstep ?_ ?_ ?_ ?_ ?_ <;>
      simp only [arrive, Arrival.run, Arrival.sent, Arrival.received, heq, List.nil_append]
    · exact hs.accounted.spent
    · exact fun ticket hticket => hticket
    · exact fun entry hentry => hentry
    · exact fun ticket response hresponse => .inl hresponse
  · obtain ⟨ht, hsame⟩ := hp.move hid hstep.move
    have hgrow := Partition.Move.records_grow hp hid hstep.move
    have howes := hs.owes.move hp hid hstep.move
    have hnew : ∀ pending ∈ s.sent, pending.ticket < s.partition.host.router.issued :=
      fun pending hpending => hs.accounted.issued _ (hs.kept pending hpending)
    simp only [arrive, Arrival.run, Arrival.sent, Arrival.received, heq, List.nil_append,
      List.singleton_append] at ht hsame hgrow howes ⊢
    refine ⟨hs.accounted.awaiting hfree, howes, ?_, ?_, ?_, ?_⟩
    · refine List.nodup_cons.mpr ⟨fun hmem => ?_, hs.distinct⟩
      obtain ⟨pending, hpending, hticket⟩ := List.mem_map.mp hmem
      exact absurd hticket (Nat.ne_of_lt (hnew pending hpending))
    · intro pending hpending
      rcases List.mem_cons.mp hpending with rfl | hold
      · exact List.mem_cons_self
      · exact List.mem_cons_of_mem _ (hs.kept pending hold)
    · intro pending hpending name hwaits
      rcases List.mem_cons.mp hpending with rfl | hold
      · rcases List.mem_cons.mp hwaits with hself | hother
        · exact congrArg Prod.fst hself
        · have hlow := hs.accounted.issued s.partition.host.router.issued
            (List.mem_append_left _ (List.mem_map.mpr ⟨_, hother, rfl⟩))
          exact absurd hlow (Nat.lt_irrefl _)
      · rcases List.mem_cons.mp hwaits with hself | hother
        · exact absurd (congrArg Prod.snd hself) (Nat.ne_of_lt (hnew pending hold))
        · exact hs.named pending hold name hother
    · intro pending hpending response hresponse
      rcases List.mem_cons.mp hpending with rfl | hold
      · have hlow := hs.accounted.issued s.partition.host.router.issued
          (List.mem_append_right _ (List.mem_map.mpr ⟨_, hresponse, rfl⟩))
        exact absurd hlow (Nat.lt_irrefl _)
      · obtain ⟨command, hname, hanswer⟩ := hs.answered pending hold response hresponse
        exact ⟨command, hname, hanswer.grow hp ht hsame hgrow⟩

/-- **Every arrival keeps the invariant.** -/
theorem Sound.arrive (arrival : Arrival) : Sound evaluator (s.arrive arrival) := by
  have hstep : Step evaluator s (s.arrive arrival) := .arrive arrival
  cases arrival with
  | submit request correlation => exact hs.submit hp hid request correlation
  | take pending =>
      obtain ⟨haccounted, hperm, hwaiting⟩ := hs.accounted.take pending.ticket
      have hwaits : ((s.arrive (.take pending)).partition.host.router).waiting =
          s.partition.host.router.waiting := hwaiting
      refine hs.keep hp hid hstep rfl haccounted ?_ ?_ ?_
      · intro ticket hticket
        unfold ResponseRouter.tickets at hticket ⊢
        rw [hwaits]
        exact ((hperm.map Prod.fst).append_left _).mem_iff.mpr hticket
      · intro entry hentry
        rw [hwaits] at hentry
        exact hentry
      · intro ticket response hresponse
        exact .inl (hperm.mem_iff.mp hresponse)
  | submitInternal request =>
      obtain ⟨link, -, heq, -⟩ := s.partition.submitInternal_cases request
      refine hs.same hp hid hstep rfl rfl ?_
      simp only [Session.arrive, Arrival.run, heq]
      rfl
  | setClock clock => exact hs.same hp hid hstep rfl rfl rfl
  | outage appends => exact hs.same hp hid hstep rfl rfl rfl
  | refuseNext count => exact hs.same hp hid hstep rfl rfl rfl

/-- **Every step keeps the invariant.** -/
theorem Sound.step (hstep : Step evaluator s t) : Sound evaluator t := by
  cases hstep with
  | arrive arrival => exact hs.arrive hp hid arrival
  | steady hmove => exact hs.steady hp hid hmove
  | reopen config hsame hopen =>
      obtain ⟨calls, heq⟩ := hp.open_eq hid hsame
      rw [heq] at hopen
      cases hopen
      -- Nobody has sent anything yet.
      exact ⟨hs.accounted.dropWaiting, fun entry he => absurd he List.not_mem_nil, List.nodup_nil,
        fun pending hpending => absurd hpending List.not_mem_nil,
        fun pending hpending => absurd hpending List.not_mem_nil,
        fun pending hpending => absurd hpending List.not_mem_nil⟩

end Step

theorem Sound.steps (hs : Sound evaluator s) (hp : s.partition.Sourced evaluator)
    (hid : s.partition.config.partitionId ≤ maxPartitionId) (hsteps : Steps evaluator s t) :
    Sound evaluator t ∧ t.partition.Sourced evaluator ∧
      t.partition.config.partitionId = s.partition.config.partitionId := by
  induction hsteps with
  | refl => exact ⟨hs, hp, rfl⟩
  | tail _ hstep ih =>
      obtain ⟨hmid, hsourced, hsame⟩ := ih
      have hidMid := hsame.trans_le hid
      obtain ⟨hlast, hsame'⟩ := hsourced.move hidMid hstep.move
      exact ⟨hmid.step hsourced hidMid hstep, hlast, hsame'.trans hsame⟩

/-- **A run keeps the invariant.** -/
theorem Sound.runAll (actions : List PartitionAction) :
    ∀ s : Session, Sound evaluator s → s.partition.Sourced evaluator →
      s.partition.config.partitionId ≤ maxPartitionId →
        Sound evaluator (s.runAll evaluator actions) ∧
          (s.runAll evaluator actions).partition.Sourced evaluator ∧
          (s.runAll evaluator actions).partition.config.partitionId =
            s.partition.config.partitionId := by
  induction actions with
  | nil => intro s hs hp _; exact ⟨hs, hp, rfl⟩
  | cons action rest ih =>
      intro s hs hp hid
      obtain ⟨hnext, hsourced, hsame⟩ := hs.steps hp hid (.of_action hp hid action)
      obtain ⟨hlast, hend, hsame'⟩ := ih _ hnext hsourced (hsame.trans_le hid)
      exact ⟨hlast, hend, hsame'.trans hsame⟩

/-! ### Responses -/

theorem mem_responses {ticket : Nat} {response : Response} : response ∈ s.responses ticket ↔
    (ticket, response) ∈ s.partition.host.router.answers s.received := by
  simp [responses]

/-- A ticket has a response or none. -/
theorem Sound.length_responses (hs : Sound evaluator s) (ticket : Nat) :
    (s.responses ticket).length ≤ 1 := by
  have honce := (List.nodup_append.mp hs.accounted.once).2.1
  have hcount := List.nodup_iff_count_le_one.mp honce ticket
  rw [List.count, List.countP_map, List.countP_eq_length_filter] at hcount
  unfold responses
  rw [List.length_map]
  exact hcount

/-- When nothing is left to apply nobody waits, and every request has its response. -/
theorem Sound.all_answered (hs : Sound evaluator s) (hleft : s.partition.unapplied = []) :
    s.partition.host.router.pendingCount = 0 ∧
      ∀ pending ∈ s.sent, ∃ response, s.responses pending.ticket = [response] := by
  have hnobody : s.partition.host.router.waiting = [] := by
    refine List.eq_nil_iff_forall_not_mem.mpr fun entry hentry => ?_
    obtain ⟨command, hc, -⟩ := hs.owes entry hentry
    rw [hleft] at hc
    exact List.not_mem_nil hc
  refine ⟨congrArg List.length hnobody, fun pending hpending => ?_⟩
  have hticket := hs.kept pending hpending
  unfold ResponseRouter.tickets at hticket
  rw [hnobody, List.map_nil, List.nil_append] at hticket
  obtain ⟨entry, hentry, hsame⟩ := List.mem_map.mp hticket
  rw [← hsame]
  have hmem : entry.2 ∈ s.responses entry.1 := mem_responses.mpr hentry
  refine List.length_eq_one_iff.mp (Nat.le_antisymm (hs.length_responses entry.1) ?_)
  exact List.length_pos_of_mem hmem

/-- **No response is lost, and none comes twice.**  Take any run: any requests under any names,
those of gateways among them, rounds of any size, appends that are refused, rebuilds and new
openings, and what clients have seen since the last opening.

A request that is sent in vain leaves the log and the requests that wait as they were.  One that is
sent with success has a ticket of its own, and for that at most one response comes; it answers a
command of the request's name, all of whose follow-ups are in the log.  When rounds end idle nobody
waits, and for every request that was sent with success exactly one response has come. -/
theorem answered_once {clock : Clock} {config : PartitionConfig} {p₀ : Partition}
    (hopen : Partition.open { clock } .builtin evaluator config = .ok p₀)
    (actions : List PartitionAction) :
    let s := ({ partition := p₀ } : Session).runAll evaluator actions
    s.partition = PartitionAction.runAll evaluator p₀ actions ∧
    (∀ request correlation e q, s.partition.submit request correlation = (.error e, q) →
      q.records = s.partition.records ∧
        q.host.router.waiting = s.partition.host.router.waiting) ∧
    (s.sent.map PendingResponse.ticket).Nodup ∧
    (∀ pending ∈ s.sent, (s.responses pending.ticket).length ≤ 1 ∧
      ∀ response ∈ s.responses pending.ticket, ∃ command,
        command.correlation = some pending.correlation ∧
          s.partition.Answers evaluator command response) ∧
    (0 < s.partition.config.maxCommandsPerRound → ∀ rounds count,
      (Partition.processUntilIdle rounds s.partition).1 = .idle count →
        let t := s.run evaluator (.processUntilIdle rounds)
        t.partition.host.router.pendingCount = 0 ∧
          ∀ pending ∈ s.sent, ∃ response, t.responses pending.ticket = [response]) := by
  intro s
  obtain ⟨h₀, hconfig, hid⟩ := Partition.sourced_of_open hopen
  obtain ⟨-, calls, hopened⟩ := Partition.eq_of_open hopen
  have hid₀ : p₀.config.partitionId ≤ maxPartitionId := by
    rw [hconfig]
    exact hid
  have hsound₀ : Sound evaluator { partition := p₀ } := by
    rw [hopened]
    exact ⟨⟨List.nodup_nil, fun ticket ht => absurd ht List.not_mem_nil, List.nodup_nil⟩,
      fun entry he => absurd he List.not_mem_nil, List.nodup_nil,
      fun pending hpending => absurd hpending List.not_mem_nil,
      fun pending hpending => absurd hpending List.not_mem_nil,
      fun pending hpending => absurd hpending List.not_mem_nil⟩
  obtain ⟨hs, hp, hsame⟩ := Sound.runAll actions _ hsound₀ h₀ hid₀
  refine ⟨runAll_partition actions _, ?_, hs.distinct, ?_, ?_⟩
  · intro request correlation e q herror
    rcases s.partition.submit_cases request correlation with
      ⟨e', heq⟩ | ⟨link, -, -, ⟨e', heq, hlog⟩ | ⟨heq, -⟩⟩ <;> rw [heq] at herror <;> cases herror
    · exact ⟨rfl, rfl⟩
    · exact ⟨hlog, rfl⟩
  · intro pending hpending
    exact ⟨hs.length_responses pending.ticket, fun response hresponse =>
      hs.answered pending hpending response (mem_responses.mp hresponse)⟩
  · intro hlimit rounds count hidle t
    have hids := hsame.trans_le hid₀
    obtain ⟨ht, -, -⟩ := hs.steps hp hids (.of_action hp hids (.processUntilIdle rounds))
    obtain ⟨r, max, -, -, -, hleft⟩ := Partition.last_round rounds s.partition hp hids hlimit count
      t.partition (Prod.fst_eq_iff.mp hidle)
    exact ht.all_answered hleft

/-- A timer that does not exist is canceled, the follow-ups of the next command are refused, so the
cancellation is applied again, and a request is sent in vain and a response is taken meanwhile. -/
def answeredRun : List PartitionAction :=
  let cancel : CommandRequest := ⟨some 7, .timer .cancel, .timer { targetElementId := "timer" }⟩
  let create : CommandRequest := ⟨none, .job .create, .job { jobType := "task", retries := 1 }⟩
  [.arrive (.submit cancel ⟨1, 1⟩), .processUntilIdle 2,
    .arrive (.submit create ⟨1, 2⟩), .arrive (.outage (.window 0 1)), .processRound,
    .arrive (.refuseNext 1), .arrive (.submit create ⟨2, 1⟩), .arrive (.take ⟨1, ⟨1, 1⟩, 0⟩),
    .runBatch 1 [.submit create ⟨2, 2⟩]]

theorem answered_once_answeredRun :
    let p₀ := (Partition.unbuilt {} .unavailable {}).rebuilt (LogLink.afterReads {} 1)
    let s := ({ partition := p₀ } : Session).runAll .unavailable answeredRun
    let t := s.run .unavailable (.processUntilIdle 2)
    s.sent.length = 3 ∧ s.received.length = 1 ∧ s.partition.unapplied.length = 2 ∧
      t.partition.host.router.pendingCount = 0 ∧
      ∀ pending ∈ s.sent, ∃ response, t.responses pending.ticket = [response] := by
  intro p₀
  have hopen : Partition.open { clock := {} } .builtin .unavailable {} = .ok p₀ := rfl
  have hall := (answered_once hopen answeredRun).2.2.2.2 (by decide +kernel) 2 2 (by decide +kernel)
  exact ⟨by decide +kernel, by decide +kernel, by decide +kernel, hall⟩

end Session

end Workflow
