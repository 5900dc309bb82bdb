/-
What the executor does to the partition.

It looks for responses, which is taking them (`Backed.poll`), and it sends the commands of an
operation (`Backed.sendAll`).  Each request that it sends has its own command in the log (`Asked`),
and for each request of a flight there is an answer, or it still waits, or it is known to be lost
(`Fares`); nothing that happens later changes that.

The names of the executor's requests are new, so the router never refuses them.  What stops the
sending of commands halfway is an append that is refused (`Refused`).
-/
import Workflow.Proofs.Broker.Run

namespace Workflow

/-! ### Appends that are counted -/

namespace LogLink

/-- Appends were sent through a connection whose outages stay the same. -/
structure CountsOn (link later : LogLink) : Prop where
  refuses : later.appends.refuses = link.appends.refuses
  calls : link.appends.calls ≤ later.appends.calls

theorem CountsOn.refl (link : LogLink) : link.CountsOn link := ⟨rfl, Nat.le_refl _⟩

theorem CountsOn.trans {link mid later : LogLink} (h : link.CountsOn mid)
    (h' : mid.CountsOn later) : link.CountsOn later :=
  ⟨h'.refuses.trans h.refuses, Nat.le_trans h.calls h'.calls⟩

/-- An append was refused in between. -/
def Refused (link later : LogLink) : Prop :=
  ∃ call, link.appends.calls ≤ call ∧ call < later.appends.calls ∧
    link.appends.refuses call = true

theorem Refused.of_later {link mid later : LogLink} (h : link.CountsOn mid)
    (hrefused : mid.Refused later) : link.Refused later := by
  obtain ⟨call, hfrom, hto, hcall⟩ := hrefused
  exact ⟨call, Nat.le_trans h.calls hfrom, hto, by rwa [← h.refuses]⟩

theorem Refused.of_earlier {link mid later : LogLink} (hrefused : link.Refused mid)
    (h : mid.CountsOn later) : link.Refused later := by
  obtain ⟨call, hfrom, hto, hcall⟩ := hrefused
  exact ⟨call, hfrom, Nat.lt_of_lt_of_le hto h.calls, hcall⟩

/-- An append is counted.  The log refuses none after it has taken one. -/
theorem append_counted (link : LogLink) (draft : Draft) :
    link.CountsOn (link.append draft).2 ∧
      ((link.append draft).1.isOk = true → (link.append draft).2.log.refusals = 0) ∧
      ((link.append draft).1.isOk = false → link.log.refusals = 0 →
        link.Refused (link.append draft).2) := by
  obtain ⟨⟨records, refusals⟩, appends, reads, due⟩ := link
  cases hrefused : appends.refuses appends.calls with
  | true =>
      simp only [append, guardAppend, Outage.next, hrefused, if_true]
      refine ⟨⟨rfl, Nat.le_succ _⟩, fun hok => ?_,
        fun _ _ => ⟨appends.calls, Nat.le_refl _, Nat.lt_succ_self _, hrefused⟩⟩
      cases hok
  | false =>
      cases refusals with
      | zero =>
          simp only [append, guardAppend, Outage.next, hrefused, Log.append, Log.appendBatch,
            Bool.false_eq_true, if_false, Except.map]
          refine ⟨⟨rfl, Nat.le_succ _⟩, fun _ => trivial, fun herror => ?_⟩
          cases herror
      | succ left =>
          simp only [append, guardAppend, Outage.next, hrefused, Log.append, Log.appendBatch,
            Bool.false_eq_true, if_false, Except.map]
          refine ⟨⟨rfl, Nat.le_succ _⟩, fun hok => ?_, fun _ hzero => ?_⟩
          · cases hok
          · cases hzero

end LogLink

/-- A request under a new name is an append. -/
theorem Partition.submit_of_free {p : Partition} {correlation : Correlation}
    (hfree : p.host.router.waiting.lookup correlation = none) (request : CommandRequest) :
    let draft := (request.toDraft.withCorrelation correlation).withTimestamp p.now
    (p.submit request correlation).2.host.link = (p.host.link.append draft).2 ∧
      (p.submit request correlation).1.isOk = (p.host.link.append draft).1.isOk := by
  intro draft
  rcases happend : p.host.link.append draft with ⟨e | position, link⟩
  · simp only [submit, ResponseRouter.register, hfree, withRouter, now, draft] at happend ⊢
    simp only [happend]
    exact ⟨rfl, rfl⟩
  · simp only [submit, ResponseRouter.register, hfree, withRouter, now, draft] at happend ⊢
    simp only [happend]
    exact ⟨rfl, rfl⟩

/-! ### Sending -/

/-- What is in the first of two lists that belong together has a partner in the second. -/
theorem exists_of_mem_left {α β : Type} {relates : α → β → Prop} {items : List α} {others : List β}
    (h : List.Forall₂ relates items others) {item : α} (hmem : item ∈ items) :
    ∃ other ∈ others, relates item other := by
  induction h with
  | nil => exact absurd hmem List.not_mem_nil
  | @cons first other _ _ hfirst _ ih =>
      rcases List.mem_cons.mp hmem with rfl | hlater
      · exact ⟨other, List.mem_cons_self, hfirst⟩
      · obtain ⟨found, hfound, hrelates⟩ := ih hlater
        exact ⟨found, List.mem_cons_of_mem _ hfound, hrelates⟩

theorem exists_of_mem_right {α β : Type} {relates : α → β → Prop} {items : List α}
    {others : List β} (h : List.Forall₂ relates items others) {other : β} (hmem : other ∈ others) :
    ∃ item ∈ items, relates item other := exists_of_mem_left h.flip hmem

/-- A request was sent on a stream, and has a command of its own in the log. -/
structure Session.Asked (s : Session) (streamId : Int) (request : CommandRequest)
    (pending : PendingResponse) : Prop where
  sent : pending ∈ s.sent
  stream : pending.correlation.streamId = streamId
  own : ∃ own ∈ s.partition.records, own.position = pending.position ∧ own.isCommand = true ∧
    own.correlation = some pending.correlation ∧ own.key = request.key ∧
      own.intent = request.intent

theorem Session.Asked.grows {s t : Session} {streamId : Int} {request : CommandRequest}
    {pending : PendingResponse} (h : s.Asked streamId request pending) (hgrows : s.Grows t) :
    t.Asked streamId request pending := by
  obtain ⟨hsent, hstream, own, hown, hfacts⟩ := h
  exact ⟨hgrows.sent pending hsent, hstream, own, hgrows.records.subset hown, hfacts⟩

namespace Broker

variable {evaluator : Evaluator} {b b' b'' : Broker} {s s' s'' : Session}

namespace Backed

/-- The next name of the executor is new. -/
theorem free (h : Backed evaluator b s) : b.partition.host.router.waiting.lookup
    ⟨b.executor.streamId, (b.gateway b.executor.streamId).nextRequest⟩ = none := by
  refine List.lookup_eq_none_iff.mpr fun entry hentry => ?_
  by_contra hname
  obtain ⟨command, hc, hcorrelation⟩ := h.sound.owes entry (h.same ▸ hentry)
  rw [h.same] at hc
  obtain ⟨hmem, hkind, -⟩ := Partition.mem_unapplied_iff.mp hc
  have hsame : entry.1 = ⟨b.executor.streamId, (b.gateway b.executor.streamId).nextRequest⟩ := by
    simpa using Eq.symm (by simpa using hname)
  have hbelow := h.named.below command hmem hkind entry.1 hcorrelation (congrArg _ hsame)
  rw [hsame] at hbelow
  exact absurd hbelow (Nat.lt_irrefl _)

/-- A request that is sent with success is asked. -/
theorem asked (h : Backed evaluator b s) {streamId : Int} {request : CommandRequest}
    {pending : PendingResponse} (hok : (b.send streamId request).1 = .ok pending) :
    (s.arrive (.submit request ⟨streamId, (b.gateway streamId).nextRequest⟩)).Asked streamId
      request pending := by
  rw [send_eq] at hok
  dsimp only at hok
  rcases b.partition.submit_cases request ⟨streamId, (b.gateway streamId).nextRequest⟩ with
    ⟨e, heq⟩ | ⟨link, -, -, ⟨e, heq, -⟩ | ⟨heq, hlog⟩⟩
  · rw [heq] at hok
    cases hok
  · rw [heq] at hok
    cases hok
  · rw [heq] at hok
    cases hok
    refine ⟨?_, rfl, .ofDraft (b.partition.host.link.log.size + 1)
      ((request.toDraft.withCorrelation ⟨streamId, (b.gateway streamId).nextRequest⟩).withTimestamp
        b.partition.now), ?_, rfl, rfl, rfl, rfl, rfl⟩
    · simp only [Session.arrive, Arrival.sent, h.same, heq]
      exact List.mem_append_left _ List.mem_cons_self
    · simp only [Session.arrive, Arrival.run, h.same, heq]
      show _ ∈ link.log.records
      rw [hlog]
      exact List.mem_append_right _ List.mem_cons_self

/-- A request that the executor sends is an append. -/
theorem send_counted (h : Backed evaluator b s) (request : CommandRequest) :
    let after := b.send b.executor.streamId request
    b.partition.host.link.CountsOn after.2.partition.host.link ∧
      (after.1.isOk = true → after.2.partition.host.link.log.refusals = 0) ∧
      (after.1.isOk = false → b.partition.host.link.log.refusals = 0 →
        b.partition.host.link.Refused after.2.partition.host.link) := by
  intro after
  obtain ⟨hlink, hresult⟩ := Partition.submit_of_free h.free request
  simp only [after, send_eq, hlink, hresult]
  exact b.partition.host.link.append_counted _

end Backed

/-- A record is the command of a request that was sent. -/
structure Carries (request : CommandRequest) (pending : PendingResponse) (record : Record) :
    Prop where
  position : record.position = pending.position
  command : record.isCommand = true
  name : record.correlation = some pending.correlation
  key : record.key = request.key
  intent : record.intent = request.intent

/-- A request is refused, or its command is the last record. -/
theorem send_cases (b : Broker) (streamId : Int) (request : CommandRequest) :
    (∃ e p gateways, b.send streamId request = (.error e, { b with partition := p, gateways }) ∧
      p.processor = b.partition.processor ∧ p.host.clock = b.partition.host.clock ∧
        p.records = b.partition.records) ∨
    ∃ pending record p gateways,
      b.send streamId request = (.ok pending, { b with partition := p, gateways }) ∧
      p.processor = b.partition.processor ∧ p.host.clock = b.partition.host.clock ∧
        p.records = b.partition.records ++ [record] ∧ Carries request pending record := by
  rw [send_eq]
  dsimp only
  rcases b.partition.submit_cases request ⟨streamId, (b.gateway streamId).nextRequest⟩ with
    ⟨e, heq⟩ | ⟨link, -, -, ⟨e, heq, hlog⟩ | ⟨heq, hlog⟩⟩ <;> rw [heq]
  · exact .inl ⟨e, _, _, rfl, rfl, rfl, rfl⟩
  · exact .inl ⟨e, _, _, rfl, rfl, rfl, hlog⟩
  · exact .inr ⟨_, _, _, _, rfl, rfl, rfl, hlog, rfl, rfl, rfl, rfl, rfl⟩

/-- What sending requests in a row leaves behind, whoever else uses the partition. -/
structure Sends (b : Broker) (requests : List (Nat × CommandRequest))
    (sent : List (Nat × PendingResponse)) (failure : Option PartitionError) (b' : Broker) :
    Prop where
  /-- Only the partition and the gateways have changed. -/
  kept : b' = { b with partition := b'.partition, gateways := b'.gateways }
  processor : b'.partition.processor = b.partition.processor
  clock : b'.partition.host.clock = b.partition.host.clock
  /-- The first requests were sent. -/
  first : sent.map Prod.fst <+: requests.map Prod.fst
  /-- All of them were, unless one failed. -/
  all : failure = none → sent.map Prod.fst = requests.map Prod.fst
  /-- What came to the log is a command for each of them. -/
  carried : ∃ records, b'.partition.records = b.partition.records ++ records ∧
    List.Forall₂ (fun entry record => ∃ request, (entry.1, request) ∈ requests ∧
      Carries request entry.2 record) sent records

/-- **Requests are sent in a row up to the first that is refused.** -/
theorem sendAll_sends (requests : List (Nat × CommandRequest)) :
    ∀ b : Broker, Sends b requests (sendAll requests b).1 (sendAll requests b).2.1
      (sendAll requests b).2.2 := by
  induction requests with
  | nil =>
      intro b
      exact ⟨rfl, rfl, rfl, List.prefix_rfl, fun _ => rfl, [], (List.append_nil _).symm, .nil⟩
  | cons entry rest ih =>
      obtain ⟨key, request⟩ := entry
      intro b
      unfold sendAll
      rcases b.send_cases b.executor.streamId request with
        ⟨e, p, gateways, hsend, hprocessor, hclock, hlog⟩ |
        ⟨pending, record, p, gateways, hsend, hprocessor, hclock, hlog, hcarries⟩ <;> rw [hsend]
      · exact ⟨rfl, hprocessor, hclock, List.nil_prefix, nofun, [],
          hlog.trans (List.append_nil _).symm, .nil⟩
      · obtain ⟨hkept, hprocessor', hclock', hfirst, hall, records, hlog', hcarried⟩ :=
          ih { b with partition := p, gateways }
        refine ⟨by rw [hkept], hprocessor'.trans hprocessor, hclock'.trans hclock,
          List.cons_prefix_cons.mpr ⟨rfl, hfirst⟩,
          fun hfailure => congrArg (key :: ·) (hall hfailure), record :: records, ?_,
          .cons ⟨request, List.mem_cons_self, hcarries⟩ (hcarried.imp fun _ _ hentry => ?_)⟩
        · exact hlog'.trans (by rw [hlog, List.append_assoc]; rfl)
        · obtain ⟨other, hother, hcarries'⟩ := hentry
          exact ⟨other, List.mem_cons_of_mem _ hother, hcarries'⟩

theorem Sends.of_eq {requests : List (Nat × CommandRequest)} {sent : List (Nat × PendingResponse)}
    {failure : Option PartitionError} (h : sendAll requests b = (sent, failure, b')) :
    Sends b requests sent failure b' := by
  have hsends := sendAll_sends requests b
  rw [h] at hsends
  exact hsends

/-- What sending requests in a row leaves behind. -/
structure Sent (evaluator : Evaluator) (b : Broker) (s : Session)
    (requests : List (Nat × CommandRequest)) (sent : List (Nat × PendingResponse))
    (failure : Option PartitionError) (b' : Broker) (s' : Session) : Prop
    extends Sends b requests sent failure b' where
  onward : Onward evaluator b s b' s'
  received : s'.received = s.received
  /-- Each request that was sent is seen, the latest first. -/
  seen : s'.sent = (sent.map Prod.snd).reverse ++ s.sent
  asked : ∀ entry ∈ sent, ∃ request, (entry.1, request) ∈ requests ∧
    s'.Asked b.executor.streamId request entry.2
  counts : b.partition.host.link.CountsOn b'.partition.host.link
  /-- One failed because its append was refused, by an outage unless it was the first. -/
  stopped : failure ≠ none → sent ≠ [] ∨ b.partition.host.link.log.refusals = 0 →
    b.partition.host.link.Refused b'.partition.host.link

/-- What a session has seen when a request was sent. -/
theorem Backed.seen_send (h : Backed evaluator b s) (streamId : Int) (request : CommandRequest) :
    let t := s.arrive (.submit request ⟨streamId, (b.gateway streamId).nextRequest⟩)
    t.received = s.received ∧
      ((∃ e, (b.send streamId request).1 = .error e) → t.sent = s.sent) ∧
      ∀ pending, (b.send streamId request).1 = .ok pending → t.sent = pending :: s.sent := by
  have hresult : (b.send streamId request).1 =
      (s.partition.submit request ⟨streamId, (b.gateway streamId).nextRequest⟩).1 := by
    rw [send_eq, h.same]
  rw [hresult]
  refine ⟨rfl, fun ⟨e, he⟩ => ?_, fun pending hok => ?_⟩
  · simp only [Session.arrive, Arrival.sent, he, List.nil_append]
  · simp only [Session.arrive, Arrival.sent, hok, List.singleton_append]

/-- **Requests are sent in a row up to the first whose append is refused.** -/
theorem Backed.sendAll (requests : List (Nat × CommandRequest)) :
    ∀ (b : Broker) (s : Session), Backed evaluator b s →
      ∃ s', Sent evaluator b s requests (sendAll requests b).1 (sendAll requests b).2.1
        (sendAll requests b).2.2 s' := by
  induction requests with
  | nil =>
      intro b s h
      exact ⟨s, sendAll_sends [] b, h.idle rfl rfl rfl, rfl, rfl,
        fun entry he => absurd he List.not_mem_nil, .refl _, fun hfailure => absurd rfl hfailure⟩
  | cons entry rest ih =>
      obtain ⟨key, request⟩ := entry
      intro b s h
      have hsends := sendAll_sends ((key, request) :: rest) b
      have honward := h.send b.executor.streamId request
      obtain ⟨hreceived, hrefused, hseen⟩ := h.seen_send b.executor.streamId request
      obtain ⟨hcounts, hok, herror⟩ := h.send_counted request
      have hasked := fun pending (hok : (b.send b.executor.streamId request).1 = .ok pending) =>
        h.asked hok
      have hstream := b.executor_send b.executor.streamId request
      unfold Broker.sendAll at hsends ⊢
      rcases hsend : b.send b.executor.streamId request with ⟨e | pending, c⟩
      · rw [hsend] at hsends honward hcounts herror hrefused
        refine ⟨_, hsends, honward, hreceived, hrefused ⟨e, rfl⟩,
          fun entry he => absurd he List.not_mem_nil, hcounts, fun _ hcause => ?_⟩
        exact herror rfl (hcause.resolve_left fun hsome => hsome rfl)
      · rw [hsend] at hsends honward hcounts hok hstream hseen
        obtain ⟨s', hrest⟩ := ih c _ honward.backed
        refine ⟨s', hsends, honward.trans hrest.onward, hrest.received.trans hreceived, ?_, ?_,
          hcounts.trans hrest.counts, ?_⟩
        · rw [hrest.seen, hseen pending rfl]
          simp
        · intro entry he
          rcases List.mem_cons.mp he with rfl | hlater
          · exact ⟨request, List.mem_cons_self,
              (hasked pending (by rw [hsend])).grows hrest.onward.grows⟩
          · obtain ⟨other, hother, hasked'⟩ := hrest.asked entry hlater
            exact ⟨other, List.mem_cons_of_mem _ hother, hstream ▸ hasked'⟩
        · intro hfailure _
          exact .of_later hcounts (hrest.stopped hfailure (.inr (hok rfl)))

/-! ### Taking responses -/

namespace Backed

/-- Things arrive without names, one after the other. -/
theorem arriveAll (arrivals : List Arrival) :
    ∀ (b : Broker) (s : Session), Backed evaluator b s →
      (∀ arrival ∈ arrivals, arrival.name? = none) →
      Onward evaluator b s (b.withPartition (arrivals.foldl Arrival.run b.partition))
        (arrivals.foldl Session.arrive s) := by
  induction arrivals with
  | nil => intro b s h _; exact h.idle rfl rfl rfl
  | cons arrival rest ih =>
      intro b s h hnameless
      have hfirst := h.arrive_nameless (hnameless arrival List.mem_cons_self)
      exact hfirst.trans (ih _ _ hfirst.backed fun other ho =>
        hnameless other (List.mem_cons_of_mem _ ho))

end Backed

end Broker

namespace Flight

variable {sent flight : Flight} {s t : Session}

/-- Each request of a flight still waits, or is lost, or its response was taken. -/
structure Fares (s : Session) (sent flight : Flight) : Prop where
  jobKeys : flight.jobKeys = sent.jobKeys
  fate : ∀ pending ∈ sent.waiting, pending ∈ flight.waiting ∨ flight.lost = true ∨
    ∃ response ∈ flight.responses, (pending.ticket, response) ∈ s.received

theorem Fares.grows (h : Fares s sent flight) (hgrows : s.Grows t) : Fares t sent flight :=
  ⟨h.jobKeys, fun pending hp => (h.fate pending hp).imp_right fun hgone =>
    hgone.imp_right fun ⟨response, hr, hreceived⟩ =>
      ⟨response, hr, hgrows.received _ hreceived⟩⟩

/-- Collecting responses is taking them. -/
theorem collect_router (requests : List PendingResponse) : ∀ (flight : Flight) (p : Partition),
    (requests.map Arrival.take).foldl Arrival.run p =
      p.withRouter (collect requests flight p.host.router).2 := by
  induction requests with
  | nil => intro flight p; rfl
  | cons pending rest ih =>
      intro flight p
      rw [List.map_cons, List.foldl_cons, ih]
      rfl

/-- No request is forgotten when responses are collected. -/
theorem collect_fares (requests : List PendingResponse) :
    ∀ (flight : Flight) (s : Session),
      let after := (collect requests flight s.partition.host.router).1
      let t := (requests.map Arrival.take).foldl Session.arrive s
      after.jobKeys = flight.jobKeys ∧ (∀ pending ∈ flight.waiting, pending ∈ after.waiting) ∧
      (flight.lost = true → after.lost = true) ∧
      (∀ response ∈ flight.responses, response ∈ after.responses) ∧
      (∀ entry ∈ s.received, entry ∈ t.received) ∧
      ∀ pending ∈ requests, pending ∈ after.waiting ∨ after.lost = true ∨
        ∃ response ∈ after.responses, (pending.ticket, response) ∈ t.received := by
  induction requests with
  | nil =>
      intro flight s
      exact ⟨rfl, fun _ h => h, id, fun _ h => h, fun _ h => h,
        fun pending hp => absurd hp List.not_mem_nil⟩
  | cons pending rest ih =>
      intro flight s
      have htaken : (s.arrive (.take pending)).received =
          s.partition.host.router.taken pending.ticket ++ s.received := rfl
      have hrouter : (s.arrive (.take pending)).partition.host.router =
          (s.partition.host.router.take pending.ticket).2 := rfl
      unfold collect
      rw [List.map_cons, List.foldl_cons]
      unfold ResponseRouter.taken at htaken
      rcases htake : s.partition.host.router.take pending.ticket with ⟨delivery, router⟩
      rw [htake] at htaken hrouter
      dsimp only at htaken hrouter ⊢
      rw [← hrouter]
      cases delivery with
      | waiting =>
          obtain ⟨hkeys, hwaiting, hlost, hresponses, hreceived, hfate⟩ :=
            ih { flight with waiting := flight.waiting ++ [pending] } (s.arrive (.take pending))
          refine ⟨hkeys, fun _ h => hwaiting _ (List.mem_append_left _ h), hlost, hresponses,
            fun entry he => hreceived entry (htaken ▸ he), List.forall_mem_cons.mpr ⟨?_, hfate⟩⟩
          exact .inl (hwaiting _ (List.mem_append_right _ List.mem_cons_self))
      | response response =>
          obtain ⟨hkeys, hwaiting, hlost, hresponses, hreceived, hfate⟩ :=
            ih { flight with responses := flight.responses ++ [response] }
              (s.arrive (.take pending))
          refine ⟨hkeys, hwaiting, hlost, fun _ h => hresponses _ (List.mem_append_left _ h),
            fun entry he => hreceived entry (htaken ▸ List.mem_cons_of_mem _ he),
            List.forall_mem_cons.mpr ⟨.inr (.inr ⟨response, ?_, ?_⟩), hfate⟩⟩
          · exact hresponses _ (List.mem_append_right _ List.mem_cons_self)
          · exact hreceived _ (htaken ▸ List.mem_cons_self)
      | dropped =>
          obtain ⟨hkeys, hwaiting, hlost, hresponses, hreceived, hfate⟩ :=
            ih { flight with lost := true } (s.arrive (.take pending))
          exact ⟨hkeys, hwaiting, fun _ => hlost rfl, hresponses,
            fun entry he => hreceived entry (htaken ▸ he),
            List.forall_mem_cons.mpr ⟨.inr (.inl (hlost rfl)), hfate⟩⟩

/-- **A flight that is polled still has an answer for each request that does not wait.** -/
theorem Fares.poll (h : Fares s sent flight) :
    Fares ((flight.waiting.map Arrival.take).foldl Session.arrive s) sent
      (flight.poll s.partition.host.router).1 := by
  obtain ⟨hkeys, -, hlost, hresponses, hreceived, hfate⟩ :=
    collect_fares flight.waiting { flight with waiting := [] } s
  refine ⟨hkeys.trans h.jobKeys, fun pending hp => ?_⟩
  rcases h.fate pending hp with hwaits | hgone | ⟨response, hr, htaken⟩
  · exact hfate pending hwaits
  · exact .inr (.inl (hlost hgone))
  · exact .inr (.inr ⟨response, hresponses _ hr, hreceived _ htaken⟩)

/-- When a flight is completed each of its requests has a response, and none is a rejection. -/
theorem Fares.completed (h : Fares s sent flight) (hend : flight.settlement? = some .completed) :
    ∀ pending ∈ sent.waiting, ∃ response, (pending.ticket, response) ∈ s.received ∧
      response.isRejection = false := by
  intro pending hp
  unfold settlement? at hend
  split at hend
  · cases hend
  · rename_i hlost
    split at hend
    · cases hend
    · rename_i hwaiting
      cases hrejection : flight.responses.find? Response.isRejection with
      | some rejection =>
          rw [hrejection] at hend
          cases hend
      | none =>
          have hnone : flight.waiting = [] := by simpa using hwaiting
          rcases h.fate pending hp with hwaits | hgone | ⟨response, hr, htaken⟩
          · rw [hnone] at hwaits
            exact absurd hwaits List.not_mem_nil
          · exact absurd hgone hlost
          · exact ⟨response, htaken, by simpa using List.find?_eq_none.mp hrejection response hr⟩

end Flight

end Workflow
