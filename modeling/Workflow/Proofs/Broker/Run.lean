/-
A broker at work on one partition.

In a run clients send requests, operations are scheduled and carried out, the clock moves, appends
and calls of the store are refused, and rounds are run, with any of the former between the reading
of a round and its applying.

For the partition such a run is like any other (`Backed`): sending a request is its arrival, and
looking for a response is taking it.  What the broker adds is the names.  A gateway never uses a
number twice, so no two commands of the log have the same name on the stream of the executor
(`NamedOnce`), and a response that has this name answers the one command that has it.
-/
import Workflow.Broker.Execute
import Workflow.Broker.Schedule
import Workflow.Proofs.Partition.Session

namespace Workflow

/-! ### Runs -/

/-- The name that an arrival gives to a request. -/
def Arrival.name? : Arrival → Option Correlation
  | .submit _ correlation => some correlation
  | _ => none

/-- What may happen to a broker at any moment. -/
inductive BrokerEvent where
  /-- A client sends a request through the gateway of a stream. -/
  | send (streamId : Int) (request : CommandRequest)
  /-- Something else comes to the partition. -/
  | arrive (arrival : Arrival) (hnameless : arrival.name? = none)
  /-- From now on these calls of the store are refused. -/
  | storeOutage (inserts fetches updates : Outage)
  /-- Operations are scheduled. -/
  | schedule (request : BatchRequest)
  /-- One batch of operations is carried out. -/
  | execute

namespace Broker

/-- The broker with another partition. -/
def withPartition (b : Broker) (partition : Partition) : Broker := { b with partition }

end Broker

/-- The broker after an event. -/
def BrokerEvent.run (b : Broker) : BrokerEvent → Broker
  | .send streamId request => (b.send streamId request).2
  | .arrive arrival _ => b.withPartition (arrival.run b.partition)
  | .storeOutage inserts fetches updates =>
      { b with store := { b.store with inserts, fetches, updates } }
  | .schedule request => (b.schedule request).2
  | .execute => b.executeBatch.2

/-- What a run of a broker consists of. -/
inductive BrokerAction where
  /-- Something happens. -/
  | event (event : BrokerEvent)
  /-- A round is prepared, and what it read is not applied. -/
  | prepareRound (max : Nat)
  /-- A round of any size, with events between its reading and its applying. -/
  | runBatch (max : Nat) (events : List BrokerEvent)
  /-- Rounds until one applies nothing, at most so many. -/
  | processUntilIdle (rounds : Nat)
  /-- The state is rebuilt. -/
  | recover

/-- A broker, with the moments at which it carried out a batch. -/
structure BrokerRun where
  /-- The broker. -/
  broker : Broker
  /-- The broker before each batch, the latest first. -/
  batches : List Broker := []

namespace BrokerRun

/-- The run with another partition. -/
def withPartition (r : BrokerRun) (partition : Partition) : BrokerRun :=
  { r with broker := r.broker.withPartition partition }

/-- The run after an event. -/
def event (r : BrokerRun) (event : BrokerEvent) : BrokerRun where
  broker := event.run r.broker
  batches := match event with
    | .execute => r.broker :: r.batches
    | _ => r.batches

/-- The run after a round of any size, with events between its reading and its applying. -/
def runBatch (r : BrokerRun) (max : Nat) (events : List BrokerEvent) : BrokerRun :=
  match r.broker.partition.prepareRound max with
  | (.error _, p) => r.withPartition p
  | (.ok commands, p) =>
      let r := events.foldl event (r.withPartition p)
      r.withPartition (r.broker.partition.processCommands commands).2

/-- The run after an action. -/
def run (r : BrokerRun) : BrokerAction → BrokerRun
  | .event event => r.event event
  | .prepareRound max => r.withPartition (r.broker.partition.prepareRound max).2
  | .runBatch max events => r.runBatch max events
  | .processUntilIdle rounds =>
      r.withPartition (Partition.processUntilIdle rounds r.broker.partition).2
  | .recover => r.withPartition r.broker.partition.recover.2

/-- The run after all actions. -/
def runAll (r : BrokerRun) (actions : List BrokerAction) : BrokerRun := actions.foldl run r

end BrokerRun

/-! ### Names -/

namespace Partition

variable {evaluator : Evaluator} {p q : Partition} {streamId : Int} {next position : Nat}

/-- On a stream no two commands of the log have the same name, and the next number is new. -/
structure NamedOnce (p : Partition) (streamId : Int) (next : Nat) : Prop where
  /-- The numbers that were used are below the next one. -/
  below : ∀ command ∈ p.records, command.isCommand → ∀ name, command.correlation = some name →
    name.streamId = streamId → name.requestId < next
  /-- A name belongs to one command. -/
  once : ∀ command ∈ p.records, ∀ other ∈ p.records, command.isCommand → other.isCommand →
    ∀ name, command.correlation = some name → other.correlation = some name →
      name.streamId = streamId → command = other

namespace NamedOnce

/-- Nothing comes to the log. -/
theorem kept (h : p.NamedOnce streamId next) (hlog : q.records = p.records) :
    q.NamedOnce streamId next := by
  obtain ⟨hbelow, honce⟩ := h
  rw [← hlog] at hbelow honce
  exact ⟨hbelow, honce⟩

/-- Records come to the log that are no commands of the stream. -/
theorem extend (h : p.NamedOnce streamId next) {drafts : List Draft}
    (hlog : q.records = p.records ++ Log.numbered position drafts)
    (hothers : ∀ draft ∈ drafts, draft.kind = .command → ∀ name, draft.correlation = some name →
      name.streamId ≠ streamId) : q.NamedOnce streamId next := by
  have hold : ∀ command ∈ q.records, command.isCommand → ∀ name,
      command.correlation = some name → name.streamId = streamId → command ∈ p.records := by
    intro command hc hkind name hname hstream
    rw [hlog, List.mem_append] at hc
    rcases hc with hold | hnew
    · exact hold
    · have hdraft := Log.toDraft_mem_of_mem_numbered hnew
      exact absurd hstream
        (hothers _ hdraft (by simpa [Record.isCommand] using hkind) name hname)
  refine ⟨fun command hc hkind name hname hstream => ?_,
    fun command hc other ho hkind hkind' name hname hname' hstream => ?_⟩
  · exact h.below command (hold command hc hkind name hname hstream) hkind name hname hstream
  · exact h.once command (hold command hc hkind name hname hstream) other
      (hold other ho hkind' name hname' hstream) hkind hkind' name hname hname' hstream

/-- The command of the next number comes to the log. -/
theorem ask (h : p.NamedOnce streamId next) {draft : Draft}
    (hlog : q.records = p.records ++ Log.numbered position [draft])
    (hname : draft.correlation = some ⟨streamId, next⟩) : q.NamedOnce streamId (next + 1) := by
  have hcases : ∀ command ∈ q.records,
      command ∈ p.records ∨ command = Record.ofDraft position draft := by
    intro command hc
    rw [hlog, List.mem_append] at hc
    exact hc.imp_right List.mem_singleton.mp
  -- A command that was there before has another name than the new one.
  have hother : ∀ command ∈ p.records, command.isCommand → ∀ name,
      command.correlation = some name → name.streamId = streamId →
        (Record.ofDraft position draft).correlation ≠ some name := by
    intro command hc hkind name hcommand hstream hnew
    have hbelow := h.below command hc hkind name hcommand hstream
    cases hname.symm.trans hnew
    exact absurd hbelow (Nat.lt_irrefl _)
  refine ⟨fun command hc hkind name hcommand hstream => ?_,
    fun command hc other ho hkind hkind' name hcommand hcommand' hstream => ?_⟩
  · rcases hcases command hc with hold | rfl
    · exact Nat.lt_succ_of_lt (h.below command hold hkind name hcommand hstream)
    · cases hname.symm.trans hcommand
      exact Nat.lt_succ_self _
  · rcases hcases command hc with hold | rfl <;> rcases hcases other ho with hold' | rfl
    · exact h.once command hold other hold' hkind hkind' name hcommand hcommand' hstream
    · exact absurd hcommand' (hother command hold hkind name hcommand hstream)
    · exact absurd hcommand (hother other hold' hkind' name hcommand' hstream)
    · rfl

end NamedOnce

/-- In a move that nothing from outside has a part in no command with a name comes to the log. -/
theorem SteadyMove.nameless (hmove : SteadyMove evaluator p q) (h : Sourced evaluator p)
    (hid : p.config.partitionId ≤ maxPartitionId) :
    ∃ drafts, q.records = p.records ++ Log.numbered (p.host.link.log.size + 1) drafts ∧
      ∀ draft ∈ drafts, draft.kind = .command → draft.correlation = none := by
  cases hmove.move.exchange h hid with
  | narrowed hrouter drafts hlog hnameless =>
      exact ⟨drafts, hlog, fun draft hd _ => hnameless draft hd⟩
  | answered command rest hcurrent hnext hrouter hlog =>
      exact ⟨_, hlog, fun draft hd hkind =>
        absurd hkind (Processor.of_mem_followUps_apply h.builtin hd).2⟩
  | asked request name hfree hrouter hlog =>
      -- A request would have been given a ticket.
      have hissued : q.host.router.issued = p.host.router.issued := by
        rcases hmove.router with hsame | ⟨command, rest, link, -, -, -, rfl⟩
        · rw [hsame]
        · rw [advanced_router]
          exact (p.answered_router command).1
      rw [hrouter] at hissued
      exact absurd hissued (Nat.succ_ne_self _)

theorem SteadyMoves.namedOnce (hmoves : SteadyMoves evaluator p q) (h : Sourced evaluator p)
    (hid : p.config.partitionId ≤ maxPartitionId) (hnamed : p.NamedOnce streamId next) :
    q.NamedOnce streamId next := by
  induction hmoves with
  | refl => exact hnamed
  | @tail q r hmoves hmove ih =>
      obtain ⟨hq, hsame⟩ := h.moves hid (SteadyMoves.moves hmoves)
      obtain ⟨drafts, hlog, hnameless⟩ := hmove.nameless hq (hsame.trans_le hid)
      refine ih.extend hlog fun draft hd hkind name hname => ?_
      rw [hnameless draft hd hkind] at hname
      cases hname

/-! ### What the engine was applied to -/

/-- Commands have led to the engine, those that were spoiled included. -/
def Built (evaluator : Evaluator) (p : Partition) : Prop :=
  ∃ commands, p.processor = (p.initialEngine evaluator).after commands

theorem Built.move (hbuilt : Built evaluator p) (h : Sourced evaluator p)
    (hid : p.config.partitionId ≤ maxPartitionId) (hmove : Move evaluator p q) :
    Built evaluator q := by
  obtain ⟨commands, heq⟩ := hbuilt
  have hinitial : q.config.partitionId = p.config.partitionId →
      q.initialEngine evaluator = p.initialEngine evaluator := by
    intro hsame
    unfold initialEngine
    rw [hsame]
  have happlied : ∀ command, (p.processor.apply command).2 =
      (p.initialEngine evaluator).after (commands ++ [command]) := by
    intro command
    rw [Processor.after_append, ← heq]
    rfl
  have hsame := (h.move hid hmove).2
  unfold Built
  rw [hinitial hsame]
  cases hmove.effect h hid with
  | arrived drafts hconfig hprocessor => exact ⟨commands, hprocessor.trans heq⟩
  | applied command rest link hcurrent hnext hbeside hend =>
      refine ⟨commands ++ [command], ?_⟩
      rw [hend, advanced_eq]
      exact happlied command
  | spoiled command link hbeside hend =>
      refine ⟨commands ++ [command], ?_⟩
      rw [hend]
      exact happlied command
  | rebuilt hsourced hid' hlog hcurrent hengine => exact ⟨p.applied, hengine⟩

end Partition

/-! ### A broker and its session -/

/-- What was in a session is still there. -/
structure Session.Grows (s t : Session) : Prop where
  sent : ∀ pending ∈ s.sent, pending ∈ t.sent
  received : ∀ entry ∈ s.received, entry ∈ t.received
  records : s.partition.records <+: t.partition.records

theorem Session.Grows.refl (s : Session) : s.Grows s :=
  ⟨fun _ h => h, fun _ h => h, List.prefix_rfl⟩

theorem Session.Grows.trans {s t u : Session} (h : s.Grows t) (h' : t.Grows u) : s.Grows u :=
  ⟨fun _ hp => h'.sent _ (h.sent _ hp), fun _ he => h'.received _ (h.received _ he),
    h.records.trans h'.records⟩

namespace Broker

variable {evaluator : Evaluator} {b b' b'' : Broker} {s s' s'' : Session}

theorem streamId_gateway (b : Broker) (streamId : Int) :
    (b.gateway streamId).streamId = streamId := by
  unfold gateway
  cases hfind : b.gateways.find? fun gateway => gateway.streamId == streamId with
  | none => rfl
  | some gateway => simpa using List.find?_some hfind

/-- Sending is the arrival of a request under the next name of the gateway. -/
theorem send_eq (b : Broker) (streamId : Int) (request : CommandRequest) :
    b.send streamId request =
      let name : Correlation := ⟨streamId, (b.gateway streamId).nextRequest⟩
      ((b.partition.submit request name).1,
        { b with
          partition := (b.partition.submit request name).2
          gateways := { streamId, nextRequest := (b.gateway streamId).nextRequest + 1 } ::
            b.gateways.filter fun other => other.streamId != streamId }) := by
  unfold send Gateway.send
  rw [streamId_gateway]

@[simp] theorem executor_send (b : Broker) (streamId : Int) (request : CommandRequest) :
    (b.send streamId request).2.executor = b.executor := by rw [send_eq]

@[simp] theorem store_send (b : Broker) (streamId : Int) (request : CommandRequest) :
    (b.send streamId request).2.store = b.store := by rw [send_eq]

/-- A gateway that has sent numbers its requests on, and the others do as before. -/
theorem nextRequest_send (b : Broker) (streamId other : Int) (request : CommandRequest) :
    ((b.send streamId request).2.gateway other).nextRequest =
      if other = streamId then (b.gateway streamId).nextRequest + 1
      else (b.gateway other).nextRequest := by
  rw [send_eq]
  by_cases hsame : other = streamId
  · rw [if_pos hsame, hsame]
    simp [gateway]
  · rw [if_neg hsame]
    have hdiffer : (streamId == other) = false := by simpa using Ne.symm hsame
    have hothers : ((b.gateways.filter fun g => g.streamId != streamId).find?
        fun g => g.streamId == other) = b.gateways.find? fun g => g.streamId == other := by
      rw [List.find?_filter]
      refine congrArg (List.find? · b.gateways) (funext fun g => ?_)
      by_cases hg : g.streamId = other
      · simp [hg, hsame]
      · simp [hg]
    simp only [gateway, List.find?_cons, hdiffer, hothers]

/-- A session accounts for the requests of a broker, and the executor's gateway names each command
of the log once. -/
structure Backed (evaluator : Evaluator) (b : Broker) (s : Session) : Prop where
  same : s.partition = b.partition
  sound : s.Sound evaluator
  sourced : b.partition.Sourced evaluator
  partitionId : b.partition.config.partitionId ≤ maxPartitionId
  built : b.partition.Built evaluator
  named : b.partition.NamedOnce b.executor.streamId
    (b.gateway b.executor.streamId).nextRequest

/-- What happens to the partition while no round is run: things arrive. -/
structure Onward (evaluator : Evaluator) (b : Broker) (s : Session) (b' : Broker) (s' : Session) :
    Prop where
  backed : Backed evaluator b' s'
  arrivals : ∃ arrivals : List Arrival, s' = arrivals.foldl Session.arrive s
  grows : s.Grows s'
  streamId : b'.executor.streamId = b.executor.streamId
  processor : b'.partition.processor = b.partition.processor

namespace Onward

theorem trans (h : Onward evaluator b s b' s') (h' : Onward evaluator b' s' b'' s'') :
    Onward evaluator b s b'' s'' := by
  obtain ⟨arrivals, heq⟩ := h.arrivals
  obtain ⟨arrivals', heq'⟩ := h'.arrivals
  refine ⟨h'.backed, ⟨arrivals ++ arrivals', ?_⟩, h.grows.trans h'.grows,
    h'.streamId.trans h.streamId, h'.processor.trans h.processor⟩
  rw [List.foldl_append, ← heq]
  exact heq'

/-- What arrives leaves the settings alone. -/
theorem config (h : Onward evaluator b s b' s') (hbacked : Backed evaluator b s) :
    b'.partition.config = b.partition.config := by
  obtain ⟨arrivals, heq⟩ := h.arrivals
  have hall : ∀ (arrivals : List Arrival) (p : Partition),
      (arrivals.foldl Arrival.run p).config = p.config := by
    intro arrivals
    induction arrivals with
    | nil => intro p; rfl
    | cons arrival rest ih => intro p; exact (ih _).trans (arrival.run_config p)
  rw [← h.backed.same, heq, Session.arrivals_partition, hbacked.same]
  exact hall arrivals b.partition

/-- What a round has read before things arrived is still what is applied first. -/
theorem applies (h : Onward evaluator b s b' s') (hbacked : Backed evaluator b s)
    (hcurrent : b.partition.cursor.needsRecovery = false) {commands : List Record}
    (hread : commands <+: b.partition.unapplied) :
    Partition.SteadyMoves evaluator b'.partition (b'.partition.processCommands commands).2 := by
  obtain ⟨arrivals, heq⟩ := h.arrivals
  have hpartition : b'.partition = arrivals.foldl Arrival.run b.partition := by
    rw [← h.backed.same, heq, Session.arrivals_partition, hbacked.same]
  obtain ⟨-, hcursor, hfront⟩ := Arrival.moves hbacked.sourced hbacked.partitionId arrivals
  rw [← hpartition] at hcursor hfront
  have hcurrent' : b'.partition.cursor.needsRecovery = false := by
    rw [hcursor]
    exact hcurrent
  rw [Partition.processCommands_of_current hcurrent']
  exact (Partition.applyCommands_steady commands _ h.backed.sourced h.backed.partitionId hcurrent'
    (hread.trans hfront)).1

end Onward

namespace Backed

/-- Nothing comes to the partition. -/
theorem idle (h : Backed evaluator b s) (hpartition : b'.partition = b.partition)
    (hstream : b'.executor.streamId = b.executor.streamId) (hgateways : b'.gateways = b.gateways) :
    Onward evaluator b s b' s := by
  refine ⟨⟨h.same.trans hpartition.symm, h.sound, ?_, ?_, ?_, ?_⟩, ⟨[], rfl⟩, .refl s, hstream,
    congrArg _ hpartition⟩
  · rw [hpartition]
    exact h.sourced
  · rw [hpartition]
    exact h.partitionId
  · rw [hpartition]
    exact h.built
  · unfold gateway
    rw [hpartition, hstream, hgateways]
    exact h.named

/-- Something arrives. -/
theorem arrive (h : Backed evaluator b s) (arrival : Arrival)
    (hpartition : b'.partition = arrival.run b.partition)
    (hstream : b'.executor.streamId = b.executor.streamId)
    (hnamed : b'.partition.NamedOnce b'.executor.streamId
      (b'.gateway b'.executor.streamId).nextRequest) :
    Onward evaluator b s b' (s.arrive arrival) := by
  obtain ⟨hsame, hsound, hsourced, hid, hbuilt, -⟩ := h
  have hsame' : (s.arrive arrival).partition = b'.partition := by
    rw [hpartition, ← hsame]
    rfl
  have hmove : Partition.Move evaluator b.partition b'.partition := by
    rw [hpartition]
    exact arrival.move
  obtain ⟨hsourced', hid'⟩ := hsourced.move hid hmove
  refine ⟨⟨hsame', ?_, hsourced', hid'.trans_le hid, hbuilt.move hsourced hid hmove, hnamed⟩,
    ⟨[arrival], rfl⟩, ⟨?_, ?_, ?_⟩, hstream, ?_⟩
  · exact hsound.arrive (hsame ▸ hsourced) (hsame ▸ hid) arrival
  · exact fun pending hp => List.mem_append_right _ hp
  · exact fun entry he => List.mem_append_right _ he
  · rw [hsame, hsame']
    exact Partition.Move.records_grow hsourced hid hmove
  · rw [hpartition]
    exact arrival.run_processor _

/-- What arrives under no name of the stream brings no command of the stream. -/
theorem arrive_foreign (h : Backed evaluator b s) {arrival : Arrival}
    (hforeign : ∀ name, arrival.name? = some name → name.streamId ≠ b.executor.streamId) :
    Onward evaluator b s (b.withPartition (arrival.run b.partition)) (s.arrive arrival) := by
  refine h.arrive arrival rfl rfl ?_
  cases arrival with
  | submit request correlation =>
      show (b.partition.submit request correlation).2.NamedOnce _ _
      rcases b.partition.submit_cases request correlation with
        ⟨e, heq⟩ | ⟨link, -, -, ⟨e, heq, hlog⟩ | ⟨heq, hlog⟩⟩ <;> rw [heq]
      · exact h.named.kept rfl
      · exact h.named.kept hlog
      · refine h.named.extend hlog fun draft hd _ name hname => ?_
        rw [List.mem_singleton.mp hd] at hname
        cases hname
        exact hforeign correlation rfl
  | submitInternal request =>
      show (b.partition.submitInternal request).2.NamedOnce _ _
      obtain ⟨link, -, heq, hlog | hlog⟩ := b.partition.submitInternal_cases request
      · rw [heq]
        exact h.named.kept hlog
      · rw [heq]
        refine h.named.extend hlog fun draft hd _ name hname => ?_
        rw [List.mem_singleton.mp hd] at hname
        cases hname
  | take pending => exact h.named.kept rfl
  | setClock clock => exact h.named.kept rfl
  | outage appends => exact h.named.kept rfl
  | refuseNext count => exact h.named.kept rfl

/-- What arrives without a name brings no command of the stream. -/
theorem arrive_nameless (h : Backed evaluator b s) {arrival : Arrival}
    (hnameless : arrival.name? = none) :
    Onward evaluator b s (b.withPartition (arrival.run b.partition)) (s.arrive arrival) :=
  h.arrive_foreign fun name hname => by
    rw [hnameless] at hname
    cases hname

/-- A request is sent through the gateway of a stream. -/
theorem send (h : Backed evaluator b s) (streamId : Int) (request : CommandRequest) :
    Onward evaluator b s (b.send streamId request).2
      (s.arrive (.submit request ⟨streamId, (b.gateway streamId).nextRequest⟩)) := by
  refine h.arrive _ (by rw [send_eq]; rfl) (by rw [send_eq]) ?_
  rw [executor_send,
    nextRequest_send]
  have hpartition : (b.send streamId request).2.partition =
      (b.partition.submit request ⟨streamId, (b.gateway streamId).nextRequest⟩).2 := by rw [send_eq]
  rw [hpartition]
  -- Without a command the number may be used up all the same.
  have hnothing : ∀ {q : Partition}, q.records = b.partition.records →
      q.NamedOnce b.executor.streamId
        (if b.executor.streamId = streamId then (b.gateway streamId).nextRequest + 1
          else (b.gateway b.executor.streamId).nextRequest) := by
    intro q hlog
    have hkept := h.named.kept hlog
    split
    · rename_i hown
      refine ⟨fun command hc hkind name hname hstream => ?_, hkept.once⟩
      rw [← hown]
      exact Nat.lt_succ_of_lt (hkept.below command hc hkind name hname hstream)
    · exact hkept
  rcases b.partition.submit_cases request ⟨streamId, (b.gateway streamId).nextRequest⟩ with
    ⟨e, heq⟩ | ⟨link, -, -, ⟨e, heq, hlog⟩ | ⟨heq, hlog⟩⟩
  · rw [heq]
    exact hnothing rfl
  · rw [heq]
    exact hnothing hlog
  · rw [heq]
    by_cases hown : b.executor.streamId = streamId
    · rw [if_pos hown]
      subst hown
      exact h.named.ask hlog rfl
    · rw [if_neg hown]
      refine h.named.extend hlog fun draft hd _ name hname => ?_
      rw [List.mem_singleton.mp hd] at hname
      cases hname
      exact Ne.symm hown

/-- Rounds are run. -/
theorem rounds (h : Backed evaluator b s) {q : Partition}
    (hmoves : Partition.SteadyMoves evaluator b.partition q) :
    Backed evaluator (b.withPartition q) { s with partition := q } ∧
      s.Grows { s with partition := q } := by
  obtain ⟨hsame, hsound, hsourced, hid, hbuilt, hnamed⟩ := h
  obtain ⟨hq, hidq⟩ := hsourced.moves hid hmoves.moves
  have hsteps : Session.Steps evaluator s { s with partition := q } := .of_steady (hsame ▸ hmoves)
  have hbuilt' : q.Built evaluator :=
    hsourced.induct (fun r => r.Built evaluator) id
      (fun hmid hidMid hmove hold => hold.move hmid hidMid hmove) hid hmoves.moves hbuilt
  refine ⟨⟨rfl, (hsound.steps (hsame ▸ hsourced) (hsame ▸ hid) hsteps).1, hq, hidq.trans_le hid,
    hbuilt', Partition.SteadyMoves.namedOnce hmoves hsourced hid hnamed⟩,
    fun _ hp => hp, fun _ he => he, ?_⟩
  rw [hsame]
  exact Partition.Moves.records_grow hsourced hid hmoves.moves

end Backed

end Broker

end Workflow
