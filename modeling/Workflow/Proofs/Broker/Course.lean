/-
The course of a run.

A run starts with a broker that is opened on what earlier partitions have left behind, where no
command has a name on the executor's stream, and with an empty store.  At any moment of such a run
an operation has departed in one batch at most, which is on record, and where it is now says how it
got there (`Logged.runAll`).
-/
import Workflow.Proofs.Broker.Departure

namespace Workflow

/-! ### Where a run starts -/

/-- What partitions have left behind, one after the other, the first on an empty log. -/
inductive Host.Kept (evaluator : Evaluator) (partitionId : Nat) : Host → Prop
  | new (clock : Clock) : Kept evaluator partitionId { clock }
  | left {host : Host} {config : PartitionConfig} {p : Partition}
      (hkept : Kept evaluator partitionId host) (hsame : config.partitionId = partitionId)
      (hopen : Partition.open host .builtin evaluator config = .ok p)
      (actions : List PartitionAction) :
      Kept evaluator partitionId (PartitionAction.runAll evaluator p actions).close

/-- A partition that is opened there agrees with the log, and nobody has sent anything yet. -/
theorem Host.Kept.opened {evaluator : Evaluator} {partitionId : Nat} {host : Host}
    (h : host.Kept evaluator partitionId) :
    ∀ {config : PartitionConfig} {p : Partition}, config.partitionId = partitionId →
      Partition.open host .builtin evaluator config = .ok p →
        p.Sourced evaluator ∧ p.config.partitionId = partitionId ∧ partitionId ≤ maxPartitionId ∧
          p.cursor.needsRecovery = false ∧ p.records = host.link.log.records ∧
          Session.Sound evaluator { partition := p } := by
  induction h with
  | new clock =>
      intro config p hsame hopen
      obtain ⟨hsourced, hconfig, hid⟩ := Partition.sourced_of_open hopen
      obtain ⟨-, calls, hopened⟩ := Partition.eq_of_open hopen
      refine ⟨hsourced, by rw [hconfig, hsame], hsame ▸ hid, ?_, ?_, ?_⟩ <;> rw [hopened]
      · rfl
      · rfl
      · exact ⟨⟨List.nodup_nil, fun ticket ht => absurd ht List.not_mem_nil, List.nodup_nil⟩,
          fun entry he => absurd he List.not_mem_nil, List.nodup_nil,
          fun pending hpending => absurd hpending List.not_mem_nil,
          fun pending hpending => absurd hpending List.not_mem_nil,
          fun pending hpending => absurd hpending List.not_mem_nil⟩
  | left hkept hsame hopen actions ih =>
      intro config' q hsame' hopen'
      obtain ⟨hsourced, hconfig, hid, -, -, hsound⟩ := ih hsame hopen
      have hid₀ := hconfig.trans_le hid
      obtain ⟨hs, hp, hids⟩ := Session.Sound.runAll actions _ hsound hsourced hid₀
      rw [Session.runAll_partition] at hp hids
      have hids' := (hids.trans hconfig)
      have hagain : config'.partitionId = (PartitionAction.runAll evaluator _
          actions).config.partitionId := hsame'.trans hids'.symm
      have hstep : Session.Step evaluator _ { partition := q } :=
        .reopen (s := Session.runAll evaluator { partition := _ } actions) config'
          (by rw [Session.runAll_partition]; exact hagain)
          (by rw [Session.runAll_partition]; exact hopen')
      obtain ⟨calls, heq⟩ := hp.open_eq (hids'.trans_le hid) hagain
      cases heq.symm.trans hopen'
      refine ⟨hp.reopened hagain calls, hsame', hid, rfl, rfl, ?_⟩
      refine hs.step ?_ ?_ hstep <;> rw [Session.runAll_partition]
      · exact hp
      · exact hids'.trans_le hid

namespace Broker

variable {evaluator : Evaluator} {b c d : Broker} {s t : Session} {id : Uuid}
  {before : Option Departure}

/-- A broker that is opened there, on a stream that no command of the log is from, begins a
session. -/
theorem backed_of_open {site : Site} {settings : BrokerSettings}
    (hbuiltin : settings.registry = .builtin)
    (hhost : site.host.Kept settings.evaluator settings.partition.partitionId)
    (hstream : ∀ command ∈ site.host.link.log.records, command.isCommand → ∀ name,
      command.correlation = some name → name.streamId ≠ settings.executorStream)
    (hopen : Broker.open site settings = .ok b) :
    Backed settings.evaluator b { partition := b.partition } ∧ b.store = site.store ∧
      b.executor.flights = [] := by
  unfold Broker.open at hopen
  rw [hbuiltin] at hopen
  rcases hpartition : Partition.open site.host .builtin settings.evaluator settings.partition
    with ⟨e, host⟩ | p
  · rw [hpartition] at hopen
    cases hopen
  · rw [hpartition] at hopen
    cases hopen
    obtain ⟨hsourced, hid, hmax, hcurrent, hlog, hsound⟩ := hhost.opened rfl hpartition
    refine ⟨⟨rfl, hsound, hsourced, hid.trans_le hmax, ⟨p.applied, hsourced.current hcurrent⟩,
      ⟨?_, ?_⟩⟩, rfl, rfl⟩
    · intro command hc hkind name hname hown
      exact absurd hown (hstream command (hlog ▸ hc) hkind name hname)
    · intro command hc other ho hkind hkind' name hname hname' hown
      exact absurd hown (hstream command (hlog ▸ hc) hkind name hname)

/-! ### Scheduling -/

/-- Scheduling brings nothing to the partition. -/
theorem Backed.schedule (h : Backed evaluator b s) (request : BatchRequest) :
    Onward evaluator b s (b.schedule request).2 s :=
  h.idle (b.partition_schedule request) (by rw [executor_schedule]) (b.gateways_schedule request)

/-- Scheduling keeps the status of an operation. -/
theorem Status.schedule (h : Status b s id before) (request : BatchRequest) :
    Status (b.schedule request).2 s id before := by
  have hflight : (b.schedule request).2.flight? id = b.flight? id :=
    flight?_congr (b.executor_schedule request) id
  have hstream : (b.schedule request).2.executor.streamId = b.executor.streamId := by
    rw [executor_schedule]
  rcases b.stored?_schedule request id with hsame | ⟨hnone, operation, hnew, hscheduled⟩
  · exact h.kept hflight hsame hstream (.refl s)
  · cases h with
    | grounded hground _ =>
        refine .grounded (hflight.trans hground) fun other ho => ?_
        cases hnew.symm.trans ho
        exact .inl hscheduled.state
    | away _ hstored => cases hnone.symm.trans hstored
    | landed _ hstored => cases hnone.symm.trans hstored

/-! ### The record of a run -/

/-- Whether an operation departs in the batch that is carried out next: it has a flight afterwards,
and has none yet. -/
def dispatches (b : Broker) (id : Uuid) : Bool :=
  (b.flight? id).isNone && (b.executeBatch.2.flight? id).isSome

/-- In which of the batches an operation departed. -/
inductive Recorded (evaluator : Evaluator) (batches : List Broker) (id : Uuid) :
    Option Departure → Prop
  /-- In none. -/
  | never (hnone : batches.filter (fun b => b.dispatches id) = []) :
      Recorded evaluator batches id none
  /-- In one. -/
  | once {departure : Departure}
      (hone : batches.filter (fun b => b.dispatches id) = [departure.broker])
      (hbuilt : departure.broker.partition.Built evaluator)
      (hflight : departure.broker.executeBatch.2.flight? id = some departure.flight)
      (hfirst : departure.flight.jobKeys <+:
        troubledKeys departure.broker.partition departure.instanceKey)
      (hall : departure.flight.jobKeys =
          troubledKeys departure.broker.partition departure.instanceKey ∨
        departure.broker.partition.host.link.Refused
          departure.broker.executeBatch.2.partition.host.link) :
      Recorded evaluator batches id (some departure)

/-- A batch is recorded. -/
theorem Recorded.executeBatch {batches : List Broker} (h : Recorded evaluator batches id before)
    (hbuilt : b.partition.Built evaluator) (htold : Told b b.executeBatch.2 t id before) :
    ∃ after, Recorded evaluator (b :: batches) id after ∧ Status b.executeBatch.2 t id after := by
  cases htold with
  | asBefore hstatus hfirst hlast =>
      have hnot : b.dispatches id = false := by
        unfold dispatches
        cases hflight : b.flight? id with
        | some flight => rfl
        | none => rw [hlast hflight]; rfl
      have hsame : (b :: batches).filter (fun b => b.dispatches id) =
          batches.filter fun b => b.dispatches id := List.filter_cons_of_neg (by simpa using hnot)
      refine ⟨before, ?_, hstatus⟩
      cases h with
      | never hnone => exact .never (hsame.trans hnone)
      | once hone hbuilt' hflight hfirst' hall =>
          exact .once (hsame.trans hone) hbuilt' hflight hfirst' hall
  | departed departure hbefore hbroker hnone hflight hfirst hall hstatus =>
      subst hbefore
      have hdispatches : b.dispatches id = true := by
        unfold dispatches
        rw [hnone, hflight]
        rfl
      cases h with
      | never hnever =>
          refine ⟨some departure, ?_, hstatus⟩
          subst hbroker
          refine .once ?_ hbuilt hflight hfirst hall
          exact (List.filter_cons_of_pos (by simpa using hdispatches)).trans
            (congrArg (departure.broker :: ·) hnever)

end Broker

namespace BrokerRun

open Broker

variable {evaluator : Evaluator} {r : BrokerRun} {s : Session} {id : Uuid}
  {before : Option Departure}

/-- What is known about an operation at any moment of a run. -/
structure Logged (evaluator : Evaluator) (r : BrokerRun) (s : Session) (id : Uuid)
    (departure : Option Departure) : Prop where
  backed : Backed evaluator r.broker s
  status : Status r.broker s id departure
  recorded : Recorded evaluator r.batches id departure

/-- Rounds change nothing about an operation. -/
theorem Logged.rounds (h : Logged evaluator r s id before) {q : Partition}
    (hmoves : Partition.SteadyMoves evaluator r.broker.partition q) :
    Logged evaluator (r.withPartition q) { s with partition := q } id before := by
  obtain ⟨hbacked, hgrows⟩ := h.backed.rounds hmoves
  exact ⟨hbacked, h.status.kept rfl rfl rfl hgrows, h.recorded⟩

/-- **An event.** -/
theorem Logged.event (h : Logged evaluator r s id before) (event : BrokerEvent) :
    ∃ t after, Onward evaluator r.broker s (r.event event).broker t ∧
      Logged evaluator (r.event event) t id after := by
  have hquiet : ∀ {c : Broker} {t : Session}, Onward evaluator r.broker s c t →
      c.executor = r.broker.executor → c.store.store = r.broker.store.store →
        Logged evaluator { r with broker := c } t id before := by
    intro c t honward hexecutor hstore
    exact ⟨honward.backed, h.status.kept (flight?_congr hexecutor id) (stored?_congr hstore id)
      honward.streamId honward.grows, h.recorded⟩
  cases event with
  | send streamId request =>
      have honward := h.backed.send streamId request
      exact ⟨_, before, honward,
        hquiet honward (r.broker.executor_send _ _) (congrArg _ (r.broker.store_send _ _))⟩
  | arrive arrival hnameless =>
      have honward := h.backed.arrive_nameless hnameless
      exact ⟨_, before, honward, hquiet honward rfl rfl⟩
  | storeOutage inserts fetches updates =>
      have honward : Onward evaluator r.broker s
          { r.broker with store := { r.broker.store with inserts, fetches, updates } } s :=
        h.backed.idle rfl rfl rfl
      exact ⟨s, before, honward, hquiet honward rfl rfl⟩
  | schedule request =>
      have honward := h.backed.schedule request
      exact ⟨s, before, honward, honward.backed, h.status.schedule request, h.recorded⟩
  | execute =>
      obtain ⟨t, honward, hmid, htold⟩ := h.status.executeBatch h.backed
      obtain ⟨after, hrecorded, hstatus⟩ := h.recorded.executeBatch h.backed.built htold
      exact ⟨t, after, honward, honward.backed, hstatus, hrecorded⟩

/-- Events, one after the other. -/
theorem Logged.events (events : List BrokerEvent) :
    ∀ (r : BrokerRun) (s : Session) (before : Option Departure), Logged evaluator r s id before →
      ∃ t after, Onward evaluator r.broker s (events.foldl BrokerRun.event r).broker t ∧
        Logged evaluator (events.foldl BrokerRun.event r) t id after := by
  induction events with
  | nil => intro r s before h; exact ⟨s, before, h.backed.idle rfl rfl rfl, h⟩
  | cons event rest ih =>
      intro r s before h
      obtain ⟨t, mid, honward, hmid⟩ := h.event event
      obtain ⟨u, after, honward', hafter⟩ := ih _ t mid hmid
      exact ⟨u, after, honward.trans honward', hafter⟩

/-- **An action.**  What happens between the parts of a round is things that arrive, so what the
round has read is still what is applied first. -/
theorem Logged.run (h : Logged evaluator r s id before) (action : BrokerAction) :
    ∃ t after, Logged evaluator (r.run action) t id after := by
  have hsourced := h.backed.sourced
  have hid := h.backed.partitionId
  cases action with
  | event event =>
      obtain ⟨t, after, -, hafter⟩ := h.event event
      exact ⟨t, after, hafter⟩
  | prepareRound max =>
      obtain ⟨result, q, heq, hmoves, -⟩ := Partition.prepareRound_steady hsourced hid max
      refine ⟨{ s with partition := q }, before, ?_⟩
      show Logged evaluator (r.withPartition (r.broker.partition.prepareRound max).2) _ id before
      rw [heq]
      exact h.rounds hmoves
  | processUntilIdle rounds =>
      exact ⟨_, before, h.rounds (Partition.processUntilIdle_steady rounds _ hsourced hid).1⟩
  | recover =>
      exact ⟨_, before, h.rounds (.single (.of_kept .recover (Partition.recover_kept _)))⟩
  | runBatch max events =>
      obtain ⟨result, q, heq, hmoves, hread⟩ := Partition.prepareRound_steady hsourced hid max
      have hmid := h.rounds hmoves
      show ∃ t after, Logged evaluator (r.runBatch max events) t id after
      unfold runBatch
      rw [heq]
      cases result with
      | error e => exact ⟨_, before, hmid⟩
      | ok commands =>
          obtain ⟨hcurrent, hcommands⟩ := hread commands rfl
          obtain ⟨t, after, honward, hafter⟩ := Logged.events events _ _ _ hmid
          refine ⟨_, after, hafter.rounds (honward.applies hmid.backed hcurrent ?_)⟩
          rw [hcommands]
          exact List.take_prefix _ _

/-- **A run.** -/
theorem Logged.runAll (actions : List BrokerAction) :
    ∀ (r : BrokerRun) (s : Session) (before : Option Departure), Logged evaluator r s id before →
      ∃ t after, Logged evaluator (r.runAll actions) t id after := by
  induction actions with
  | nil => intro r s before h; exact ⟨s, before, h⟩
  | cons action rest ih =>
      intro r s before h
      obtain ⟨t, after, hafter⟩ := h.run action
      exact ih _ t after hafter

/-- At the start no operation has departed. -/
theorem logged_of_open {site : Site} {settings : BrokerSettings} {b : Broker}
    (hbuiltin : settings.registry = .builtin)
    (hhost : site.host.Kept settings.evaluator settings.partition.partitionId)
    (hstream : ∀ command ∈ site.host.link.log.records, command.isCommand → ∀ name,
      command.correlation = some name → name.streamId ≠ settings.executorStream)
    (hempty : site.store.store.entries = []) (hopen : Broker.open site settings = .ok b)
    (id : Uuid) :
    Logged settings.evaluator { broker := b } { partition := b.partition } id none := by
  obtain ⟨hbacked, hstore, hflights⟩ := backed_of_open hbuiltin hhost hstream hopen
  refine ⟨hbacked, .grounded ?_ fun operation ho => ?_, .never rfl⟩
  · unfold flight? Executor.flight?
    dsimp only
    rw [hflights]
    rfl
  · unfold stored? at ho
    dsimp only at ho
    have hmem := (OperationStore.get?_mem ho).1
    rw [hstore, hempty] at hmem
    exact absurd hmem List.not_mem_nil

end BrokerRun

end Workflow
