/-
The commands of an operation are sent at most once.

Between the sending and what is written down of it anything may fail, so the stored operation does
not tell whether its commands are in the log.  The flights do (`SentOnce`): an operation that has
sent commands has a flight until its end is written down, and a task for an operation with a flight
sends nothing.  An operation is given up only where nothing was sent for it, and then that is its
end, so nothing is sent for it later either.

That one turn sends no job two commands needs an engine whose open incidents name different jobs
(`Registry.Careful`).
-/
import Workflow.Proofs.Broker.Reached
import Workflow.Proofs.Broker.Service
import Workflow.Proofs.Job.Troubled

namespace Workflow

/-! ### What one turn sends -/

/-- Jobs that are sent commands for are different ones if open incidents name different jobs. -/
theorem EngineState.Troubled.nodup_troubledKeys {p : Partition} (h : p.processor.state.Troubled)
    (instanceKey : Nat) : (Broker.troubledKeys p instanceKey).Nodup := by
  have hnamed : ((p.activeIncidents instanceKey).filterMap fun incident =>
      incident.value.jobKey).Nodup := by
    refine List.Pairwise.filterMap _ (fun incident other hdiffer => ?_)
      (h.pairwise_active.sublist List.filter_sublist)
    intro key hnames otherKey hnames' heq
    subst heq
    exact hdiffer key hnames hnames'
  refine hnamed.sublist ?_
  unfold Broker.troubledKeys Broker.troubledJobs
  rw [List.map_filterMap]
  -- Some jobs may be at their end.
  generalize p.activeIncidents instanceKey = incidents
  induction incidents with
  | nil => exact .slnil
  | cons incident rest ih =>
      cases hnames : incident.value.jobKey with
      | none => simpa [hnames] using ih
      | some key =>
          cases hjob : p.job? key with
          | none => simpa [hnames, hjob] using ih.cons key
          | some job => simpa [hnames, hjob] using ih

/-- The stored operation is at its end. -/
def Broker.Ended (b : Broker) (id : Uuid) : Prop :=
  ∃ operation, b.stored? id = some operation ∧ operation.state.isTerminal = true

namespace Turn

/-- An operation that was to be sent is written down as failed. -/
def GivesUp (turn : Turn) : Prop :=
  ∃ operation, turn.task = .dispatch operation ∧
    ∃ stored, turn.after.stored? turn.id = some stored ∧ stored.state = .failed

/-- Commands of an operation that departs. -/
structure Commands (turn : Turn) (operation : Operation)
    (sent : List (Nat × PendingResponse)) : Prop where
  /-- They are about the first of the jobs in question. -/
  first : sent.map Prod.fst <+:
    Broker.troubledKeys turn.broker.partition operation.targetKey
  /-- Each job has one of them. -/
  carried : List.Forall₂ (fun entry record => ∃ request,
    (entry.1, request) ∈ turn.broker.requestsOf operation ∧
      Broker.Carries request entry.2 record) sent turn.appended

theorem appended_eq {turn : Turn} {records : List Record}
    (h : turn.after.partition.records = turn.broker.partition.records ++ records) :
    turn.appended = records :=
  List.append_cancel_left (turn.records_after.symm.trans h)

/-- A turn that leaves the partition alone appends nothing. -/
theorem appended_eq_nil {turn : Turn} (h : turn.after.partition = turn.broker.partition) :
    turn.appended = [] := appended_eq (by rw [h, List.append_nil])

theorem commands_of_sends {turn : Turn} {operation : Operation} {d : Broker}
    {sent : List (Nat × PendingResponse)} {failure : Option PartitionError}
    (hsends : Broker.Sends turn.broker (turn.broker.requestsOf operation) sent failure d)
    (hkept : turn.after.partition = d.partition) : turn.Commands operation sent := by
  obtain ⟨records, hlog, hcarried⟩ := hsends.carried
  have happended : turn.appended = records := appended_eq (by rw [hkept]; exact hlog)
  refine ⟨?_, happended ▸ hcarried⟩
  rw [← Broker.map_fst_requestsOf]
  exact hsends.first

/-- **What a turn appends** is nothing, or the commands of an operation that is dispatched. -/
theorem appended_cases (turn : Turn) :
    turn.appended = [] ∨ ∃ operation sent, turn.task = .dispatch operation ∧
      turn.Commands operation sent := by
  obtain ⟨b, task⟩ := turn
  have hdoes := Turn.does ⟨b, task⟩
  cases hdoes with
  | noted flight hflight hkept hwrites => exact .inl (appended_eq_nil (by rw [hkept]))
  | refused hflight hnothing hkept hwrites => exact .inl (appended_eq_nil (by rw [hkept]))
  | @stuck operation hflight hsome hsend =>
      obtain ⟨failure, hsends⟩ := hsend.imp fun _ => Broker.Sends.of_eq
      exact .inr ⟨operation, [], rfl, commands_of_sends hsends rfl⟩
  | @departed operation d sent hflight hsome hsend hkept hwrites =>
      obtain ⟨failure, hsends⟩ := hsend.imp fun _ => Broker.Sends.of_eq
      exact .inr ⟨operation, sent, rfl, commands_of_sends hsends (by rw [hkept])⟩
  | unsettled hkept hstore => exact .inl (appended_eq_nil (by rw [hkept]))
  | settled hkept hupdate => exact .inl (appended_eq_nil (by rw [hkept]))

namespace Commands

variable {turn : Turn} {operation : Operation} {sent : List (Nat × PendingResponse)}

/-- Each of them is to update the retries of its job. -/
theorem updates (h : turn.Commands operation sent) : List.Forall₂ (fun entry record =>
    record.isCommand = true ∧ record.intent = .job .updateRetries ∧
      record.key = some entry.1) sent turn.appended := by
  refine h.carried.imp fun entry record hcarries => ?_
  obtain ⟨request, hmem, hcarries⟩ := hcarries
  obtain ⟨hkey, hintent⟩ := Broker.of_mem_requestsOf hmem
  exact ⟨hcarries.command, hcarries.intent.trans hintent, hcarries.key.trans hkey⟩

theorem of_mem (h : turn.Commands operation sent) {record : Record}
    (hmem : record ∈ turn.appended) :
    record.isCommand = true ∧ record.intent = .job .updateRetries ∧
      ∃ key ∈ Broker.troubledKeys turn.broker.partition operation.targetKey,
        record.key = some key := by
  obtain ⟨entry, hentry, hcommand, hintent, hkey⟩ := exists_of_mem_right h.updates hmem
  exact ⟨hcommand, hintent, entry.1, h.first.subset (List.mem_map_of_mem hentry), hkey⟩

theorem map_key (h : turn.Commands operation sent) :
    turn.appended.map (·.key) = (sent.map Prod.fst).map some := by
  have hupdates := h.updates
  clear h
  generalize turn.appended = records at hupdates
  induction hupdates with
  | nil => rfl
  | cons hfirst _ ih => rw [List.map_cons, List.map_cons, List.map_cons, hfirst.2.2, ih]

end Commands

/-- What a turn appends are commands for an operation that it dispatches. -/
theorem of_mem_appended {turn : Turn} {record : Record} (h : record ∈ turn.appended) :
    record.isCommand = true ∧ record.intent = .job .updateRetries ∧
      ∃ operation, turn.task = .dispatch operation ∧
        ∃ key ∈ Broker.troubledKeys turn.broker.partition operation.targetKey,
          record.key = some key := by
  rcases turn.appended_cases with hnone | ⟨operation, sent, htask, hcommands⟩
  · rw [hnone] at h
    exact absurd h List.not_mem_nil
  · obtain ⟨hcommand, hintent, hkey⟩ := hcommands.of_mem h
    exact ⟨hcommand, hintent, operation, htask, hkey⟩

/-- **No job is sent two commands in one turn**, if open incidents name different jobs. -/
theorem nodup_keys {turn : Turn} (h : turn.broker.partition.processor.state.Troubled) :
    (turn.appended.map (·.key)).Nodup := by
  rcases turn.appended_cases with hnone | ⟨operation, sent, -, hcommands⟩
  · rw [hnone]
    exact List.nodup_nil
  · rw [hcommands.map_key]
    exact ((h.nodup_troubledKeys _).sublist hcommands.first.sublist).map
      (Option.some_injective _)

/-- **A dispatch whose first send fails changes neither the log nor the operation.** -/
theorem stays {turn : Turn} {operation : Operation} (hready : turn.broker.Ready turn.task)
    (htask : turn.task = .dispatch operation) (hflight : turn.broker.flight? operation.id = none)
    {key : Nat} {request : CommandRequest} {rest : List (Nat × CommandRequest)}
    (hrequests : turn.broker.requestsOf operation = (key, request) :: rest) {e : PartitionError}
    (hsend : (turn.broker.send turn.broker.executor.streamId request).1 = .error e) :
    turn.after.stored? operation.id = some operation ∧ operation.state = .scheduled ∧
      turn.after.partition.records = turn.broker.partition.records := by
  obtain ⟨b, task⟩ := turn
  cases htask
  obtain ⟨hstored, hstate⟩ := hready
  dsimp only at hrequests hsend hflight hstored
  have hafter : (b.dispatch operation).2 =
      (b.send b.executor.streamId request).2 := by
    rcases b.dispatch_cases operation with ⟨flight, hsome, -⟩ | ⟨-, ⟨hnothing, -⟩ | ⟨-, h⟩⟩
    · cases hflight.symm.trans hsome
    · rw [hrequests] at hnothing
      cases hnothing
    · obtain ⟨sent, failure, c, hall, h⟩ := h
      rw [hrequests] at hall
      unfold Broker.sendAll at hall
      rcases hfirst : b.send b.executor.streamId request with ⟨_ | pending, d⟩ <;>
        rw [hfirst] at hall hsend
      · cases hall
        rcases h with ⟨_, -, heq⟩ | ⟨hsome, -⟩
        · rw [heq]
        · exact absurd rfl hsome
      · cases hsend
  show (b.dispatch operation).2.stored? operation.id = _ ∧ _ ∧
    (b.dispatch operation).2.partition.records = _
  rw [hafter]
  rcases b.send_cases b.executor.streamId request with
    ⟨_, p, gateways, heq, -, -, hlog⟩ | ⟨pending, record, p, gateways, heq, -⟩
  · rw [heq]
    exact ⟨hstored, hstate, hlog⟩
  · rw [heq] at hsend
    cases hsend

end Turn

namespace Broker

variable {b c : Broker}

/-- Collecting tasks appends nothing. -/
theorem Collects.records (h : Collects b c) : c.partition.records = b.partition.records := by
  induction h with
  | nothing => rfl
  | fetched _ _ ih => exact ih
  | @polled c _ id ih =>
      rcases c.poll_cases id with ⟨-, heq⟩ | ⟨flight, -, heq⟩ <;> rw [heq] <;> exact ih

theorem Turns.records {turns : List Turn} (h : Turns b turns c) :
    c.partition.records = b.partition.records ++ turns.flatMap Turn.appended := by
  induction h with
  | none b => exact (List.append_nil _).symm
  | @next b c turn turns hbegins _ _ ih =>
      subst hbegins
      rw [ih, turn.records_after, List.flatMap_cons, List.append_assoc]

/-- **All that a batch appends is appended in its turns.** -/
theorem records_executeBatch (b : Broker) :
    b.executeBatch.2.partition.records =
      b.partition.records ++ b.turns.flatMap Turn.appended := by
  obtain ⟨c, hcollects, hturns⟩ := b.executeBatch_turns
  rw [hturns.records, hcollects.records]

/-- An operation of a task is not at its end. -/
theorem Ready.not_ended {task : OperationTask} (h : b.Ready task) :
    ¬ b.Ended task.operation.id := by
  rintro ⟨found, hfound, hend⟩
  cases task with
  | dispatch operation =>
      cases h.1.symm.trans hfound
      rw [h.2] at hend
      cases hend
  | settle operation settlement =>
      cases h.1.symm.trans hfound
      rw [h.2.1] at hend
      cases hend

end Broker

namespace Turn

/-- What a turn is to its operation. -/
inductive Passes (turn : Turn) : Prop
  /-- Nothing departs and nothing lands; it may be given up if it has no flight. -/
  | rests (hflight : turn.after.flight? turn.id = turn.broker.flight? turn.id)
      (hnone : turn.appended = [])
      (hgives : turn.GivesUp → turn.broker.flight? turn.id = none ∧ turn.after.Ended turn.id)
  /-- It departs. -/
  | departs (hflight : turn.broker.flight? turn.id = none)
      (hboarded : turn.after.flight? turn.id ≠ none) (hsome : turn.appended ≠ [])
      (hnever : ¬ turn.GivesUp)
  /-- It lands. -/
  | lands (hflight : turn.broker.flight? turn.id ≠ none) (hnone : turn.appended = [])
      (hended : turn.after.Ended turn.id) (hnever : ¬ turn.GivesUp)

/-- What is written down of a scheduled operation, if anything, is that it was sent. -/
theorem not_givesUp {turn : Turn} {operation : Operation} {jobKeys : List Nat}
    (hstored : turn.broker.stored? operation.id = some operation)
    (hstate : operation.state = .scheduled) (htask : turn.task = .dispatch operation)
    (hwrites : Broker.Writes turn.broker turn.after (operation.sent jobKeys)) :
    ¬ turn.GivesUp := by
  rintro ⟨other, hother, stored, hafter, hfailed⟩
  have hid : turn.id = operation.id := by
    unfold Turn.id
    rw [htask]
    rfl
  rw [hid] at hafter
  rcases hwrites.stored? operation.id with hsame | ⟨-, hnew⟩
  · cases hafter.symm.trans (hsame.trans hstored)
    cases hstate.symm.trans hfailed
  · cases hafter.symm.trans hnew
    cases hfailed

/-- **Each turn is one of these.** -/
theorem passes (turn : Turn) (hready : turn.broker.Ready turn.task) : turn.Passes := by
  obtain ⟨b, task⟩ := turn
  have hdoes := Turn.does ⟨b, task⟩
  dsimp only at hdoes hready
  cases hdoes with
  | @noted operation flight hflight hkept hwrites =>
      refine .rests (Broker.flight?_congr (by rw [hkept]) _) (appended_eq_nil (by rw [hkept]))
        fun hup => absurd hup ?_
      exact not_givesUp hready.1 hready.2 rfl hwrites
  | @refused operation hflight hnothing hkept hwrites =>
      refine .rests (Broker.flight?_congr (by rw [hkept]) _) (appended_eq_nil (by rw [hkept]))
        fun hup => ⟨hflight, ?_⟩
      obtain ⟨-, -, stored, hafter, hfailed⟩ := hup
      exact ⟨stored, hafter, by rw [hfailed]; rfl⟩
  | @stuck operation hflight hsome hsend =>
      obtain ⟨failure, hsends⟩ := hsend.imp fun _ => Broker.Sends.of_eq
      have hstore : (Turn.after ⟨b, .dispatch operation⟩).store.store = b.store.store := by
        rw [hsends.kept]
      refine .rests (Broker.flight?_congr (by rw [hsends.kept]) _) ?_ fun hup => absurd hup ?_
      · exact List.forall₂_nil_left_iff.mp (commands_of_sends hsends rfl).carried
      · have hwrites : Broker.Writes b (Turn.after ⟨b, .dispatch operation⟩) (operation.sent []) :=
          .inl hstore
        exact not_givesUp hready.1 hready.2 rfl hwrites
  | @departed operation d sent hflight hsome hsend hkept hwrites =>
      obtain ⟨failure, hsends⟩ := hsend.imp fun _ => Broker.Sends.of_eq
      refine .departs hflight ?_ (fun hnone => ?_) ?_
      · have hboards : (Turn.after ⟨b, .dispatch operation⟩).flight? operation.id =
            some (Broker.launch sent) := by
          rw [hkept]
          exact (Executor.flight?_board _ _ _ _).trans (if_pos rfl)
        show (Turn.after ⟨b, .dispatch operation⟩).flight? operation.id ≠ none
        rw [hboards]
        exact Option.some_ne_none _
      · have hcommands : Turn.Commands ⟨b, .dispatch operation⟩ operation sent :=
          commands_of_sends hsends (by rw [hkept])
        have hcarried := hcommands.carried
        rw [hnone] at hcarried
        exact hsome (List.forall₂_nil_right_iff.mp hcarried)
      · exact not_givesUp hready.1 hready.2 rfl hwrites
  | @unsettled operation settlement hkept hstore =>
      refine .rests (Broker.flight?_congr (by rw [hkept]) _) (appended_eq_nil (by rw [hkept]))
        fun hup => ?_
      obtain ⟨other, hother, -⟩ := hup
      cases hother
  | @settled operation settlement hkept hupdate =>
      obtain ⟨hstored, hstate, flight, hflight, -⟩ := hready
      refine .lands (fun hnone => ?_) (appended_eq_nil (by rw [hkept])) ?_ ?_
      · cases hflight.symm.trans hnone
      · refine ⟨Broker.ended operation settlement b.now, ?_, by cases settlement <;> rfl⟩
        exact (OperationStore.update_ok hupdate _).1.trans
          (if_pos (Broker.id_ended _ _ _).symm)
      · rintro ⟨other, hother, -⟩
        cases hother

end Turn

namespace Service

variable {Rounds : Partition → Partition → Prop} {r r' : Service} {id : Uuid}
  {arrivals : List Arrival}

/-! ### The departures of an operation -/

/-- The turns of an operation. -/
def turnsOf (r : Service) (id : Uuid) : List Turn := r.turns.filter fun turn => turn.id == id

/-- The turns in which commands of an operation were sent. -/
def departures (r : Service) (id : Uuid) : List Turn :=
  (r.turnsOf id).filter fun turn => !turn.appended.isEmpty

/-- A turn of another operation is added. -/
theorem turnsOf_append {turn : Turn} (hturns : r'.turns = r.turns ++ [turn]) (hid : turn.id ≠ id) :
    r'.turnsOf id = r.turnsOf id := by
  unfold turnsOf
  rw [hturns, List.filter_append, List.filter_cons_of_neg (by simpa using hid), List.filter_nil,
    List.append_nil]

/-- A turn of the operation is added. -/
theorem departures_append {turn : Turn} (hturns : r'.turns = r.turns ++ [turn]) :
    r'.turnsOf turn.id = r.turnsOf turn.id ++ [turn] ∧ r'.departures turn.id =
      r.departures turn.id ++ if turn.appended = [] then [] else [turn] := by
  have hof : r'.turnsOf turn.id = r.turnsOf turn.id ++ [turn] := by
    unfold turnsOf
    rw [hturns, List.filter_append, List.filter_cons_of_pos (by simp), List.filter_nil]
  refine ⟨hof, ?_⟩
  unfold departures
  rw [hof, List.filter_append]
  cases happended : turn.appended <;> simp [happended]

/-- What is sent for an operation is sent once. -/
structure SentOnce (r : Service) (id : Uuid) : Prop where
  once : (r.departures id).length ≤ 1
  /-- What has a flight has departed. -/
  flown : r.broker.flight? id ≠ none → r.departures id ≠ []
  /-- What has departed has a flight until its end. -/
  aloft : r.departures id ≠ [] → r.broker.flight? id ≠ none ∨ r.broker.Ended id
  /-- What is given up has not departed and is at its end. -/
  given : ∀ turn ∈ r.turnsOf id, turn.GivesUp → r.departures id = [] ∧ r.broker.Ended id

namespace SentOnce

/-- There is one departure at most. -/
theorem departures_eq (h : r.SentOnce id) {departure : Turn} (hd : departure ∈ r.departures id) :
    r.departures id = [departure] := by
  obtain ⟨only, honly⟩ :=
    List.length_eq_one_iff.mp (Nat.le_antisymm h.once (List.length_pos_of_mem hd))
  rw [honly] at hd ⊢
  rw [List.mem_singleton.mp hd]

/-- The operation has no turn. -/
theorem kept (h : r.SentOnce id) (hturns : r'.turnsOf id = r.turnsOf id)
    (hflight : r'.broker.flight? id = none ↔ r.broker.flight? id = none)
    (hended : r.broker.Ended id → r'.broker.Ended id) : r'.SentOnce id := by
  have hdepartures : r'.departures id = r.departures id := by
    unfold departures
    rw [hturns]
  obtain ⟨honce, hflown, haloft, hgiven⟩ := h
  refine ⟨hdepartures ▸ honce, fun hsome => ?_, fun hsome => ?_, fun turn ht hup => ?_⟩
  · rw [hdepartures]
    exact hflown (mt hflight.mpr hsome)
  · rw [hdepartures] at hsome
    exact (haloft hsome).imp (mt hflight.mp) hended
  · rw [hturns] at ht
    rw [hdepartures]
    exact ⟨(hgiven turn ht hup).1, hended (hgiven turn ht hup).2⟩

/-- The operation is as it was stored. -/
theorem same (h : r.SentOnce id) (hturns : r'.turnsOf id = r.turnsOf id)
    (hflight : r'.broker.flight? id = r.broker.flight? id)
    (hstored : r'.broker.stored? id = r.broker.stored? id) : r'.SentOnce id := by
  refine h.kept hturns (by rw [hflight]) fun hended => ?_
  unfold Broker.Ended
  rw [hstored]
  exact hended

/-- **A turn of the operation.** -/
theorem turn (h : r.SentOnce id) {turn : Turn} (hid : turn.id = id) (hpasses : turn.Passes)
    (hready : turn.broker.Ready turn.task) (hbegins : r.broker = turn.broker)
    (hends : r'.broker = turn.after) (hturns : r'.turns = r.turns ++ [turn]) : r'.SentOnce id := by
  subst hid
  obtain ⟨honce, hflown, haloft, hgiven⟩ := h
  rw [hbegins] at hflown haloft hgiven
  have hlive : ¬ turn.broker.Ended turn.id := hready.not_ended
  obtain ⟨hof, hdepartures⟩ := departures_append hturns
  have hquiet : turn.appended = [] → r'.departures turn.id = r.departures turn.id := by
    intro hnone
    rw [hdepartures, if_pos hnone, List.append_nil]
  -- Without a flight nothing has departed, as the operation is not at its end.
  have hground : turn.broker.flight? turn.id = none → r.departures turn.id = [] := by
    intro hnone
    by_contra hsome
    exact (haloft hsome).elim (fun hflight => hflight hnone) hlive
  have hall : (turn.GivesUp → r'.departures turn.id = [] ∧ turn.after.Ended turn.id) →
      ∀ other ∈ r'.turnsOf turn.id, other.GivesUp →
        r'.departures turn.id = [] ∧ r'.broker.Ended turn.id := by
    intro hgives other ho hup
    rw [hof] at ho
    rw [hends]
    rcases List.mem_append.mp ho with hold | hnew
    · exact absurd (hgiven other hold hup).2 hlive
    · cases List.mem_singleton.mp hnew
      exact hgives hup
  cases hpasses with
  | rests hflight hnone hgives =>
      have hsame := hquiet hnone
      refine ⟨hsame ▸ honce, fun hsome => ?_, fun hsome => ?_, hall fun hup => ?_⟩
      · rw [hsame]
        rw [hends, hflight] at hsome
        exact hflown hsome
      · rw [hsame] at hsome
        rw [hends, hflight]
        exact .inl ((haloft hsome).resolve_right hlive)
      · obtain ⟨hnoflight, hended⟩ := hgives hup
        exact ⟨hsame.trans (hground hnoflight), hended⟩
  | departs hflight hboarded hsome hnever =>
      rw [hground hflight, if_neg hsome, List.nil_append] at hdepartures
      refine ⟨by rw [hdepartures]; exact Nat.le_refl 1, fun _ => ?_, fun _ => .inl ?_,
        hall fun hup => absurd hup hnever⟩
      · rw [hdepartures]
        exact List.cons_ne_nil _ _
      · rw [hends]
        exact hboarded
  | lands hflight hnone hended hnever =>
      have hsame := hquiet hnone
      refine ⟨hsame ▸ honce, fun _ => hsame ▸ hflown hflight, fun _ => .inr (hends ▸ hended),
        hall fun hup => absurd hup hnever⟩

/-- **One step.** -/
theorem step (h : r.SentOnce id) (hstep : Step Rounds r arrivals r') : r'.SentOnce id := by
  cases hstep with
  | noted => exact h.same rfl rfl rfl
  | rounds hrounds => exact h.same rfl rfl rfl
  | sent streamId request =>
      exact h.same rfl (Broker.flight?_congr (r.broker.executor_send _ _) id)
        (Broker.stored?_congr (congrArg _ (r.broker.store_send _ _)) id)
  | took hheld => exact h.same rfl rfl rfl
  | arrived harrival => exact h.same rfl rfl rfl
  | connected store hstore => exact h.same rfl rfl (Broker.stored?_congr hstore id)
  | scheduled request =>
      have hflight : (r.broker.schedule request).2.flight? id = r.broker.flight? id :=
        Broker.flight?_congr (r.broker.executor_schedule request) id
      refine h.kept rfl (iff_of_eq (congrArg (· = none) hflight)) fun ⟨operation, ho, hend⟩ => ?_
      rcases r.broker.stored?_schedule request id with hsame | ⟨hnone, -⟩
      · exact ⟨operation, hsame.trans ho, hend⟩
      · cases hnone.symm.trans ho
  | polled other =>
      have hstored : (r.broker.poll other).2.stored? id = r.broker.stored? id :=
        Broker.stored?_congr (congrArg _ (r.broker.store_poll other)) id
      refine h.kept rfl ?_ fun ⟨operation, ho, hend⟩ => ⟨operation, hstored.trans ho, hend⟩
      rcases r.broker.flight?_poll other id with ⟨hold, hnew⟩ | ⟨flight, polled, hold, hnew, -⟩
      · exact ⟨fun _ => hold, fun _ => hnew⟩
      · rw [hold]
        exact iff_of_false (fun hnone => by cases hnew.symm.trans hnone) (Option.some_ne_none _)
  | @turn task hready =>
      by_cases hid : task.operation.id = id
      · have hpasses : Turn.Passes ⟨r.broker, task⟩ := Turn.passes _ hready
        refine h.turn ?_ hpasses hready rfl rfl rfl
        exact hid
      · obtain ⟨hstored, hflight⟩ := (r.broker.perform_does task).others (Ne.symm hid)
        exact h.same (turnsOf_append rfl hid) hflight hstored

theorem steps (h : r.SentOnce id) (hsteps : Steps Rounds r arrivals r') : r'.SentOnce id := by
  induction hsteps with
  | refl => exact h
  | head hstep _ ih => exact ih (h.step hstep)

end SentOnce

/-- At the start there are neither flights nor turns. -/
theorem sentOnce_of_open {site : Site} {settings : BrokerSettings} {b : Broker}
    (hopen : Broker.open site settings = .ok b) (id : Uuid) :
    SentOnce { broker := b } id where
  once := Nat.zero_le 1
  flown := fun hsome => absurd (flight?_of_open hopen id) hsome
  aloft := fun hsome => absurd rfl hsome
  given := fun _ ht => absurd ht List.not_mem_nil

/-! ### All turns -/

/-- All turns are of tasks that are ready. -/
theorem Steps.all_ready (h : Steps Rounds r arrivals r')
    (hready : ∀ turn ∈ r.turns, turn.broker.Ready turn.task) :
    ∀ turn ∈ r'.turns, turn.broker.Ready turn.task := by
  induction h with
  | refl => exact hready
  | head hstep _ ih =>
      refine ih ?_
      cases hstep with
      | turn hfirst =>
          exact List.forall_mem_append.mpr ⟨hready, List.forall_mem_singleton.mpr hfirst⟩
      | _ => exact hready

/-- What an engine keeps when it is reset and when it is applied to commands holds in all turns. -/
theorem Steps.engine {invariant : Processor → Prop}
    (hreset : ∀ engine, invariant engine → invariant engine.reset)
    (happly : ∀ engine command, invariant engine → invariant (engine.apply command).2)
    (h : Steps Partition.Changes r arrivals r')
    (hnow : invariant r.broker.partition.processor)
    (hturns : ∀ turn ∈ r.turns, invariant turn.broker.partition.processor) :
    ∀ turn ∈ r'.turns, invariant turn.broker.partition.processor := by
  induction h with
  | refl => exact hturns
  | @head r _ _ _ _ hstep _ ih =>
      -- Only rounds change the engine.
      have hkeeps : ∀ p : Partition, p.processor = r.broker.partition.processor →
          invariant p.processor := fun p hsame => hsame ▸ hnow
      cases hstep with
      | noted => exact ih hnow hturns
      | rounds hrounds => exact ih (hrounds.engine_induction hreset happly hnow) hturns
      | sent streamId request =>
          refine ih (hkeeps _ ?_) hturns
          show (r.broker.send streamId request).2.partition.processor = _
          rcases r.broker.send_cases streamId request with
            ⟨e, p, gateways, heq, hsame, -⟩ | ⟨pending, record, p, gateways, heq, hsame, -⟩ <;>
            rw [heq] <;> exact hsame
      | took hheld => exact ih (hkeeps _ (Arrival.run_processor _ _)) hturns
      | arrived harrival => exact ih (hkeeps _ (Arrival.run_processor _ _)) hturns
      | connected store hstore => exact ih hnow hturns
      | scheduled request =>
          exact ih (hkeeps _ (congrArg _ (r.broker.partition_schedule request))) hturns
      | polled id =>
          refine ih (hkeeps _ ?_) hturns
          dsimp only
          rcases r.broker.poll_cases id with ⟨-, heq⟩ | ⟨flight, -, heq⟩
          · rw [heq]
          · rw [heq]
            rfl
      | @turn task hready =>
          exact ih (hkeeps _ (r.broker.perform_does task).partition.1)
            (List.forall_mem_append.mpr ⟨hturns, List.forall_mem_singleton.mpr hnow⟩)

/-- Open incidents name different jobs in all turns. -/
theorem Steps.all_troubled {site : Site} {settings : BrokerSettings} {b : Broker}
    (hopen : Broker.open site settings = .ok b) (hcareful : settings.registry.Careful)
    (h : Steps Partition.Changes { broker := b } arrivals r') :
    ∀ turn ∈ r'.turns, turn.broker.partition.processor.state.Troubled := by
  let invariant : Processor → Prop := fun engine =>
    engine.registry = settings.registry ∧ engine.state.Troubled
  have hreset : ∀ engine, invariant engine → invariant engine.reset :=
    fun engine h => ⟨h.1, EngineState.troubled_initial _⟩
  have happly : ∀ engine command, invariant engine → invariant (engine.apply command).2 :=
    fun engine command h => ⟨h.1, Processor.troubled_apply (h.1 ▸ hcareful) h.2 command⟩
  have hstart : invariant b.partition.processor :=
    Partition.Changes.engine_induction hreset happly
      (.single (Partition.changes_of_open (parts_of_open hopen).1))
      ⟨rfl, EngineState.troubled_initial _⟩
  have hall := h.engine hreset happly hstart fun _ ht => absurd ht List.not_mem_nil
  exact fun turn ht => (hall turn ht).2

/-! ### The main result -/

/-- **The commands of an operation are sent at most once**, in every run, whatever is refused in it
and however often rounds are repeated.  All that the executor appends it appends in turns, and that
is commands to update the retries of jobs with open incidents, for an operation that is dispatched.
An operation has one turn at most in which commands are sent for it, and no turn sends a job two of
them, unless a handler that is not built in meddles with jobs or incidents.  An operation that
commands were sent for is never given up for having nothing to send.  A dispatch whose first send
fails leaves the operation scheduled and the log as it was. -/
theorem sent_once {site : Site} {settings : BrokerSettings} {b : Broker}
    (hopen : Broker.open site settings = .ok b) (actions : List ServiceAction) :
    let r := Service.runAll { broker := b } actions
    (∀ moment ∈ r.past ++ [r.broker], moment.executeBatch.2.partition.records =
      moment.partition.records ++ moment.turns.flatMap Turn.appended) ∧
    (∀ turn ∈ r.turns,
      (∀ record ∈ turn.appended, record.isCommand = true ∧ record.intent = .job .updateRetries ∧
        ∃ operation, turn.task = .dispatch operation ∧
          ∃ key ∈ Broker.troubledKeys turn.broker.partition operation.targetKey,
            record.key = some key) ∧
      (settings.registry.Careful → (turn.appended.map (·.key)).Nodup) ∧
      ∀ operation key request rest e, turn.task = .dispatch operation →
        turn.broker.flight? operation.id = none →
        turn.broker.requestsOf operation = (key, request) :: rest →
        (turn.broker.send turn.broker.executor.streamId request).1 = .error e →
          turn.after.stored? operation.id = some operation ∧ operation.state = .scheduled ∧
            turn.after.partition.records = turn.broker.partition.records) ∧
    ∀ id, (r.departures id).length ≤ 1 ∧
      (r.departures id ≠ [] → ∀ turn ∈ r.turnsOf id, ¬ turn.GivesUp) := by
  intro r
  obtain ⟨arrivals, -, hsteps⟩ := runAll_steps actions { broker := b }
  refine ⟨fun moment _ => moment.records_executeBatch, fun turn ht => ?_, fun id => ?_⟩
  · have hready := hsteps.all_ready (fun _ ht => absurd ht List.not_mem_nil) turn ht
    refine ⟨fun record hr => Turn.of_mem_appended hr, fun hcareful => ?_, ?_⟩
    · exact Turn.nodup_keys (hsteps.all_troubled hopen hcareful turn ht)
    · intro operation key request rest e htask hflight hrequests hsend
      exact Turn.stays hready htask hflight hrequests hsend
  · have hsent := (sentOnce_of_open hopen id).steps hsteps
    exact ⟨hsent.once, fun hsome turn ht hup => hsome (hsent.given turn ht hup).1⟩

/-- What is sent for an operation is not written down at first, and its incidents are resolved
before the executor looks at it again. -/
def unrecorded : List ServiceAction :=
  BrokerRun.exhaustingRequests.map .submit ++
    [.processUntilIdle 3, .event (.schedule ⟨[{}], .updateRetries⟩),
      .event (.storeOutage .none .none (.window 0 1)), .event .execute, .processUntilIdle 3,
      .event .execute, .event .execute]

theorem sent_once_unrecorded :
    let r := Service.runAll { broker := BrokerRun.fresh } unrecorded
    ∃ operation ∈ r.broker.store.store.entries, operation.state = .completed ∧
      (r.turnsOf operation.id).length = 3 ∧ (∀ turn ∈ r.turnsOf operation.id, ¬ turn.GivesUp) ∧
      ∃ departure, r.departures operation.id = [departure] ∧
        departure.appended.length = 2 ∧ (departure.appended.map (·.key)).Nodup := by
  intro r
  have hrun : ∃ operation ∈ r.broker.store.store.entries, operation.state = .completed ∧
      (r.turnsOf operation.id).length = 3 ∧ (r.departures operation.id).length = 1 ∧
      (r.departures operation.id).map (·.appended.length) = [2] := by decide +kernel
  obtain ⟨operation, ho, hcompleted, hturns, hone, htwo⟩ := hrun
  obtain ⟨-, hall, hsent⟩ := sent_once BrokerRun.open_fresh unrecorded
  obtain ⟨departure, hdeparture⟩ := List.length_eq_one_iff.mp hone
  have hmem : departure ∈ r.turns :=
    List.mem_of_mem_filter (List.mem_of_mem_filter
      (show departure ∈ r.departures operation.id from hdeparture ▸ List.mem_cons_self))
  refine ⟨operation, ho, hcompleted, hturns, (hsent operation.id).2 ?_, departure, hdeparture, ?_,
    (hall departure hmem).2.1 Registry.careful_builtin⟩
  · rw [hdeparture]
    exact List.cons_ne_nil _ _
  · rw [hdeparture] at htwo
    exact List.head_eq_of_cons_eq htwo

end Service

end Workflow
