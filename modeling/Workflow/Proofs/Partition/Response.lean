/-
Which response a request receives.

A response is delivered by the name of the request, and the name is also written on the command.
Names are unique among the requests that wait, but not among the commands of a log: a gateway
numbers its requests from one again when the partition is opened again, while the commands that an
earlier opening left behind are still in the log under their old names.

What can answer a request is therefore its own command and its rivals: the commands of the same
name that stand in the log when it is sent and that may still be applied, which are those after
the last command with follow-ups.  Without rivals a request receives the response to its own
command or none, in whatever way the run goes on (`Tracked.moves`).  With a rival there is a
way to go on in which it receives the response to the first of them.
-/
import Workflow.Proofs.Partition.Run

namespace Workflow

namespace Processor

/-- The response to a command goes to the request that the command names. -/
theorem correlation_of_response {processor : Processor} (hbuiltin : processor.registry = .builtin)
    {command : Record} {response : Response}
    (h : (processor.apply command).1.response = some response) :
    command.correlation = some response.correlation := by
  by_cases hcommand : command.isCommand
  · rw [apply_command hbuiltin hcommand] at h
    dsimp only at h
    unfold Decision.response at h
    rw [Option.map_eq_some_iff] at h
    obtain ⟨correlation, hcorrelation, rfl⟩ := h
    rw [Decision.correlation_responseTo]
    exact hcorrelation
  · rw [apply_of_not_command (by simpa using hcommand)] at h
    cases h

end Processor

namespace ResponseRouter

variable {router : ResponseRouter} {response : Response} {entry : Nat × Response}

/-- No request waits that did not, and no response is there that was not. -/
structure Narrows (router later : ResponseRouter) : Prop where
  issued : router.issued ≤ later.issued
  waiting : ∀ entry ∈ later.waiting, entry ∈ router.waiting
  delivered : ∀ entry ∈ later.delivered, entry ∈ router.delivered

theorem Narrows.refl (router : ResponseRouter) : Narrows router router :=
  ⟨Nat.le_refl _, fun _ he => he, fun _ he => he⟩

theorem narrows_take (router : ResponseRouter) (ticket : Nat) :
    Narrows router (router.take ticket).2 := by
  unfold take
  cases router.delivered.lookup ticket with
  | some response => exact ⟨Nat.le_refl _, fun _ he => he, fun _ he => List.mem_of_mem_filter he⟩
  | none => exact .refl router

theorem narrows_spent (router : ResponseRouter) : Narrows router router.spent :=
  ⟨Nat.le_succ _, fun _ he => he, fun _ he => he⟩

theorem narrows_dropWaiting (router : ResponseRouter) : Narrows router router.dropWaiting :=
  ⟨Nat.le_refl _, fun _ he => absurd he List.not_mem_nil, fun _ he => he⟩

/-- Delivering a response lets no request wait that did not. -/
theorem deliver_router (router : ResponseRouter) (response : Response) :
    (router.deliver response).issued = router.issued ∧
      ∀ entry ∈ (router.deliver response).waiting, entry ∈ router.waiting := by
  unfold deliver
  cases router.waiting.lookup response.correlation with
  | none => exact ⟨rfl, fun entry he => he⟩
  | some ticket => exact ⟨rfl, fun entry he => List.mem_of_mem_filter he⟩

/-- What a delivery adds is the response, for a request of its name that waits. -/
theorem mem_delivered_deliver (he : entry ∈ (router.deliver response).delivered) :
    entry ∈ router.delivered ∨
      entry.2 = response ∧ (response.correlation, entry.1) ∈ router.waiting := by
  unfold deliver at he
  cases hlookup : router.waiting.lookup response.correlation with
  | none =>
      rw [hlookup] at he
      exact .inl he
  | some ticket =>
      rw [hlookup] at he
      rcases List.mem_cons.mp he with hself | hold
      · obtain ⟨before, after, hsplit, -⟩ := List.lookup_eq_some_iff.mp hlookup
        rw [hself, hsplit]
        exact .inr ⟨rfl, List.mem_append_right _ List.mem_cons_self⟩
      · exact .inl hold

end ResponseRouter

namespace Partition

variable {evaluator : Evaluator} {p q : Partition}

/-- Answering a command lets no request wait that did not. -/
theorem answered_router (p : Partition) (command : Record) :
    (p.answered command).issued = p.host.router.issued ∧
      ∀ entry ∈ (p.answered command).waiting, entry ∈ p.host.router.waiting := by
  unfold answered
  cases (p.processor.apply command).1.response with
  | none => exact ⟨rfl, fun entry he => he⟩
  | some response => exact p.host.router.deliver_router response

/-- It adds the response to the command, for a request of its name that waits. -/
theorem mem_delivered_answered {command : Record} {entry : Nat × Response}
    (he : entry ∈ (p.answered command).delivered) :
    entry ∈ p.host.router.delivered ∨
      (p.processor.apply command).1.response = some entry.2 ∧
        (entry.2.correlation, entry.1) ∈ p.host.router.waiting := by
  unfold answered at he
  cases hresponse : (p.processor.apply command).1.response with
  | none =>
      rw [hresponse] at he
      exact .inl he
  | some response =>
      rw [hresponse] at he
      rcases ResponseRouter.mem_delivered_deliver he with hold | ⟨hself, hwaits⟩
      · exact .inl hold
      · rw [hself]
        exact .inr ⟨rfl, hwaits⟩

/-! ### What a move does to the requests -/

/-- **What a move does to the requests.**  A request arrives, the next command is answered, or
neither happens and no command with a name comes to the log. -/
inductive Exchange (p q : Partition) : Prop
  /-- Neither happens. -/
  | narrowed (hrouter : ResponseRouter.Narrows p.host.router q.host.router) (drafts : List Draft)
      (hlog : q.records = p.records ++ Log.numbered (p.host.link.log.size + 1) drafts)
      (hnameless : ∀ draft ∈ drafts, draft.correlation = none)
  /-- A request arrives, and waits. -/
  | asked (request : CommandRequest) (correlation : Correlation)
      (hfree : p.host.router.waiting.lookup correlation = none)
      (hrouter : q.host.router = p.host.router.awaiting correlation)
      (hlog : q.records = p.records ++ Log.numbered (p.host.link.log.size + 1)
        [(request.toDraft.withCorrelation correlation).withTimestamp p.now])
  /-- The next command is answered. -/
  | answered (command : Record) (rest : List Record) (hcurrent : p.cursor.needsRecovery = false)
      (hnext : p.unapplied = command :: rest) (hrouter : q.host.router = p.answered command)
      (hlog : q.records = p.records ++ Log.numbered (p.host.link.log.size + 1)
        (p.processor.apply command).1.followUps)

theorem Move.exchange (h : Sourced evaluator p) (hid : p.config.partitionId ≤ maxPartitionId)
    (hmove : Move evaluator p q) : Exchange p q := by
  have hnothing : ∀ {q : Partition}, ResponseRouter.Narrows p.host.router q.host.router →
      q.records = p.records → Exchange p q := by
    intro q hrouter hlog
    refine .narrowed hrouter [] ?_ fun draft hd => absurd hd List.not_mem_nil
    rw [hlog]
    exact (List.append_nil _).symm
  cases hmove with
  | outside clock hrecords => exact hnothing (.refl _) hrecords
  | take pending => exact hnothing (p.host.router.narrows_take _) rfl
  | submit request correlation =>
      rcases p.submit_cases request correlation with
        ⟨e, heq⟩ | ⟨link, -, hfree, ⟨e, heq, hlog⟩ | ⟨heq, hlog⟩⟩
      · rw [heq]
        exact hnothing (.refl _) rfl
      · rw [heq]
        exact hnothing p.host.router.narrows_spent hlog
      · rw [heq]
        exact .asked request correlation hfree rfl hlog
  | submitInternal request =>
      obtain ⟨link, -, heq, hlog | hlog⟩ := p.submitInternal_cases request
      · rw [heq]
        exact hnothing (.refl _) hlog
      · rw [heq]
        refine .narrowed (.refl _) _ hlog fun draft hd => ?_
        rw [List.mem_singleton.mp hd]
        rfl
  | timers =>
      obtain ⟨link, -, ⟨e, heq, hlog⟩ | ⟨heq, hlog⟩⟩ := checkDueTimers_cases h.calm
      · rw [heq]
        exact hnothing (.refl _) hlog
      · rw [heq]
        refine .narrowed (.refl _) _ hlog fun draft hd => ?_
        obtain ⟨timer, -, rfl⟩ := List.mem_map.mp hd
        rfl
  | leases =>
      obtain ⟨link, -, ⟨e, heq, hlog⟩ | ⟨heq, hlog⟩⟩ := sweepExpiredLeases_cases h.calm
      · rw [heq]
        exact hnothing (.refl _) hlog
      · rw [heq]
        refine .narrowed (.refl _) _ hlog fun draft hd => ?_
        obtain ⟨entry, hentry, rfl⟩ := List.mem_map.mp hd
        obtain ⟨-, job, -, hdraft⟩ := mem_swept hentry
        rw [hdraft]
        rfl
  | @apply command rest hcurrent hnext =>
      obtain ⟨link, -, ⟨e, heq, hlog⟩ | ⟨heq, hlog⟩⟩ := applyCommand_cases h.calm command
      · rw [heq]
        exact hnothing (.refl _) hlog
      · rw [heq]
        exact .answered command rest hcurrent hnext (p.advanced_router link command)
          ((p.advanced_records link command).trans hlog)
  | recover =>
      obtain ⟨calls, heq⟩ := h.recover_eq rfl h.readable h.reset
      rw [heq]
      exact hnothing (.refl _) rfl
  | reopen config hsame hopen =>
      obtain ⟨calls, heq⟩ := h.open_eq hid hsame
      rw [heq] at hopen
      cases hopen
      exact hnothing p.host.router.narrows_dropWaiting rfl

/-! ### Rivals -/

/-- The commands of the log before a position. -/
def commandsBefore (p : Partition) (position : Nat) : List Record :=
  p.records.filter fun record => record.isCommand && decide (record.position < position)

/-- The response that a command has when the commands of the log are applied in order. -/
def responseTo (evaluator : Evaluator) (p : Partition) (command : Record) : Option Response :=
  (((p.initialEngine evaluator).after (p.commandsBefore command.position)).apply
    command).1.response

/-- What a command leads to when the commands of the log are applied in order. -/
def outcomeOf (evaluator : Evaluator) (p : Partition) (command : Record) : Outcome :=
  (((p.initialEngine evaluator).after (p.commandsBefore command.position)).apply command).1

/-- The commands of a name that may still be applied. -/
def rivals (p : Partition) (correlation : Correlation) : List Record :=
  p.records.filter fun record =>
    record.isCommand && record.correlation == some correlation &&
      decide ((Recovery.lastSource? p.records).getD 0 < record.position)

theorem mem_rivals_iff {correlation : Correlation} {record : Record} :
    record ∈ p.rivals correlation ↔ record ∈ p.records ∧ record.isCommand = true ∧
      record.correlation = some correlation ∧
      (Recovery.lastSource? p.records).getD 0 < record.position := by
  simp [rivals, List.mem_filter, and_assoc]

/-! ### The log grows -/

theorem lastSource_mono (records more : List Record) :
    (Recovery.lastSource? records).getD 0 ≤ (Recovery.lastSource? (records ++ more)).getD 0 := by
  cases hlast : Recovery.lastSource? records with
  | none => exact Nat.zero_le _
  | some last =>
      obtain ⟨record, hr, hs⟩ := Recovery.exists_of_lastSource hlast
      obtain ⟨later, hlater, hle⟩ :=
        Recovery.le_lastSource (List.mem_append_left more hr) hs
      rw [hlater]
      exact hle

/-- What came later stands at later positions. -/
theorem Sourced.position_of_new (hq : Sourced evaluator q) {more : List Record}
    (hlog : q.records = p.records ++ more) {record : Record} (hr : record ∈ more) :
    p.records.length < record.position := by
  obtain ⟨i, hi, rfl⟩ := List.getElem_of_mem hr
  have hindex : p.records.length + i < q.records.length := by
    rw [hlog, List.length_append]
    omega
  have hpos : (q.records[p.records.length + i]).position = p.records.length + i + 1 :=
    hq.numbered.position_getElem hindex
  have hget : q.records[p.records.length + i] = more[i] := by
    simp only [hlog]
    rw [List.getElem_append_right (by omega)]
    simp only [Nat.add_sub_cancel_left]
  rw [hget] at hpos
  omega

/-- What a command leads to does not change when the log grows. -/
theorem outcomeOf_eq (hq : Sourced evaluator q) (hid : q.config.partitionId = p.config.partitionId)
    (hfront : p.records <+: q.records) {command : Record}
    (hpos : command.position ≤ p.records.length) :
    outcomeOf evaluator q command = outcomeOf evaluator p command := by
  obtain ⟨more, hlog⟩ := hfront
  have hengine : q.initialEngine evaluator = p.initialEngine evaluator := by
    unfold initialEngine
    rw [hid]
  have hbefore : q.commandsBefore command.position = p.commandsBefore command.position := by
    have hnone : (more.filter fun record =>
        record.isCommand && decide (record.position < command.position)) = [] := by
      refine List.filter_eq_nil_iff.mpr fun record hr => ?_
      have hlate := hq.position_of_new hlog.symm hr
      have hnot : ¬ record.position < command.position := by omega
      simp [hnot]
    unfold commandsBefore
    rw [← hlog, List.filter_append, hnone, List.append_nil]
  unfold outcomeOf
  rw [hengine, hbefore]

/-- What it is answered with neither. -/
theorem responseTo_eq (hq : Sourced evaluator q) (hid : q.config.partitionId = p.config.partitionId)
    (hfront : p.records <+: q.records) {command : Record}
    (hpos : command.position ≤ p.records.length) :
    responseTo evaluator q command = responseTo evaluator p command :=
  congrArg Outcome.response (outcomeOf_eq hq hid hfront hpos)

/-- The commands before one are those in front of it. -/
theorem commandsBefore_eq (hnum : p.host.link.log.Numbered) {command : Record}
    {before after : List Record}
    (hsplit : p.records.filter Record.isCommand = before ++ command :: after) :
    p.commandsBefore command.position = before := by
  have hpairs : (p.records.filter Record.isCommand).Pairwise fun a b => a.position < b.position :=
    hnum.pairwise.sublist List.filter_sublist
  rw [hsplit, List.pairwise_append, List.pairwise_cons] at hpairs
  obtain ⟨-, ⟨hafter, -⟩, hbefore⟩ := hpairs
  have hfilter : p.commandsBefore command.position =
      (p.records.filter Record.isCommand).filter fun r =>
        decide (r.position < command.position) := by
    rw [List.filter_filter]
    exact List.filter_congr fun r _ => Bool.and_comm _ _
  rw [hfilter, hsplit, List.filter_append, List.filter_cons,
    List.filter_eq_self.mpr fun other ho =>
      decide_eq_true (hbefore other ho command List.mem_cons_self),
    List.filter_eq_nil_iff.mpr fun other ho => ?_]
  · simp
  · have hnot := Nat.lt_asymm (hafter other ho)
    simp [hnot]

/-- The next command leads to what it leads to in the log. -/
theorem Sourced.outcomeOf_next (h : Sourced evaluator p)
    (hcurrent : p.cursor.needsRecovery = false) {command : Record} {rest : List Record}
    (hnext : p.unapplied = command :: rest) :
    outcomeOf evaluator p command = (p.processor.apply command).1 := by
  have hsplit := commands_eq h.numbered
  rw [hnext] at hsplit
  unfold outcomeOf
  rw [commandsBefore_eq h.numbered hsplit, ← h.current hcurrent]

/-- And it is answered with the response that it has in the log. -/
theorem Sourced.responseTo_next (h : Sourced evaluator p)
    (hcurrent : p.cursor.needsRecovery = false) {command : Record} {rest : List Record}
    (hnext : p.unapplied = command :: rest) :
    responseTo evaluator p command = (p.processor.apply command).1.response :=
  congrArg Outcome.response (h.outcomeOf_next hcurrent hnext)

/-- The log holds what an applied command leads to. -/
theorem Sourced.followUpsOf_applied (h : Sourced evaluator p) {command : Record}
    (hc : command ∈ p.applied) :
    Recovery.followUpsOf p.records command.position =
      (outcomeOf evaluator p command).followUps := by
  obtain ⟨before, after, hsplit⟩ := List.append_of_mem hc
  have hcommands := commands_eq h.numbered
  rw [hsplit, List.append_assoc, List.cons_append] at hcommands
  have hall := h.followUps
  rw [hsplit, Processor.outcomes_append, List.map_append, List.map_append] at hall
  obtain ⟨-, hlater⟩ := List.append_inj hall (by simp)
  unfold outcomeOf
  rw [commandsBefore_eq h.numbered hcommands]
  exact (List.cons.inj hlater).1

/-! ### One ticket -/

/-- Tickets are handed out in ascending order. -/
structure Ticketed (router : ResponseRouter) : Prop where
  waiting : ∀ entry ∈ router.waiting, entry.2 < router.issued
  delivered : ∀ entry ∈ router.delivered, entry.1 < router.issued

/-- What is known about the ticket of a request: only the candidates can answer it. -/
structure Tracked (evaluator : Evaluator) (p : Partition) (ticket : Nat)
    (correlation : Correlation) (candidates : List Record) : Prop where
  /-- It was handed out. -/
  issued : ticket < p.host.router.issued
  /-- The candidates are in the log. -/
  known : ∀ command ∈ candidates, command ∈ p.records
  /-- A response that has come is the one of a candidate. -/
  delivered : ∀ response, (ticket, response) ∈ p.host.router.delivered →
    ∃ command ∈ candidates, responseTo evaluator p command = some response
  /-- While the request waits, the commands of its name that may be applied are candidates. -/
  waiting : ∀ name, (name, ticket) ∈ p.host.router.waiting →
    name = correlation ∧ ∀ command ∈ p.rivals correlation, command ∈ candidates

section Tracked

variable {ticket : Nat} {correlation : Correlation} {candidates : List Record}

/-- A step that tells the ticket nothing but responses of candidates, and that brings no command
of the name while the request waits. -/
theorem Tracked.extend (h : Tracked evaluator p ticket correlation candidates)
    (hp : Sourced evaluator p) (hq : Sourced evaluator q)
    (hid : q.config.partitionId = p.config.partitionId) (hfront : p.records <+: q.records)
    (hissued : p.host.router.issued ≤ q.host.router.issued)
    (hdelivered : ∀ response, (ticket, response) ∈ q.host.router.delivered →
      (ticket, response) ∈ p.host.router.delivered ∨
        ∃ command ∈ candidates, responseTo evaluator p command = some response)
    (hwaiting : ∀ name, (name, ticket) ∈ q.host.router.waiting →
      (name, ticket) ∈ p.host.router.waiting ∧
        ∀ command ∈ q.rivals correlation, command ∈ p.records) :
    Tracked evaluator q ticket correlation candidates := by
  have hkeep : ∀ command ∈ candidates, ∀ response,
      responseTo evaluator p command = some response →
        responseTo evaluator q command = some response := by
    intro command hc response hresponse
    rw [responseTo_eq hq hid hfront (hp.numbered.position_le (h.known command hc))]
    exact hresponse
  obtain ⟨more, hlog⟩ := hfront
  refine ⟨Nat.lt_of_lt_of_le h.issued hissued, ?_, ?_, ?_⟩
  · intro command hc
    rw [← hlog]
    exact List.mem_append_left _ (h.known command hc)
  · intro response hr
    rcases hdelivered response hr with hold | ⟨command, hc, hresponse⟩
    · obtain ⟨command, hc, hresponse⟩ := h.delivered response hold
      exact ⟨command, hc, hkeep command hc response hresponse⟩
    · exact ⟨command, hc, hkeep command hc response hresponse⟩
  · intro name hname
    obtain ⟨hold, hrivals⟩ := hwaiting name hname
    obtain ⟨hsame, hcandidates⟩ := h.waiting name hold
    refine ⟨hsame, fun command hc => hcandidates command ?_⟩
    have hmem := mem_rivals_iff.mp hc
    have hmono := lastSource_mono p.records more
    rw [hlog] at hmono
    exact mem_rivals_iff.mpr ⟨hrivals command hc, hmem.2.1, hmem.2.2.1,
      Nat.lt_of_le_of_lt hmono hmem.2.2.2⟩

/-- Records that are no commands of the name are no rivals. -/
theorem mem_of_mem_rivals {drafts : List Draft} {position : Nat}
    (hlog : q.records = p.records ++ Log.numbered position drafts)
    (hothers : ∀ draft ∈ drafts, draft.kind = .command → draft.correlation ≠ some correlation) :
    ∀ command ∈ q.rivals correlation, command ∈ p.records := by
  intro command hc
  obtain ⟨hmem, hcommand, hname, -⟩ := mem_rivals_iff.mp hc
  rw [hlog, List.mem_append] at hmem
  rcases hmem with hold | hnew
  · exact hold
  · have hdraft := Log.toDraft_mem_of_mem_numbered hnew
    exact absurd hname (hothers _ hdraft (by simpa [Record.isCommand] using hcommand))

/-- A response goes to the ticket only if the command is a candidate. -/
theorem Tracked.answered (h : Tracked evaluator p ticket correlation candidates)
    (hp : Sourced evaluator p) (hcurrent : p.cursor.needsRecovery = false) {command : Record}
    {rest : List Record} (hnext : p.unapplied = command :: rest) {response : Response}
    (hr : (ticket, response) ∈ (p.answered command).delivered) :
    (ticket, response) ∈ p.host.router.delivered ∨
      ∃ command ∈ candidates, responseTo evaluator p command = some response := by
  rcases mem_delivered_answered hr with hold | ⟨hresponse, hwaits⟩
  · exact .inl hold
  · obtain ⟨hsame, hcandidates⟩ := h.waiting _ hwaits
    have hmem : command ∈ p.unapplied := hnext ▸ List.mem_cons_self
    obtain ⟨hrecord, hcommand, -⟩ := mem_unapplied_iff.mp hmem
    have hname : command.correlation = some correlation := by
      rw [Processor.correlation_of_response hp.builtin hresponse, hsame]
    have hlate : (Recovery.lastSource? p.records).getD 0 < command.position :=
      Nat.lt_of_le_of_lt hp.lastSource_le (lt_of_mem_unapplied hp.numbered hmem)
    have hrival := mem_rivals_iff.mpr ⟨hrecord, hcommand, hname, hlate⟩
    refine .inr ⟨command, hcandidates command hrival, ?_⟩
    rw [hp.responseTo_next hcurrent hnext]
    exact hresponse

/-- **A move tells a ticket nothing but responses of its candidates.** -/
theorem Tracked.move (h : Tracked evaluator p ticket correlation candidates)
    (hp : Sourced evaluator p) (hid : p.config.partitionId ≤ maxPartitionId)
    (hmove : Move evaluator p q) : Tracked evaluator q ticket correlation candidates := by
  obtain ⟨hq, hsame⟩ := hp.move hid hmove
  cases hmove.exchange hp hid with
  | narrowed hrouter drafts hlog hnameless =>
      refine h.extend hp hq hsame ⟨_, hlog.symm⟩ hrouter.issued ?_ ?_
      · intro response hr
        exact .inl (hrouter.delivered _ hr)
      · intro name hname
        refine ⟨hrouter.waiting _ hname, mem_of_mem_rivals hlog fun draft hd _ hname => ?_⟩
        rw [hnameless draft hd] at hname
        cases hname
  | asked request name hfree hrouter hlog =>
      refine h.extend hp hq hsame ⟨_, hlog.symm⟩ ?_ ?_ ?_
      · rw [hrouter]
        exact Nat.le_succ _
      · intro response hr
        rw [hrouter] at hr
        exact .inl hr
      · intro other hother
        rw [hrouter] at hother
        rcases List.mem_cons.mp hother with hself | hold
        · cases hself
          exact absurd h.issued (Nat.lt_irrefl _)
        · refine ⟨hold, mem_of_mem_rivals hlog fun draft hd _ hname => ?_⟩
          -- A request of the name that the ticket waits under would have been refused.
          rw [List.mem_singleton.mp hd] at hname
          cases hname
          have htaken := List.lookup_eq_none_iff.mp hfree (other, ticket) hold
          simp [(h.waiting other hold).1] at htaken
  | answered command rest hcurrent hnext hrouter hlog =>
      obtain ⟨hissued, hwaiting⟩ := p.answered_router command
      rw [← hrouter] at hissued hwaiting
      refine h.extend hp hq hsame ⟨_, hlog.symm⟩ (Nat.le_of_eq hissued.symm) ?_ ?_
      · intro response hr
        rw [hrouter] at hr
        exact h.answered hp hcurrent hnext hr
      · intro name hname
        refine ⟨hwaiting _ hname, mem_of_mem_rivals hlog fun draft hd hkind => ?_⟩
        exact absurd hkind (Processor.of_mem_followUps_apply hp.builtin hd).2

theorem Tracked.moves (h : Tracked evaluator p ticket correlation candidates)
    (hp : Sourced evaluator p) (hid : p.config.partitionId ≤ maxPartitionId)
    (hmoves : Moves evaluator p q) : Tracked evaluator q ticket correlation candidates :=
  hp.induct (fun r => Tracked evaluator r ticket correlation candidates) id
    (fun hmid hidMid hmove hold => hold.move hmid hidMid hmove) hid hmoves h

end Tracked

/-! ### Tickets are new -/

theorem Ticketed.move (h : Ticketed p.host.router) (hp : Sourced evaluator p)
    (hid : p.config.partitionId ≤ maxPartitionId) (hmove : Move evaluator p q) :
    Ticketed q.host.router := by
  cases hmove.exchange hp hid with
  | narrowed hrouter drafts hlog hnameless =>
      refine ⟨fun entry he => ?_, fun entry he => ?_⟩
      · exact Nat.lt_of_lt_of_le (h.waiting entry (hrouter.waiting entry he)) hrouter.issued
      · exact Nat.lt_of_lt_of_le (h.delivered entry (hrouter.delivered entry he)) hrouter.issued
  | asked request name hfree hrouter hlog =>
      rw [hrouter]
      refine ⟨fun entry he => ?_, fun entry he => Nat.lt_succ_of_lt (h.delivered entry he)⟩
      rcases List.mem_cons.mp he with hself | hold
      · rw [hself]
        exact Nat.lt_succ_self _
      · exact Nat.lt_succ_of_lt (h.waiting entry hold)
  | answered command rest hcurrent hnext hrouter hlog =>
      obtain ⟨hissued, hwaiting⟩ := p.answered_router command
      rw [hrouter]
      refine ⟨fun entry he => ?_, fun entry he => ?_⟩
      · rw [hissued]
        exact h.waiting entry (hwaiting entry he)
      · rw [hissued]
        rcases mem_delivered_answered he with hold | ⟨-, hwaits⟩
        · exact h.delivered entry hold
        · exact h.waiting _ hwaits

theorem Ticketed.moves (h : Ticketed p.host.router) (hp : Sourced evaluator p)
    (hid : p.config.partitionId ≤ maxPartitionId) (hmoves : Moves evaluator p q) :
    Ticketed q.host.router :=
  hp.induct (fun r => Ticketed r.host.router) id
    (fun hmid hidMid hmove hold => hold.move hmid hidMid hmove) hid hmoves h

/-- The command of a request that was just sent is the last of those of its name. -/
theorem Sourced.rivals_asked (hp : Sourced evaluator p) {own : Record} {correlation : Correlation}
    (hlog : q.records = p.records ++ [own]) (hown : own.position = p.host.link.log.size + 1)
    (hcommand : own.isCommand) (hname : own.correlation = some correlation)
    (hsource : own.sourcePosition = none) :
    q.rivals correlation = p.rivals correlation ++ [own] := by
  have hlast : Recovery.lastSource? q.records = Recovery.lastSource? p.records := by
    have hnone : [own].filterMap (fun record : Record => record.sourcePosition) = [] := by
      simp [hsource]
    unfold Recovery.lastSource?
    rw [hlog, List.filterMap_append, hnone, List.append_nil]
  have hlate : (Recovery.lastSource? p.records).getD 0 < own.position := by
    rw [hown]
    exact Nat.lt_succ_of_le (Nat.le_trans hp.lastSource_le hp.cursor_le)
  unfold rivals
  rw [hlast, hlog, List.filter_append, List.filter_singleton]
  simp [hcommand, hname, hlate]

/-- A request that was just sent can be answered by its command and its rivals. -/
theorem tracked_submit (hp : Sourced evaluator p) (h : Ticketed p.host.router)
    {request : CommandRequest} {correlation : Correlation} {pending : PendingResponse}
    (hsubmit : p.submit request correlation = (.ok pending, q)) :
    ∃ own ∈ q.records, own.position = pending.position ∧
      own.toDraft = (request.toDraft.withCorrelation correlation).withTimestamp p.now ∧
      q.rivals correlation = p.rivals correlation ++ [own] ∧
      q.host.router.waiting.lookup correlation = some pending.ticket ∧
      (∀ rival ∈ p.rivals correlation, rival.position < pending.position) ∧
      Tracked evaluator q pending.ticket correlation (p.rivals correlation ++ [own]) := by
  rcases p.submit_cases request correlation with
    ⟨e, heq⟩ | ⟨link, -, hfree, ⟨e, heq, -⟩ | ⟨heq, hlog⟩⟩
  · rw [heq] at hsubmit
    cases hsubmit
  · rw [heq] at hsubmit
    cases hsubmit
  · rw [heq] at hsubmit
    cases hsubmit
    let own : Record := .ofDraft (p.host.link.log.size + 1)
      ((request.toDraft.withCorrelation correlation).withTimestamp p.now)
    have hrivals : ((p.withLink link).withRouter (p.host.router.awaiting correlation)).rivals
        correlation = p.rivals correlation ++ [own] :=
      hp.rivals_asked hlog rfl rfl rfl rfl
    have hmem : own ∈ link.log.records := by
      rw [hlog]
      exact List.mem_append_right _ List.mem_cons_self
    refine ⟨own, hmem, rfl, rfl, hrivals, List.lookup_cons_self, ?_, Nat.lt_succ_self _, ?_, ?_, ?_⟩
    · intro rival hr
      exact Nat.lt_succ_of_le (hp.numbered.position_le (mem_rivals_iff.mp hr).1)
    · intro command hc
      rw [← hrivals] at hc
      exact (mem_rivals_iff.mp hc).1
    · intro response hr
      exact absurd (h.delivered _ hr) (Nat.lt_irrefl _)
    · intro name hname
      refine ⟨?_, fun command hc => by rw [← hrivals]; exact hc⟩
      rcases List.mem_cons.mp hname with hself | hold
      · cases hself
        rfl
      · exact absurd (h.waiting _ hold) (Nat.lt_irrefl _)

end Partition

end Workflow
