/-
The moves of a partition.

A move is a step that nothing can come between: a command arrives, a checker appends its batch,
one command is applied, the state is rebuilt, the partition is opened again.  Rounds are sequences
of moves (`prepareRound_moves`, `applyCommands_moves`, `processUntilIdle_moves`), so whatever
each move preserves is preserved by rounds, and by whatever comes between the parts of a round.

That a round applies the head of what is left, command after command, is not written in the code:
a round applies what it has read before, and commands arrive in between.  It holds because what
has arrived stands behind what was read, so what was read stays a prefix of what is left.
-/
import Mathlib.Logic.Relation
import Workflow.Proofs.Partition.Operations

namespace Workflow

/-- A command that follows from no other record and is stamped with the time. -/
structure Draft.Arrives (draft : Draft) (now : Instant) : Prop where
  kind : draft.kind = .command
  source : draft.sourcePosition = none
  stamped : draft.timestamp = now

namespace Partition

variable {evaluator : Evaluator} {p q : Partition}

/-- A step that nothing can come between. -/
inductive Move (evaluator : Evaluator) : Partition → Partition → Prop
  /-- The clock is moved, appends begin or cease to be refused, reads are counted. -/
  | outside {p : Partition} {link : LogLink} (clock : Clock)
      (hrecords : link.log.records = p.records)
      (hreads : link.reads.refuses = p.host.link.reads.refuses)
      (hdue : link.rebuildDue = p.host.link.rebuildDue) :
      Move evaluator p { p with host := { p.host with link, clock } }
  /-- A response is taken. -/
  | take {p : Partition} (pending : PendingResponse) : Move evaluator p (p.tryTake pending).2
  /-- A request arrives. -/
  | submit {p : Partition} (request : CommandRequest) (correlation : Correlation) :
      Move evaluator p (p.submit request correlation).2
  /-- A command arrives that expects no response. -/
  | submitInternal {p : Partition} (request : CommandRequest) :
      Move evaluator p (p.submitInternal request).2
  /-- Timers are checked. -/
  | timers {p : Partition} : Move evaluator p p.checkDueTimers.2
  /-- Leases are checked. -/
  | leases {p : Partition} : Move evaluator p p.sweepExpiredLeases.2
  /-- The next command is applied. -/
  | apply {p : Partition} {command : Record} {rest : List Record}
      (hcurrent : p.cursor.needsRecovery = false) (hnext : p.unapplied = command :: rest) :
      Move evaluator p (p.applyCommand command).2
  /-- The state is rebuilt. -/
  | recover {p : Partition} : Move evaluator p p.recover.2
  /-- The partition is opened again. -/
  | reopen {p q : Partition} (config : PartitionConfig)
      (hsame : config.partitionId = p.config.partitionId)
      (hopen : Partition.open p.close .builtin evaluator config = .ok q) : Move evaluator p q

/-- Any number of moves. -/
abbrev Moves (evaluator : Evaluator) : Partition → Partition → Prop :=
  Relation.ReflTransGen (Move evaluator)

/-- A move that nothing from outside has a part in.  The clock and the settings are left alone, no
request arrives, and no response is taken: at most the next command is answered. -/
structure SteadyMove (evaluator : Evaluator) (p q : Partition) : Prop where
  move : Move evaluator p q
  now : q.now = p.now
  config : q.config = p.config
  router : q.host.router = p.host.router ∨ ∃ command rest link,
    p.cursor.needsRecovery = false ∧ p.unapplied = command :: rest ∧
      link.log.records = p.records ++ Log.numbered (p.host.link.log.size + 1)
        (p.processor.apply command).1.followUps ∧ q = p.advanced link command

/-- Any number of them. -/
abbrev SteadyMoves (evaluator : Evaluator) : Partition → Partition → Prop :=
  Relation.ReflTransGen (SteadyMove evaluator)

theorem SteadyMove.of_kept (hmove : Move evaluator p q)
    (h : q.now = p.now ∧ q.config = p.config ∧ q.host.router = p.host.router) :
    SteadyMove evaluator p q := ⟨hmove, h.1, h.2.1, .inl h.2.2⟩

theorem SteadyMoves.moves (h : SteadyMoves evaluator p q) : Moves evaluator p q :=
  Relation.ReflTransGen.mono (fun _ _ => SteadyMove.move) _ _ h

theorem SteadyMoves.kept (h : SteadyMoves evaluator p q) : q.now = p.now ∧ q.config = p.config := by
  induction h with
  | refl => exact ⟨rfl, rfl⟩
  | tail _ hmove ih => exact ⟨hmove.now.trans ih.1, hmove.config.trans ih.2⟩

/-! ### Moves keep a partition in agreement with its log -/

/-- A partition that was not rebuilt yet. -/
def unbuilt (host : Host) (evaluator : Evaluator) (config : PartitionConfig) : Partition :=
  { config, host, processor := .start config.partitionId .builtin evaluator }

/-- The partition that is opened where this one was closed. -/
def reopened (p : Partition) (evaluator : Evaluator) (config : PartitionConfig) (calls : Nat) :
    Partition :=
  (unbuilt p.close evaluator config).rebuilt (p.close.link.afterReads calls)

section Reopen

variable {config : PartitionConfig}

theorem reset_unbuilt (hsame : config.partitionId = p.config.partitionId) :
    (unbuilt p.close evaluator config).processor.reset = p.initialEngine evaluator := by
  show Processor.start config.partitionId .builtin evaluator = _
  rw [hsame]
  rfl

/-- Opening a partition on a log that another one agrees with succeeds. -/
theorem Sourced.open_eq (h : Sourced evaluator p) (hid : p.config.partitionId ≤ maxPartitionId)
    (hsame : config.partitionId = p.config.partitionId) :
    ∃ calls, Partition.open p.close .builtin evaluator config =
      .ok (p.reopened evaluator config calls) := by
  obtain ⟨calls, hrecover⟩ := h.recover_eq (q := unbuilt p.close evaluator config) rfl h.readable
    (reset_unbuilt hsame)
  refine ⟨calls, ?_⟩
  unfold Partition.open
  rw [if_neg (by rw [hsame]; exact Nat.not_lt_of_le hid)]
  unfold unbuilt at hrecover
  simp only [hrecover]
  rfl

theorem Sourced.reopened (h : Sourced evaluator p)
    (hsame : config.partitionId = p.config.partitionId) (calls : Nat) :
    Sourced evaluator (p.reopened evaluator config calls) :=
  h.rebuilt (q := unbuilt p.close evaluator config) rfl hsame rfl (h.readable.afterReads calls) rfl
    (reset_unbuilt hsame)

/-- It has the state that the applied commands of the other one lead to. -/
theorem Sourced.reopened_processor (h : Sourced evaluator p)
    (hsame : config.partitionId = p.config.partitionId) (calls : Nat) :
    (p.reopened evaluator config calls).processor =
      (p.initialEngine evaluator).after p.applied :=
  h.rebuilt_processor (q := unbuilt p.close evaluator config) rfl (reset_unbuilt hsame) _

end Reopen

/-! ### What a move leaves behind -/

/-- The engine that the applied commands lead to. -/
def engine (p : Partition) (evaluator : Evaluator) : Processor :=
  (p.initialEngine evaluator).after p.applied

/-- **What a move leaves behind.**  Commands come to the log, the next command is applied, or the
state is rebuilt. -/
inductive Effect (evaluator : Evaluator) (p q : Partition) : Prop
  /-- Commands come to the log, if any, stamped with the time, and those of the checkers are
  remembered. -/
  | arrived (drafts : List Draft) (hconfig : q.config = p.config)
      (hprocessor : q.processor = p.processor) (hcursor : q.cursor = p.cursor)
      (hreads : q.host.link.reads.refuses = p.host.link.reads.refuses)
      (hcalm : q.host.link.rebuildDue = p.host.link.rebuildDue)
      (hlog : q.records = p.records ++ Log.numbered (p.host.link.log.size + 1) drafts)
      (harrives : ∀ draft ∈ drafts, draft.Arrives p.now)
      (hwatch : ∀ key ∈ q.pendingTriggers, key ∈ p.pendingTriggers ∨
        ∃ timer ∈ p.untriggered, timer.key = key ∧ triggerCommand p.now timer ∈ drafts)
      (hlet : ∀ lease ∈ q.pendingTimeouts, lease ∈ p.pendingTimeouts ∨
        lease ∈ p.unreclaimed ∧ ∀ job, p.state.jobs.get? lease.key = some job →
          timeOutCommand p.now lease job ∈ drafts)
  /-- The next command is applied, and its follow-ups are in the log. -/
  | applied (command : Record) (rest : List Record) (link : LogLink)
      (hcurrent : p.cursor.needsRecovery = false) (hnext : p.unapplied = command :: rest)
      (hbeside : Beside p.host.link link) (hend : q = p.advanced link command)
      (hlog : link.log.records = p.records ++ Log.numbered (p.host.link.log.size + 1)
        (p.processor.apply command).1.followUps)
  /-- The next command is applied, and its follow-ups are refused. -/
  | spoiled (command : Record) (link : LogLink) (hbeside : Beside p.host.link link)
      (hend : q = p.ahead link command) (hlog : link.log.records = p.records)
  /-- The state is rebuilt. -/
  | rebuilt (hsourced : Sourced evaluator q)
      (hid : q.config.partitionId = p.config.partitionId) (hlog : q.records = p.records)
      (hcurrent : q.cursor.needsRecovery = false) (hengine : q.processor = p.engine evaluator)
      (hwatch : q.pendingTriggers = []) (hlet : q.pendingTimeouts = [])
      (hback : q.cursor.lastProcessed.getD 0 ≤ p.cursor.lastProcessed.getD 0)

theorem Move.effect (h : Sourced evaluator p) (hid : p.config.partitionId ≤ maxPartitionId)
    (hmove : Move evaluator p q) : Effect evaluator p q := by
  have hnothing : ∀ {q : Partition}, q.config = p.config → q.processor = p.processor →
      q.cursor = p.cursor → q.host.link.reads.refuses = p.host.link.reads.refuses →
      q.host.link.rebuildDue = p.host.link.rebuildDue → q.records = p.records →
      (∀ key ∈ q.pendingTriggers, key ∈ p.pendingTriggers) →
      (∀ lease ∈ q.pendingTimeouts, lease ∈ p.pendingTimeouts) → Effect evaluator p q := by
    intro q hconfig hprocessor hcursor hreads hcalm hlog hwatch hlet
    refine .arrived [] hconfig hprocessor hcursor hreads hcalm ?_
      (fun draft hd => absurd hd List.not_mem_nil) (fun key hk => .inl (hwatch key hk))
      fun lease hl => .inl (hlet lease hl)
    rw [hlog]
    exact (List.append_nil _).symm
  cases hmove with
  | outside clock hrecords hreads hdue =>
      exact hnothing rfl rfl rfl hreads hdue hrecords (fun key hk => hk) fun lease hl => hl
  | take pending =>
      exact hnothing rfl rfl rfl rfl rfl rfl (fun key hk => hk) fun lease hl => hl
  | submit request correlation =>
      rcases p.submit_cases request correlation with
        ⟨e, heq⟩ | ⟨link, hbeside, -, ⟨e, heq, hlog⟩ | ⟨heq, hlog⟩⟩
      · rw [heq]
        exact hnothing rfl rfl rfl rfl rfl rfl (fun key hk => hk) fun lease hl => hl
      · rw [heq]
        exact hnothing rfl rfl rfl (congrArg _ hbeside.reads) hbeside.rebuildDue hlog
          (fun key hk => hk) fun lease hl => hl
      · rw [heq]
        refine .arrived _ rfl rfl rfl (congrArg _ hbeside.reads) hbeside.rebuildDue hlog ?_
          (fun key hk => .inl hk) fun lease hl => .inl hl
        intro draft hd
        rw [List.mem_singleton.mp hd]
        exact ⟨rfl, rfl, rfl⟩
  | submitInternal request =>
      obtain ⟨link, hbeside, heq, hlog | hlog⟩ := p.submitInternal_cases request
      · rw [heq]
        exact hnothing rfl rfl rfl (congrArg _ hbeside.reads) hbeside.rebuildDue hlog
          (fun key hk => hk) fun lease hl => hl
      · rw [heq]
        refine .arrived _ rfl rfl rfl (congrArg _ hbeside.reads) hbeside.rebuildDue hlog ?_
          (fun key hk => .inl hk) fun lease hl => .inl hl
        intro draft hd
        rw [List.mem_singleton.mp hd]
        exact ⟨rfl, rfl, rfl⟩
  | timers =>
      have hkept : ∀ key ∈ p.keptTriggers, key ∈ p.pendingTriggers :=
        fun key hk => List.mem_of_mem_filter hk
      obtain ⟨link, hbeside, ⟨e, heq, hlog⟩ | ⟨heq, hlog⟩⟩ := checkDueTimers_cases h.calm
      · rw [heq]
        refine hnothing rfl rfl rfl (congrArg _ hbeside.reads) hbeside.rebuildDue hlog ?_
          fun lease hl => hl
        intro key hk
        obtain ⟨hmem, hnot⟩ := List.mem_filter.mp hk
        rcases List.mem_append.mp hmem with hold | hnew
        · exact hkept key hold
        · simp [hnew] at hnot
      · rw [heq]
        refine .arrived _ rfl rfl rfl (congrArg _ hbeside.reads) hbeside.rebuildDue hlog ?_ ?_
          fun lease hl => .inl hl
        · intro draft hd
          obtain ⟨timer, -, rfl⟩ := List.mem_map.mp hd
          exact ⟨rfl, rfl, rfl⟩
        · intro key hk
          rcases List.mem_append.mp hk with hold | hnew
          · exact .inl (hkept key hold)
          · obtain ⟨timer, ht, hkey⟩ := List.mem_map.mp hnew
            exact .inr ⟨timer, ht, hkey, List.mem_map_of_mem ht⟩
  | leases =>
      have hkept : ∀ lease ∈ p.keptTimeouts, lease ∈ p.pendingTimeouts :=
        fun lease hl => List.mem_of_mem_filter hl
      -- Every lease of a live job is swept.
      have hswept : ∀ lease ∈ p.unreclaimed, ∀ job, p.state.jobs.get? lease.key = some job →
          (lease, timeOutCommand p.now lease job) ∈ p.swept :=
        fun lease hl job hjob =>
          List.mem_filterMap.mpr ⟨lease, hl, by rw [hjob, Option.map_some]⟩
      obtain ⟨link, hbeside, ⟨e, heq, hlog⟩ | ⟨heq, hlog⟩⟩ := sweepExpiredLeases_cases h.calm
      · rw [heq]
        refine .arrived [] rfl rfl rfl (congrArg _ hbeside.reads) hbeside.rebuildDue ?_
          (fun draft hd => absurd hd List.not_mem_nil) (fun key hk => .inl hk) ?_
        · show link.log.records = _
          rw [hlog]
          exact (List.append_nil _).symm
        · intro lease hl
          obtain ⟨hmem, hnot⟩ := List.mem_filter.mp hl
          rcases List.mem_append.mp hmem with hold | hnew
          · exact .inl (hkept lease hold)
          · refine .inr ⟨hnew, fun job hjob => absurd hnot ?_⟩
            have hfirst := List.mem_map_of_mem (f := Prod.fst) (hswept lease hnew job hjob)
            simpa using hfirst
      · rw [heq]
        refine .arrived _ rfl rfl rfl (congrArg _ hbeside.reads) hbeside.rebuildDue hlog ?_
          (fun key hk => .inl hk) ?_
        · intro draft hd
          obtain ⟨entry, hentry, rfl⟩ := List.mem_map.mp hd
          obtain ⟨-, job, -, hdraft⟩ := mem_swept hentry
          rw [hdraft]
          exact ⟨rfl, rfl, rfl⟩
        · intro lease hl
          rcases List.mem_append.mp hl with hold | hnew
          · exact .inl (hkept lease hold)
          · exact .inr ⟨hnew, fun job hjob => List.mem_map_of_mem (hswept lease hnew job hjob)⟩
  | @apply command rest hcurrent hnext =>
      obtain ⟨link, hbeside, ⟨e, heq, hlog⟩ | ⟨heq, hlog⟩⟩ := applyCommand_cases h.calm command
      · rw [heq]
        exact .spoiled command link hbeside rfl hlog
      · rw [heq]
        exact .applied command rest link hcurrent hnext hbeside rfl hlog
  | recover =>
      obtain ⟨calls, heq⟩ := h.recover_eq rfl h.readable h.reset
      rw [heq]
      exact .rebuilt (h.rebuilt rfl rfl rfl (h.readable.afterReads calls) h.calm h.reset) rfl rfl
        rfl (h.rebuilt_processor rfl h.reset _) rfl rfl h.lastSource_le
  | reopen config hsame hopen =>
      obtain ⟨calls, heq⟩ := h.open_eq hid hsame
      rw [heq] at hopen
      cases hopen
      exact .rebuilt (h.reopened hsame calls) hsame rfl rfl (h.reopened_processor hsame calls) rfl
        rfl h.lastSource_le

/-- Every move keeps the agreement. -/
theorem Sourced.move (h : Sourced evaluator p) (hid : p.config.partitionId ≤ maxPartitionId)
    (hmove : Move evaluator p q) : Sourced evaluator q ∧
      q.config.partitionId = p.config.partitionId := by
  cases hmove.effect h hid with
  | arrived drafts hconfig hprocessor hcursor hreads hcalm hlog harrives =>
      exact ⟨h.extend drafts hconfig hprocessor hcursor hreads hcalm hlog
          fun draft hd => (harrives draft hd).source,
        congrArg PartitionConfig.partitionId hconfig⟩
  | applied command rest link hcurrent hnext hbeside hend hlog =>
      rw [hend, advanced_eq]
      exact ⟨h.next hcurrent hnext rfl rfl rfl hbeside.reads hbeside.rebuildDue hlog, rfl⟩
  | spoiled command link hbeside hend hlog =>
      rw [hend]
      exact ⟨h.ahead rfl rfl rfl rfl hbeside.reads hbeside.rebuildDue hlog, rfl⟩
  | rebuilt hsourced hsame hlog hcurrent hengine hwatch => exact ⟨hsourced, hsame⟩

/-- Any number of moves keep the agreement. -/
theorem Sourced.moves (h : Sourced evaluator p) (hid : p.config.partitionId ≤ maxPartitionId)
    (hmoves : Moves evaluator p q) : Sourced evaluator q ∧
      q.config.partitionId = p.config.partitionId := by
  induction hmoves with
  | refl => exact ⟨h, rfl⟩
  | tail _ hmove ih =>
      obtain ⟨hmid, hsame⟩ := ih
      obtain ⟨hlast, heq⟩ := hmid.move (by rw [hsame]; exact hid) hmove
      exact ⟨hlast, heq.trans hsame⟩

/-- **What each move of a kind keeps, any number of them keep.** -/
theorem Sourced.induct {step : Partition → Partition → Prop} (holds : Partition → Prop)
    (hmove : ∀ {p q}, step p q → Move evaluator p q)
    (hstep : ∀ {p q}, Sourced evaluator p → p.config.partitionId ≤ maxPartitionId → step p q →
      holds p → holds q)
    (h : Sourced evaluator p) (hid : p.config.partitionId ≤ maxPartitionId)
    (hsteps : Relation.ReflTransGen step p q) (hp : holds p) : holds q := by
  induction hsteps with
  | refl => exact hp
  | tail hsteps hlast ih =>
      obtain ⟨hmid, hsame⟩ := h.moves hid (Relation.ReflTransGen.mono (fun _ _ => hmove) _ _ hsteps)
      exact hstep hmid (by rw [hsame]; exact hid) hlast ih

/-- A move leaves the records of the log where they are. -/
theorem Move.records_grow (h : Sourced evaluator p)
    (hid : p.config.partitionId ≤ maxPartitionId) (hmove : Move evaluator p q) :
    p.records <+: q.records := by
  have hsame : ∀ {records : List Record}, records = p.records → p.records <+: records :=
    fun heq => heq ▸ List.prefix_rfl
  cases hmove.effect h hid with
  | arrived drafts hconfig hprocessor hcursor hreads hcalm hlog =>
      rw [hlog]
      exact List.prefix_append _ _
  | applied command rest link hcurrent hnext hbeside hend hlog =>
      rw [hend, advanced_eq]
      show p.records <+: link.log.records
      rw [hlog]
      exact List.prefix_append _ _
  | spoiled command link hbeside hend hlog =>
      rw [hend]
      exact hsame hlog
  | rebuilt hsourced hid hlog hcurrent hengine hwatch => exact hsame hlog

theorem Moves.records_grow (h : Sourced evaluator p)
    (hid : p.config.partitionId ≤ maxPartitionId) (hmoves : Moves evaluator p q) :
    p.records <+: q.records := by
  induction hmoves with
  | refl => exact List.prefix_rfl
  | tail hmoves hmove ih =>
      obtain ⟨hmid, hsame⟩ := h.moves hid hmoves
      exact ih.trans (Move.records_grow hmid (by rw [hsame]; exact hid) hmove)

/-! ### Rounds are moves -/

theorem recoverIfNeeded_of_current (hcurrent : p.cursor.needsRecovery = false) :
    p.recoverIfNeeded = (.ok (), p) := by
  unfold recoverIfNeeded
  rw [hcurrent]
  rfl

theorem processCommands_of_current (hcurrent : p.cursor.needsRecovery = false)
    (commands : List Record) : p.processCommands commands = applyCommands commands p := by
  unfold processCommands
  rw [recoverIfNeeded_of_current hcurrent]

theorem recover_kept (p : Partition) :
    p.recover.2.now = p.now ∧ p.recover.2.config = p.config ∧
      p.recover.2.host.router = p.host.router := by
  unfold recover
  rcases p.host.link.readAll with ⟨e | records, link⟩
  · exact ⟨rfl, rfl, rfl⟩
  · dsimp only
    rcases Recovery.replay records (Recovery.appliedCommands records)
      (p.withLink link).processor.reset with ⟨e | count, processor⟩ <;> exact ⟨rfl, rfl, rfl⟩

/-- Rebuilding when it is needed is at most one move, and ends in a state that is current. -/
theorem recoverIfNeeded_steady (h : Sourced evaluator p) :
    ∃ q, p.recoverIfNeeded = (.ok (), q) ∧ SteadyMoves evaluator p q ∧
      q.cursor.needsRecovery = false := by
  cases hneeds : p.cursor.needsRecovery with
  | false => exact ⟨p, recoverIfNeeded_of_current hneeds, .refl, hneeds⟩
  | true =>
      obtain ⟨calls, heq⟩ := h.recover_eq rfl h.readable h.reset
      refine ⟨p.recover.2, ?_, .single (.of_kept .recover p.recover_kept), ?_⟩
      · simp only [recoverIfNeeded, hneeds, if_true, heq]
        rfl
      · rw [heq]
        rfl

/-- Checkers leave the cursor alone. -/
theorem checkDueTimers_cursor (h : Sourced evaluator p) :
    p.checkDueTimers.2.cursor = p.cursor := by
  obtain ⟨link, -, ⟨e, heq, -⟩ | ⟨heq, -⟩⟩ := checkDueTimers_cases h.calm <;> rw [heq] <;> rfl

theorem sweepExpiredLeases_cursor (h : Sourced evaluator p) :
    p.sweepExpiredLeases.2.cursor = p.cursor := by
  obtain ⟨link, -, ⟨e, heq, -⟩ | ⟨heq, -⟩⟩ := sweepExpiredLeases_cases h.calm <;> rw [heq] <;> rfl

/-- And the clock, the settings and the requests. -/
theorem checkDueTimers_kept (h : Sourced evaluator p) :
    p.checkDueTimers.2.now = p.now ∧ p.checkDueTimers.2.config = p.config ∧
      p.checkDueTimers.2.host.router = p.host.router := by
  obtain ⟨link, -, ⟨e, heq, -⟩ | ⟨heq, -⟩⟩ := checkDueTimers_cases h.calm <;> rw [heq] <;>
    exact ⟨rfl, rfl, rfl⟩

theorem sweepExpiredLeases_kept (h : Sourced evaluator p) :
    p.sweepExpiredLeases.2.now = p.now ∧ p.sweepExpiredLeases.2.config = p.config ∧
      p.sweepExpiredLeases.2.host.router = p.host.router := by
  obtain ⟨link, -, ⟨e, heq, -⟩ | ⟨heq, -⟩⟩ := sweepExpiredLeases_cases h.calm <;> rw [heq] <;>
    exact ⟨rfl, rfl, rfl⟩

/-- **Preparing a round is a sequence of moves.**  What it reads is what is left to apply. -/
theorem prepareRound_steady (h : Sourced evaluator p) (hid : p.config.partitionId ≤ maxPartitionId)
    (max : Nat) : ∃ result q, p.prepareRound max = (result, q) ∧ SteadyMoves evaluator p q ∧
      ∀ commands, result = .ok commands →
        q.cursor.needsRecovery = false ∧ commands = q.unapplied.take max := by
  obtain ⟨p₁, hrecover, hmoves₁, hcurrent₁⟩ := recoverIfNeeded_steady h
  have h₁ := h.moves hid hmoves₁.moves
  have hmoves₂ : SteadyMoves evaluator p p₁.checkDueTimers.2 :=
    hmoves₁.tail (.of_kept .timers (checkDueTimers_kept h₁.1))
  have h₂ := h.moves hid hmoves₂.moves
  have hmoves₃ : SteadyMoves evaluator p p₁.checkDueTimers.2.sweepExpiredLeases.2 :=
    hmoves₂.tail (.of_kept .leases (sweepExpiredLeases_kept h₂.1))
  have h₃ := h.moves hid hmoves₃.moves
  unfold prepareRound
  rw [hrecover]
  dsimp only
  rcases htimers : p₁.checkDueTimers with ⟨e | _, p₂⟩
  · rw [htimers] at hmoves₂
    exact ⟨.error e, p₂, rfl, hmoves₂, fun _ hok => by cases hok⟩
  · rw [htimers] at hmoves₃ h₂ h₃
    dsimp only at hmoves₃ h₂ h₃ ⊢
    have hcursor₂ : p₂.cursor = p₁.cursor := by
      have := checkDueTimers_cursor h₁.1
      rwa [htimers] at this
    rcases hleases : p₂.sweepExpiredLeases with ⟨e | _, p₃⟩
    · rw [hleases] at hmoves₃
      exact ⟨.error e, p₃, rfl, hmoves₃, fun _ hok => by cases hok⟩
    · rw [hleases] at hmoves₃ h₃
      dsimp only at hmoves₃ h₃ ⊢
      have hcursor₃ : p₃.cursor = p₂.cursor := by
        have := sweepExpiredLeases_cursor h₂.1
        rwa [hleases] at this
      obtain ⟨calls, hread⟩ := h₃.1.readUnprocessed_eq max
      rw [hread]
      have hread : Move evaluator p₃ (p₃.withLink (p₃.host.link.afterReads calls)) :=
        .outside p₃.host.clock rfl rfl rfl
      refine ⟨_, _, rfl, hmoves₃.tail (.of_kept hread ⟨rfl, rfl, rfl⟩), ?_⟩
      intro commands hok
      cases hok
      refine ⟨?_, rfl⟩
      show p₃.cursor.needsRecovery = false
      rw [hcursor₃, hcursor₂]
      exact hcurrent₁

theorem prepareRound_moves (h : Sourced evaluator p) (hid : p.config.partitionId ≤ maxPartitionId)
    (max : Nat) : ∃ result q, p.prepareRound max = (result, q) ∧ Moves evaluator p q ∧
      ∀ commands, result = .ok commands →
        q.cursor.needsRecovery = false ∧ commands = q.unapplied.take max := by
  obtain ⟨result, q, heq, hmoves, hread⟩ := prepareRound_steady h hid max
  exact ⟨result, q, heq, hmoves.moves, hread⟩

/-- When preparing a round succeeds both checkers did, and then the commands were read. -/
theorem Sourced.prepareRound_ok (h : Sourced evaluator p)
    (hid : p.config.partitionId ≤ maxPartitionId) (hcurrent : p.cursor.needsRecovery = false)
    {max : Nat} {commands : List Record} (hok : p.prepareRound max = (.ok commands, q)) :
    ∃ p₁ p₂ calls, p.checkDueTimers = (.ok (), p₁) ∧ Move evaluator p p₁ ∧
      p₁.sweepExpiredLeases = (.ok (), p₂) ∧ Move evaluator p₁ p₂ ∧
      q = p₂.withLink (p₂.host.link.afterReads calls) := by
  have hmove₁ : Move evaluator p p.checkDueTimers.2 := .timers
  unfold prepareRound at hok
  rw [recoverIfNeeded_of_current hcurrent] at hok
  dsimp only at hok
  rcases htimers : p.checkDueTimers with ⟨e | _, p₁⟩
  · rw [htimers] at hok
    cases hok
  · rw [htimers] at hok hmove₁
    have hmove₂ : Move evaluator p₁ p₁.sweepExpiredLeases.2 := .leases
    dsimp only at hok
    rcases hleases : p₁.sweepExpiredLeases with ⟨e | _, p₂⟩
    · rw [hleases] at hok
      cases hok
    · rw [hleases] at hok hmove₂
      obtain ⟨h₂, -⟩ := h.moves hid ((Relation.ReflTransGen.single hmove₁).tail hmove₂)
      obtain ⟨calls, hread⟩ := h₂.readUnprocessed_eq max
      dsimp only at hok
      rw [hread] at hok
      cases hok
      exact ⟨p₁, p₂, calls, rfl, hmove₁, hleases, hmove₂, rfl⟩

/-- **A step of a round.**  The first command that was read, if it is the next one, is applied and
the round ends with an error, or it is applied and the round goes on with the others. -/
theorem Sourced.applyCommands_cases (h : Sourced evaluator p)
    (hcurrent : p.cursor.needsRecovery = false) {command : Record} {rest : List Record}
    (hfront : command :: rest <+: p.unapplied) :
    (∃ e q, applyCommands (command :: rest) p = (.error e, q) ∧ Move evaluator p q ∧
        q.now = p.now ∧ q.config = p.config ∧ q.host.router = p.host.router) ∨
      ∃ link others, p.unapplied = command :: others ∧
        link.log.records = p.records ++ Log.numbered (p.host.link.log.size + 1)
          (p.processor.apply command).1.followUps ∧
        Move evaluator p (p.advanced link command) ∧
        (p.advanced link command).cursor.needsRecovery = false ∧
        rest <+: (p.advanced link command).unapplied ∧
        applyCommands (command :: rest) p =
          ((applyCommands rest (p.advanced link command)).1.map (· + 1),
            (applyCommands rest (p.advanced link command)).2) := by
  obtain ⟨others, hnext⟩ := hfront
  rw [List.cons_append] at hnext
  have hmove : Move evaluator p (p.applyCommand command).2 := .apply hcurrent hnext.symm
  obtain ⟨link, -, ⟨e, heq, -⟩ | ⟨heq, hlog⟩⟩ := applyCommand_cases h.calm command
  · rw [heq] at hmove
    exact .inl ⟨e, _, applyCommands_cons_error hnext.symm heq rest, hmove, rfl, rfl, rfl⟩
  · rw [heq] at hmove
    obtain ⟨-, hleft⟩ := h.applied_advanced hnext.symm hlog
    refine .inr ⟨link, rest ++ others, hnext.symm, hlog, hmove, ?_, ?_,
      applyCommands_cons_ok hnext.symm heq rest⟩
    · rw [advanced_cursor]
      exact hcurrent
    · rw [hleft]
      exact List.prefix_append _ _

/-- **Applying what was read is a sequence of moves**, if it is the first part of what is left. -/
theorem applyCommands_steady (commands : List Record) :
    ∀ p : Partition, Sourced evaluator p → p.config.partitionId ≤ maxPartitionId →
      p.cursor.needsRecovery = false → commands <+: p.unapplied →
      SteadyMoves evaluator p (applyCommands commands p).2 ∧
        ∀ count, (applyCommands commands p).1 = .ok count →
          (applyCommands commands p).2.cursor.needsRecovery = false := by
  induction commands with
  | nil => intro p _ _ hcurrent _; exact ⟨.refl, fun _ _ => hcurrent⟩
  | cons command rest ih =>
      intro p h hid hcurrent hfront
      rcases h.applyCommands_cases hcurrent hfront with
        ⟨e, q, heq, hmove, hkept⟩ | ⟨link, others, hnext, hlog, hmove, hcurrent', hfront', heq⟩
      · rw [heq]
        exact ⟨.single (.of_kept hmove hkept), fun _ hok => by cases hok⟩
      · obtain ⟨h', hsame⟩ := h.move hid hmove
        obtain ⟨hmoves, hend⟩ := ih (p.advanced link command) h' (by rw [hsame]; exact hid)
          hcurrent' hfront'
        rw [heq]
        have hsteady : SteadyMove evaluator p (p.advanced link command) :=
          ⟨hmove, p.advanced_now link command, p.advanced_config link command,
            .inr ⟨command, others, link, hcurrent, hnext, hlog, rfl⟩⟩
        refine ⟨.head hsteady hmoves, ?_⟩
        intro count hok
        cases hresult : (applyCommands rest (p.advanced link command)).1 with
        | error e =>
            dsimp only at hok
            rw [hresult] at hok
            cases hok
        | ok left => exact hend left hresult

theorem applyCommands_moves (commands : List Record) (p : Partition) (h : Sourced evaluator p)
    (hid : p.config.partitionId ≤ maxPartitionId) (hcurrent : p.cursor.needsRecovery = false)
    (hfront : commands <+: p.unapplied) :
    Moves evaluator p (applyCommands commands p).2 ∧
      ∀ count, (applyCommands commands p).1 = .ok count →
        (applyCommands commands p).2.cursor.needsRecovery = false := by
  obtain ⟨hmoves, hend⟩ := applyCommands_steady commands p h hid hcurrent hfront
  exact ⟨hmoves.moves, hend⟩

end Partition

end Workflow
