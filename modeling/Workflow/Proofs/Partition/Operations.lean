/-
What each operation of a partition does, one statement for each.

An operation that appends has two ends: the storage refuses, or the drafts are the last records of
the log.  Each statement names both and gives the partition that each leaves behind, field by
field, so that no later proof has to look into an operation again.

Rebuilding has one end only.  A partition that agrees with its log finds in it what it produces,
and the commands that a rebuild gives up are ones that nothing follows from, so the engine is the
one that all applied commands lead to (`recover_eq`).
-/
import Workflow.Proofs.Partition.Sourced

namespace Workflow

/-! ### Requests -/

namespace ResponseRouter

/-- The router when a ticket was handed out in vain. -/
def spent (router : ResponseRouter) : ResponseRouter := { router with issued := router.issued + 1 }

/-- The router when a request waits in addition. -/
def awaiting (router : ResponseRouter) (correlation : Correlation) : ResponseRouter :=
  { router.spent with waiting := (correlation, router.issued) :: router.waiting }

/-- Taking back the one request of a name leaves the others. -/
theorem unregister_awaiting {router : ResponseRouter} {correlation : Correlation}
    (h : router.waiting.lookup correlation = none) :
    (router.awaiting correlation).unregister correlation = router.spent := by
  have hothers : (router.waiting.filter fun entry => entry.1 != correlation) = router.waiting := by
    rw [List.filter_eq_self]
    intro entry hentry
    rw [List.lookup_eq_none_iff] at h
    simpa [bne, BEq.comm] using h entry hentry
  simp only [unregister, awaiting, List.filter_cons, bne_self_eq_false, Bool.false_eq_true,
    if_false, hothers]
  rfl

end ResponseRouter

namespace Partition

variable {evaluator : Evaluator} {p q : Partition}

/-! ### Appending -/

/-- A connection that differs from another in its log and in what was counted only. -/
structure Beside (link link' : LogLink) : Prop where
  reads : link'.reads = link.reads
  rebuildDue : link'.rebuildDue = link.rebuildDue

/-- A batch is refused, or its drafts are the last records. -/
theorem appendBatch_cases (hcalm : p.host.link.rebuildDue = false) (applying : Bool)
    (drafts : List Draft) :
    ∃ link', Beside p.host.link link' ∧
      ((∃ e, p.appendBatch applying drafts = (.error (.log e), p.withLink link') ∧
          link'.log.records = p.records) ∨
        (p.appendBatch applying drafts = (.ok (), p.withLink link') ∧
          link'.log.records =
            p.records ++ Log.numbered (p.host.link.log.size + 1) drafts)) := by
  obtain ⟨link', hreads, hdue, hcases⟩ := p.host.link.appendBatch_cases drafts
  have hplain : p.rebuildIfDue applying = p := by simp [rebuildIfDue, hcalm]
  refine ⟨link', ⟨hreads, hdue⟩, ?_⟩
  rcases hcases with ⟨e, happend, hlog⟩ | ⟨positions, happend, hlog⟩
  · exact .inl ⟨e, by simp only [appendBatch, hplain, happend], hlog⟩
  · exact .inr ⟨by simp only [appendBatch, hplain, happend], hlog⟩

/-- A request that arrives has a name that waits already, or it is registered; then its command is
refused and it is taken back, with its ticket used up, or its command is the last record. -/
theorem submit_cases (p : Partition) (request : CommandRequest) (correlation : Correlation) :
    (∃ e, p.submit request correlation = (.error e, p)) ∨
    ∃ link', Beside p.host.link link' ∧ p.host.router.waiting.lookup correlation = none ∧
      ((∃ e, p.submit request correlation =
            (.error e, (p.withLink link').withRouter p.host.router.spent) ∧
          link'.log.records = p.records) ∨
        (p.submit request correlation =
            (.ok ⟨p.host.link.log.size + 1, correlation, p.host.router.issued⟩,
              (p.withLink link').withRouter (p.host.router.awaiting correlation)) ∧
          link'.log.records = p.records ++ Log.numbered (p.host.link.log.size + 1)
            [(request.toDraft.withCorrelation correlation).withTimestamp p.now])) := by
  cases hwaits : p.host.router.waiting.lookup correlation with
  | some ticket =>
      refine .inl ⟨.duplicateRequest correlation, ?_⟩
      simp only [submit, ResponseRouter.register, hwaits]
  | none =>
      refine .inr ?_
      obtain ⟨link', hreads, hdue, hcases⟩ := p.host.link.append_cases
        ((request.toDraft.withCorrelation correlation).withTimestamp p.now)
      refine ⟨link', ⟨hreads, hdue⟩, rfl, ?_⟩
      rcases hcases with ⟨e, happend, hlog⟩ | ⟨happend, hlog⟩
      · refine .inl ⟨.log e, ?_, hlog⟩
        rw [← ResponseRouter.unregister_awaiting hwaits]
        simp only [submit, ResponseRouter.register, hwaits, withRouter, now] at happend ⊢
        simp only [happend]
        rfl
      · refine .inr ⟨?_, hlog⟩
        simp only [submit, ResponseRouter.register, hwaits, withRouter, now] at happend ⊢
        simp only [happend]
        rfl

/-- A command that expects no response is refused, or is the last record. -/
theorem submitInternal_cases (p : Partition) (request : CommandRequest) :
    ∃ link', Beside p.host.link link' ∧ (p.submitInternal request).2 = p.withLink link' ∧
      (link'.log.records = p.records ∨
        link'.log.records = p.records ++ Log.numbered (p.host.link.log.size + 1)
          [request.toDraft.withTimestamp p.now]) := by
  obtain ⟨link', hreads, hdue, hcases⟩ := p.host.link.append_cases
    (request.toDraft.withTimestamp p.now)
  refine ⟨link', ⟨hreads, hdue⟩, ?_⟩
  rcases hcases with ⟨e, happend, hlog⟩ | ⟨happend, hlog⟩
  · exact ⟨by simp only [submitInternal, happend], .inl hlog⟩
  · exact ⟨by simp only [submitInternal, happend], .inr hlog⟩

/-! ### Checkers -/

/-- The timers that were triggered and are still pending. -/
def keptTriggers (p : Partition) : List Nat :=
  p.pendingTriggers.filter fun key => p.state.timers.contains key

/-- The timers of the firing batch that no trigger command was appended for. -/
def untriggered (p : Partition) : List Timer :=
  (p.state.timers.firingBatch p.now).filter fun timer => !p.keptTriggers.contains timer.key

/-- The partition when the timers that get a trigger command are remembered. -/
def withTriggers (p : Partition) : Partition :=
  { p with pendingTriggers := p.keptTriggers ++ p.untriggered.map Timer.key }

theorem checkDueTimers_eq (p : Partition) :
    p.checkDueTimers =
      if p.untriggered.isEmpty then (.ok (), p.withTriggers)
      else
        match p.withTriggers.appendBatch false (p.untriggered.map (triggerCommand p.now)) with
        | (.error e, q) =>
            (.error e,
              { q with
                pendingTriggers := q.pendingTriggers.filter fun key =>
                  !(p.untriggered.map Timer.key).contains key })
        | (.ok _, q) => (.ok (), q) := rfl

/-- The timers are checked: the commands are refused and forgotten, or they are the last records
and their timers are remembered. -/
theorem checkDueTimers_cases (hcalm : p.host.link.rebuildDue = false) :
    ∃ link', Beside p.host.link link' ∧
      ((∃ e, p.checkDueTimers = (.error e,
            { p.withLink link' with
              pendingTriggers := (p.keptTriggers ++ p.untriggered.map Timer.key).filter fun key =>
                !(p.untriggered.map Timer.key).contains key }) ∧
          link'.log.records = p.records) ∨
        (p.checkDueTimers = (.ok (), p.withTriggers.withLink link') ∧
          link'.log.records = p.records ++ Log.numbered (p.host.link.log.size + 1)
            (p.untriggered.map (triggerCommand p.now)))) := by
  by_cases hnone : p.untriggered = []
  · refine ⟨p.host.link, ⟨rfl, rfl⟩, .inr ⟨?_, ?_⟩⟩
    · rw [checkDueTimers_eq, hnone]
      rfl
    · simp [hnone, Log.numbered, records]
  · have hsome : ¬ p.untriggered.isEmpty = true := by simpa using hnone
    obtain ⟨link', hbeside, hcases⟩ := appendBatch_cases (p := p.withTriggers) hcalm false
      (p.untriggered.map (triggerCommand p.now))
    refine ⟨link', hbeside, ?_⟩
    rcases hcases with ⟨e, happend, hlog⟩ | ⟨happend, hlog⟩
    · refine .inl ⟨.log e, ?_, hlog⟩
      rw [checkDueTimers_eq, if_neg hsome, happend]
      rfl
    · refine .inr ⟨?_, hlog⟩
      rw [checkDueTimers_eq, if_neg hsome, happend]

/-- The leases that were timed out and are still held. -/
def keptTimeouts (p : Partition) : List Lease :=
  p.pendingTimeouts.filter fun lease => p.state.jobs.holdsLease lease.key lease.deadline

/-- The expired leases that no time-out command was appended for. -/
def unreclaimed (p : Partition) : List Lease :=
  (p.state.jobs.expiredLeases p.now).filter fun lease => !p.keptTimeouts.contains lease

/-- The leases to reclaim, each with its time-out command. -/
def swept (p : Partition) : List (Lease × Draft) :=
  p.unreclaimed.filterMap fun lease =>
    (p.state.jobs.get? lease.key).map fun job => (lease, timeOutCommand p.now lease job)

theorem mem_swept {lease : Lease} {draft : Draft} (h : (lease, draft) ∈ p.swept) :
    lease ∈ p.unreclaimed ∧ ∃ job, p.state.jobs.get? lease.key = some job ∧
      draft = timeOutCommand p.now lease job := by
  obtain ⟨found, hfound, hmap⟩ := List.mem_filterMap.mp h
  rw [Option.map_eq_some_iff] at hmap
  obtain ⟨job, hjob, heq⟩ := hmap
  cases heq
  exact ⟨hfound, job, hjob, rfl⟩

/-- The partition when the leases that get a time-out command are remembered. -/
def withTimeouts (p : Partition) : Partition :=
  { p with pendingTimeouts := p.keptTimeouts ++ p.unreclaimed }

theorem sweepExpiredLeases_eq (p : Partition) :
    p.sweepExpiredLeases =
      if p.swept.isEmpty then (.ok (), p.withTimeouts)
      else
        match p.withTimeouts.appendBatch false (p.swept.map Prod.snd) with
        | (.error e, q) =>
            (.error e,
              { q with
                pendingTimeouts := q.pendingTimeouts.filter fun lease =>
                  !(p.swept.map Prod.fst).contains lease })
        | (.ok _, q) => (.ok (), q) := rfl

/-- The leases are checked: the commands are refused and forgotten, or they are the last records
and their leases are remembered. -/
theorem sweepExpiredLeases_cases (hcalm : p.host.link.rebuildDue = false) :
    ∃ link', Beside p.host.link link' ∧
      ((∃ e, p.sweepExpiredLeases = (.error e,
            { p.withLink link' with
              pendingTimeouts := (p.keptTimeouts ++ p.unreclaimed).filter fun lease =>
                !(p.swept.map Prod.fst).contains lease }) ∧
          link'.log.records = p.records) ∨
        (p.sweepExpiredLeases = (.ok (), p.withTimeouts.withLink link') ∧
          link'.log.records = p.records ++ Log.numbered (p.host.link.log.size + 1)
            (p.swept.map Prod.snd))) := by
  by_cases hnone : p.swept = []
  · refine ⟨p.host.link, ⟨rfl, rfl⟩, .inr ⟨?_, ?_⟩⟩
    · rw [sweepExpiredLeases_eq, hnone]
      rfl
    · simp [hnone, Log.numbered, records]
  · have hsome : ¬ p.swept.isEmpty = true := by simpa using hnone
    obtain ⟨link', hbeside, hcases⟩ := appendBatch_cases (p := p.withTimeouts) hcalm false
      (p.swept.map Prod.snd)
    refine ⟨link', hbeside, ?_⟩
    rcases hcases with ⟨e, happend, hlog⟩ | ⟨happend, hlog⟩
    · refine .inl ⟨.log e, ?_, hlog⟩
      rw [sweepExpiredLeases_eq, if_neg hsome, happend]
      rfl
    · refine .inr ⟨?_, hlog⟩
      rw [sweepExpiredLeases_eq, if_neg hsome, happend]

/-! ### Applying -/

/-- The partition when a command was applied but its follow-ups were refused. -/
def ahead (p : Partition) (link : LogLink) (command : Record) : Partition :=
  { p.withLink link with
    processor := (p.processor.apply command).2
    cursor := { p.cursor with needsRecovery := true } }

/-- The partition when a command was applied and its follow-ups are in the log. -/
def advanced (p : Partition) (link : LogLink) (command : Record) : Partition :=
  deliver
    { p.withLink link with
      processor := (p.processor.apply command).2
      cursor := { p.cursor with lastProcessed := some command.position } }
    (p.processor.apply command).1.response

/-- The router when the response of a command was delivered, if it has one. -/
def answered (p : Partition) (command : Record) : ResponseRouter :=
  match (p.processor.apply command).1.response with
  | some response => p.host.router.deliver response
  | none => p.host.router

theorem advanced_eq (p : Partition) (link : LogLink) (command : Record) :
    p.advanced link command =
      { p with
        host := { p.host with link, router := p.answered command }
        processor := (p.processor.apply command).2
        cursor := { p.cursor with lastProcessed := some command.position } } := by
  unfold advanced answered deliver
  cases (p.processor.apply command).1.response <;> rfl

section Advanced

variable (p : Partition) (link : LogLink) (command : Record)

@[simp] theorem advanced_config : (p.advanced link command).config = p.config := by
  rw [advanced_eq]

@[simp] theorem advanced_now : (p.advanced link command).now = p.now := by
  rw [advanced_eq]
  rfl

@[simp] theorem advanced_state :
    (p.advanced link command).state = (p.processor.apply command).2.state := by
  rw [advanced_eq]
  rfl

@[simp] theorem advanced_cursor :
    (p.advanced link command).cursor =
      { p.cursor with lastProcessed := some command.position } := by
  rw [advanced_eq]

@[simp] theorem advanced_link : (p.advanced link command).host.link = link := by
  rw [advanced_eq]

@[simp] theorem advanced_router : (p.advanced link command).host.router = p.answered command := by
  rw [advanced_eq]

@[simp] theorem advanced_pendingTriggers :
    (p.advanced link command).pendingTriggers = p.pendingTriggers := by
  rw [advanced_eq]

@[simp] theorem advanced_pendingTimeouts :
    (p.advanced link command).pendingTimeouts = p.pendingTimeouts := by
  rw [advanced_eq]

@[simp] theorem advanced_records : (p.advanced link command).records = link.log.records := by
  unfold records
  rw [advanced_link]

end Advanced

/-- A command is applied: its follow-ups are refused, or they are the last records. -/
theorem applyCommand_cases (hcalm : p.host.link.rebuildDue = false) (command : Record) :
    ∃ link', Beside p.host.link link' ∧
      ((∃ e, p.applyCommand command = (.error e, p.ahead link' command) ∧
          link'.log.records = p.records) ∨
        (p.applyCommand command = (.ok (), p.advanced link' command) ∧
          link'.log.records = p.records ++ Log.numbered (p.host.link.log.size + 1)
            (p.processor.apply command).1.followUps)) := by
  by_cases hnone : (p.processor.apply command).1.followUps = []
  · refine ⟨p.host.link, ⟨rfl, rfl⟩, .inr ⟨?_, ?_⟩⟩
    · have hempty : (p.processor.apply command).1.followUps.isEmpty = true := by rw [hnone]; rfl
      simp only [applyCommand, hempty, if_true]
      rfl
    · simp [hnone, Log.numbered, records]
  · have hsome : (p.processor.apply command).1.followUps.isEmpty = false := by simpa using hnone
    obtain ⟨link', hbeside, hcases⟩ := appendBatch_cases
      (p := { p with processor := (p.processor.apply command).2 })
      hcalm true (p.processor.apply command).1.followUps
    refine ⟨link', hbeside, ?_⟩
    rcases hcases with ⟨e, happend, hlog⟩ | ⟨happend, hlog⟩
    · refine .inl ⟨.log e, ?_, hlog⟩
      simp only [applyCommand, hsome, Bool.false_eq_true, if_false, happend]
      rfl
    · refine .inr ⟨?_, hlog⟩
      simp only [applyCommand, hsome, Bool.false_eq_true, if_false, happend]
      rfl

/-- Once the next command is applied, it is the last applied one, and the others are left. -/
theorem Sourced.applied_advanced (h : Sourced evaluator p) {command : Record} {rest : List Record}
    {link : LogLink} (hnext : p.unapplied = command :: rest)
    (hlog : link.log.records = p.records ++ Log.numbered (p.host.link.log.size + 1)
      (p.processor.apply command).1.followUps) :
    (p.advanced link command).applied = p.applied ++ [command] ∧
      (p.advanced link command).unapplied = rest := by
  refine applied_next h.numbered hnext ?_ ((p.advanced_records link command).trans hlog) ?_
  · rw [advanced_cursor]
  · intro draft hd
    exact (Processor.of_mem_followUps_apply h.builtin hd).2

section ApplyCommands

variable {command : Record} {others : List Record}

/-- The next command is not skipped. -/
theorem not_skipped (hnext : p.unapplied = command :: others) :
    (!command.isCommand || p.isProcessed command.position) = false := by
  have hmem : command ∈ p.unapplied := hnext ▸ List.mem_cons_self
  obtain ⟨-, hcommand, hnot⟩ := mem_unapplied_iff.mp hmem
  rw [hcommand, hnot]
  rfl

theorem applyCommands_cons_error (hnext : p.unapplied = command :: others) {e : PartitionError}
    (heq : p.applyCommand command = (.error e, q)) (rest : List Record) :
    applyCommands (command :: rest) p = (.error e, q) := by
  simp only [applyCommands, not_skipped hnext, Bool.false_eq_true, if_false, heq]

theorem applyCommands_cons_ok (hnext : p.unapplied = command :: others)
    (heq : p.applyCommand command = (.ok (), q)) (rest : List Record) :
    applyCommands (command :: rest) p =
      ((applyCommands rest q).1.map (· + 1), (applyCommands rest q).2) := by
  simp only [applyCommands, not_skipped hnext, Bool.false_eq_true, if_false, heq]

end ApplyCommands

/-! ### Reading and rebuilding -/

/-- The commands that are read are the first ones that are not applied. -/
theorem Sourced.readUnprocessed_eq (h : Sourced evaluator p) (max : Nat) :
    ∃ count, p.readUnprocessed max =
      (.ok (p.unapplied.take max), p.withLink (p.host.link.afterReads count)) := by
  obtain ⟨count, hread⟩ := LogLink.readCommands_eq h.readable h.numbered p.cursor.lastProcessed max
  refine ⟨count, ?_⟩
  rw [unapplied_eq h.numbered]
  unfold readUnprocessed
  rw [hread]
  rfl

/-- The commands that nothing follows from and that a rebuild gives up stand last. -/
theorem Sourced.applied_split (h : Sourced evaluator p) :
    ∃ idle, p.applied = Recovery.appliedCommands p.records ++ idle ∧
      ∀ command ∈ idle, Recovery.followUpsOf p.records command.position = [] := by
  have hearly : Recovery.appliedCommands p.records =
      (p.records.take ((Recovery.lastSource? p.records).getD 0)).filter Record.isCommand :=
    applied_eq (p := { p with cursor := { lastProcessed := Recovery.lastSource? p.records } })
      h.numbered
  obtain ⟨more, hmore⟩ := Nat.exists_eq_add_of_le h.lastSource_le
  refine ⟨((p.records.drop ((Recovery.lastSource? p.records).getD 0)).take more).filter
    Record.isCommand, ?_, ?_⟩
  · rw [applied_eq h.numbered, hearly, hmore, List.take_add, List.filter_append]
  · intro command hc
    have hdrop := List.mem_of_mem_take (List.mem_of_mem_filter hc)
    obtain ⟨i, hi, rfl⟩ := List.getElem_of_mem hdrop
    rw [List.length_drop] at hi
    have hindex : (Recovery.lastSource? p.records).getD 0 + i < p.records.length := by omega
    have hpos : (p.records[(Recovery.lastSource? p.records).getD 0 + i]).position =
        (Recovery.lastSource? p.records).getD 0 + i + 1 := h.numbered.position_getElem hindex
    rw [List.getElem_drop]
    refine Recovery.followUpsOf_eq_nil fun record hr hs => ?_
    obtain ⟨last, hlast, hsource⟩ := Recovery.le_lastSource hr hs
    rw [hpos, hlast, Option.getD_some] at hsource
    omega

/-- The partition when its state was rebuilt. -/
def rebuilt (p : Partition) (link : LogLink) : Partition :=
  { p.withLink link with
    processor := p.processor.reset.after (Recovery.appliedCommands p.records)
    cursor := { lastProcessed := Recovery.lastSource? p.records, needsRecovery := false }
    pendingTriggers := []
    pendingTimeouts := [] }

/-- The follow-ups of the commands that are applied again are those in the log. -/
theorem Sourced.followUps_split (h : Sourced evaluator p) {idle : List Record}
    (hsplit : p.applied = Recovery.appliedCommands p.records ++ idle) :
    ((Recovery.appliedCommands p.records).map fun command =>
        Recovery.followUpsOf p.records command.position) =
      ((p.initialEngine evaluator).outcomes (Recovery.appliedCommands p.records)).map
        Outcome.followUps ∧
    (idle.map fun command => Recovery.followUpsOf p.records command.position) =
      (((p.initialEngine evaluator).after (Recovery.appliedCommands p.records)).outcomes idle).map
        Outcome.followUps := by
  have hall := h.followUps
  rw [hsplit, Processor.outcomes_append, List.map_append, List.map_append] at hall
  exact List.append_inj hall (by rw [List.length_map, List.length_map, Processor.length_outcomes])

/-- **A rebuild finds in the log what it produces.**  This is so for every partition on the log of
one that agrees with it, wherever its own cursor stands. -/
theorem Sourced.recover_eq (h : Sourced evaluator p) (hlog : q.records = p.records)
    (hread : q.host.link.Readable) (hreset : q.processor.reset = p.initialEngine evaluator) :
    ∃ count, q.recover = (.ok (Recovery.appliedCommands q.records).length,
      q.rebuilt (q.host.link.afterReads count)) := by
  have hnum : q.host.link.log.Numbered := by
    unfold Log.Numbered Log.size
    rw [show q.host.link.log.records = p.host.link.log.records from hlog]
    exact h.numbered
  obtain ⟨count, hall⟩ := LogLink.readAll_eq hread hnum
  obtain ⟨idle, hsplit, -⟩ := h.applied_split
  have hreplay := Recovery.replay_eq q.records (Recovery.appliedCommands q.records)
    q.processor.reset (by rw [hlog, hreset]; exact (h.followUps_split hsplit).1)
  refine ⟨count, ?_⟩
  have hreplay' : Recovery.replay q.host.link.log.records
      (Recovery.appliedCommands q.host.link.log.records) q.processor.reset = _ := hreplay
  unfold recover
  rw [hall]
  simp only [withLink, hreplay']
  rfl

/-- The state that is rebuilt is the one that all applied commands lead to. -/
theorem Sourced.rebuilt_processor (h : Sourced evaluator p) (hlog : q.records = p.records)
    (hreset : q.processor.reset = p.initialEngine evaluator) (link : LogLink) :
    (q.rebuilt link).processor = (p.initialEngine evaluator).after p.applied := by
  obtain ⟨idle, hsplit, hidle⟩ := h.applied_split
  have hfollow := (h.followUps_split hsplit).2
  -- What the last commands produce is what the log holds for them, and that is nothing.
  have hnothing : ∀ outcome ∈ ((p.initialEngine evaluator).after
      (Recovery.appliedCommands p.records)).outcomes idle, outcome.followUps = [] := by
    intro outcome ho
    have hmem := List.mem_map_of_mem (f := Outcome.followUps) ho
    rw [← hfollow, List.mem_map] at hmem
    obtain ⟨command, hc, hnil⟩ := hmem
    rw [← hnil]
    exact hidle command hc
  rw [hsplit, Processor.after_append,
    Processor.after_of_followUps_nil idle _ (Processor.after_registry _ _) hnothing]
  show q.processor.reset.after (Recovery.appliedCommands q.records) = _
  rw [hreset, hlog]

/-- A rebuilt partition agrees with its log. -/
theorem Sourced.rebuilt (h : Sourced evaluator p) (hlog : q.records = p.records)
    (hid : q.config.partitionId = p.config.partitionId) {link : LogLink}
    (hlink : link.log = q.host.link.log) (hread : link.Readable)
    (hcalm : link.rebuildDue = false) (hreset : q.processor.reset = p.initialEngine evaluator) :
    Sourced evaluator (q.rebuilt link) := by
  obtain ⟨idle, hsplit, -⟩ := h.applied_split
  have hrecords : (q.rebuilt link).records = p.records := by
    rw [← hlog]
    exact congrArg Log.records hlink
  have happlied : (q.rebuilt link).applied = Recovery.appliedCommands p.records := by
    show (q.rebuilt link).records.filter _ = _
    rw [hrecords, ← hlog]
    rfl
  have hengine : (q.rebuilt link).initialEngine evaluator = p.initialEngine evaluator := by
    show Processor.start q.config.partitionId .builtin evaluator = _
    rw [hid]
    rfl
  have hsources : ∀ record ∈ p.records, ∀ source, record.sourcePosition = some source →
      ∃ command ∈ Recovery.appliedCommands p.records, command.position = source := by
    intro record hr source hs
    obtain ⟨command, hc, rfl⟩ := h.sources record hr source hs
    obtain ⟨last, hlast, hle⟩ := Recovery.le_lastSource hr hs
    have hmem := mem_applied_iff.mp hc
    refine ⟨command, ?_, rfl⟩
    simp [Recovery.appliedCommands, hmem.1, hmem.2.1, hlast, hle]
  refine ⟨?_, ?_, hread, hcalm, ?_, ?_, ?_, ?_⟩
  · rw [hengine, ← hreset]
    exact Processor.after_reset _ _
  · show (q.rebuilt link).records.map Record.position =
      List.range' 1 (q.rebuilt link).records.length
    rw [hrecords]
    exact h.numbered
  · show (Recovery.lastSource? q.records).getD 0 ≤ (q.rebuilt link).records.length
    rw [hrecords, hlog]
    exact Nat.le_trans h.lastSource_le h.cursor_le
  · rw [happlied, hengine, hrecords]
    exact (h.followUps_split hsplit).1
  · rw [happlied, hrecords]
    exact hsources
  · intro _
    rw [happlied, hengine, ← hreset]
    show q.processor.reset.after (Recovery.appliedCommands q.records) = _
    rw [hlog]

end Partition

end Workflow
