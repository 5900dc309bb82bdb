/-
Remembered timers await their triggers.

The checker remembers the timers that it appended trigger commands for, and appends no second
command for them while they are pending.  That is harmless only if the command is still to come:
a timer that is remembered, is pending, and awaits nothing would never fire.

So this is an invariant (`Watched`), and what keeps it is that timers are never changed and that
keys are never handed out twice.  It speaks about states that are not ahead of the log only;
a rebuild, which ends the other ones, forgets all that was remembered.
-/
import Workflow.Proofs.Partition.Chronicle

namespace Workflow

namespace Partition

variable {evaluator : Evaluator} {p q : Partition}

/-! ### Pending timers of a partition -/

/-- In a state that is not ahead of the log the pending timers are in order. -/
theorem Sourced.scheduled (h : Sourced evaluator p) (hcurrent : p.cursor.needsRecovery = false) :
    Scheduled p.state (p.cursor.lastProcessed.getD 0) := by
  unfold state
  rw [h.current hcurrent]
  refine Scheduled.after p.applied (p.initialEngine evaluator) rfl (.initial _ _) ?_
  intro command hc
  exact le_of_isProcessed (mem_applied_iff.mp hc).2.2

/-- All of them were created before the commands that are left. -/
theorem Sourced.createdBefore (h : Sourced evaluator p) (hcurrent : p.cursor.needsRecovery = false)
    {command : Record} (hmem : command ∈ p.unapplied) :
    p.state.CreatedBefore command.position := by
  intro timer ht
  exact Nat.lt_of_le_of_lt ((h.scheduled hcurrent).created timer ht)
    (lt_of_mem_unapplied h.numbered hmem)

theorem Sourced.reschedules (h : Sourced evaluator p) (link : LogLink) (command : Record) :
    Reschedules command.position p.state (p.advanced link command).state := by
  rw [advanced_state]
  exact Processor.reschedules_apply h.builtin command

/-- The timers of the firing batch are pending and due. -/
theorem Sourced.of_mem_batch (h : Sourced evaluator p) (hcurrent : p.cursor.needsRecovery = false)
    {now : Instant} {timer : Timer} (ht : timer ∈ p.state.timers.firingBatch now) :
    p.state.Pending timer ∧ timer.dueDate ≤ now := by
  have hindexed := (h.scheduled hcurrent).indexed
  obtain ⟨hfront, hsafe⟩ := hindexed.firingBatch_front now
  exact ⟨hindexed.mem_inOrder.mp (hfront.subset ht), hsafe.dueDate_le timer ht⟩

/-- Of one key at most one timer is pending. -/
theorem pending_unique {state : EngineState} {timer other : Timer} (ht : state.Pending timer)
    (ho : state.Pending other) (hkey : other.key = timer.key) : other = timer := by
  unfold EngineState.Pending at ht ho
  rw [hkey, ht] at ho
  exact (Option.some.inj ho).symm

/-! ### What is remembered -/

/-- A trigger command for the timer is in the log and is not applied. -/
def Awaits (p : Partition) (timer : Timer) : Prop :=
  ∃ command ∈ p.unapplied, ∃ now, timer.dueDate ≤ now ∧
    command.toDraft = triggerCommand now timer

/-- The timers that are remembered await their triggers. -/
structure Watched (p : Partition) : Prop where
  /-- Their keys were handed out. -/
  issued : ∀ key ∈ p.pendingTriggers, p.state.Issued key
  /-- Those that are pending await their triggers. -/
  awaits : ∀ timer, p.state.Pending timer → timer.key ∈ p.pendingTriggers → p.Awaits timer

/-- Where nothing is remembered there is nothing to await. -/
theorem Watched.of_nothing (hnothing : p.pendingTriggers = []) : p.Watched := by
  refine ⟨fun key hk => ?_, fun timer _ hk => ?_⟩
  · rw [hnothing] at hk
    exact absurd hk List.not_mem_nil
  · rw [hnothing] at hk
    exact absurd hk List.not_mem_nil

/-- A trigger command that a partition appends is the one of its timer. -/
theorem eq_triggerAt {command : Record} {now : Instant} {timer : Timer}
    (h : command.toDraft = triggerCommand now timer) :
    command = triggerAt command.position now timer := by
  unfold triggerAt
  rw [← h]
  rfl

/-- Applying the trigger of a timer fires it. -/
theorem Sourced.advanced_trigger (h : Sourced evaluator p) {command : Record} {now : Instant}
    {timer : Timer} (hpending : p.state.Pending timer) (hdue : timer.dueDate ≤ now)
    (hdraft : command.toDraft = triggerCommand now timer) (link : LogLink) :
    (p.advanced link command).state = p.state.fired timer command.position := by
  have happly := (Processor.apply_triggerAt h.builtin hpending hdue command.position).1
  rw [← eq_triggerAt hdraft] at happly
  rw [advanced_state, happly]
  rfl

/-- What arrives is remembered only together with its trigger. -/
theorem Watched.arrived (hwatched : p.Watched) (h : Sourced evaluator p)
    (hcurrent : p.cursor.needsRecovery = false) {drafts : List Draft} (hstate : q.state = p.state)
    (hcursor : q.cursor = p.cursor)
    (hlog : q.records = p.records ++ Log.numbered (p.host.link.log.size + 1) drafts)
    (hwatch : ∀ key ∈ q.pendingTriggers, key ∈ p.pendingTriggers ∨
      ∃ timer ∈ p.untriggered, timer.key = key ∧ triggerCommand p.now timer ∈ drafts) :
    q.Watched := by
  have hleft := unapplied_extend h.cursor_le hcursor hlog
  refine ⟨?_, ?_⟩
  · intro key hk
    rw [hstate]
    rcases hwatch key hk with hold | ⟨timer, ht, rfl, -⟩
    · exact hwatched.issued key hold
    · have hbatch := h.of_mem_batch hcurrent (List.mem_of_mem_filter ht)
      exact (h.scheduled hcurrent).issued timer hbatch.1
  · intro timer hpending hk
    rw [hstate] at hpending
    rcases hwatch timer.key hk with hold | ⟨found, ht, hkey, hdraft⟩
    · obtain ⟨command, hc, now, hdue, hdraft⟩ := hwatched.awaits timer hpending hold
      refine ⟨command, ?_, now, hdue, hdraft⟩
      rw [hleft]
      exact List.mem_append_left _ hc
    · have hbatch := h.of_mem_batch hcurrent (List.mem_of_mem_filter ht)
      have hsame := pending_unique hpending hbatch.1 hkey
      subst hsame
      obtain ⟨command, hc, hcommand⟩ := h.exists_unapplied hcursor hlog hdraft rfl
      exact ⟨command, hc, p.now, hbatch.2, hcommand⟩

/-- A timer that is pending after a command was applied awaited another one. -/
theorem Watched.advanced (hwatched : p.Watched) (h : Sourced evaluator p)
    (hcurrent : p.cursor.needsRecovery = false) {command : Record} {rest : List Record}
    {link : LogLink} (hnext : p.unapplied = command :: rest)
    (hlog : link.log.records = p.records ++ Log.numbered (p.host.link.log.size + 1)
      (p.processor.apply command).1.followUps)
    (hkeys : (p.advanced link command).state.keyCounter < 2 ^ keyCounterBits) :
    (p.advanced link command).Watched := by
  have hmem : command ∈ p.unapplied := hnext ▸ List.mem_cons_self
  have hchange := h.reschedules link command
  obtain ⟨-, hleft⟩ := h.applied_advanced hnext hlog
  refine ⟨?_, ?_⟩
  · intro key hk
    rw [advanced_pendingTriggers] at hk
    exact hchange.toGrows.issued (hwatched.issued key hk)
  · intro timer hpending hk
    rw [advanced_pendingTriggers] at hk
    have hold := hchange.pending_of_issued hkeys hpending (hwatched.issued _ hk)
    obtain ⟨found, hfound, now, hdue, hdraft⟩ := hwatched.awaits timer hold hk
    refine ⟨found, ?_, now, hdue, hdraft⟩
    rw [hleft]
    rw [hnext] at hfound
    refine (List.mem_cons.mp hfound).resolve_left fun heq => ?_
    -- Its own trigger would have fired it, and the successor is created later than it was.
    rw [heq] at hdraft
    rw [h.advanced_trigger hold hdue hdraft link] at hpending
    rcases EngineState.pending_fired hpending with hsuccessor | ⟨-, hne, -⟩
    · have hlater := h.createdBefore hcurrent hmem timer hold
      rw [(Timer.successor?_some hsuccessor).2.1] at hlater
      exact Nat.lt_irrefl _ hlater
    · exact hne rfl

/-- **A move keeps what is remembered in order.** -/
theorem Watched.move (h : Sourced evaluator p) (hid : p.config.partitionId ≤ maxPartitionId)
    (hwatched : p.cursor.needsRecovery = false → p.Watched) (hmove : Move evaluator p q)
    (hkeys : KeysFit evaluator q) (hcurrent : q.cursor.needsRecovery = false) : q.Watched := by
  obtain ⟨hq, -⟩ := h.move hid hmove
  cases hmove.effect h hid with
  | arrived drafts hconfig hprocessor hcursor hreads hcalm hlog harrives hwatch =>
      rw [hcursor] at hcurrent
      have hstate : q.state = p.state := by
        unfold state
        rw [hprocessor]
      exact (hwatched hcurrent).arrived h hcurrent hstate hcursor hlog hwatch
  | applied command rest link hcurrent' hnext hbeside hend hlog =>
      unfold KeysFit at hkeys
      rw [← hq.engine_eq hcurrent, hend] at hkeys
      rw [hend]
      exact (hwatched hcurrent').advanced h hcurrent' hnext hlog hkeys
  | spoiled command link hbeside hend hlog =>
      rw [hend] at hcurrent
      cases hcurrent
  | rebuilt hsourced hsame hlog hcurrent' hengine hwatch => exact .of_nothing hwatch

/-- Any number of moves do. -/
theorem Watched.moves (h : Sourced evaluator p) (hid : p.config.partitionId ≤ maxPartitionId)
    (hwatched : p.cursor.needsRecovery = false → p.Watched) (hmoves : Moves evaluator p q) :
    KeysFit evaluator q → q.cursor.needsRecovery = false → q.Watched := by
  induction hmoves with
  | refl => intro _; exact hwatched
  | tail hmoves hmove ih =>
      intro hkeys hcurrent
      obtain ⟨hmid, hsame⟩ := h.moves hid hmoves
      have hidMid := hsame ▸ hid
      exact Watched.move hmid hidMid
        (ih (hkeys.earlier hmid hidMid (.single hmove))) hmove hkeys hcurrent

end Partition

end Workflow
