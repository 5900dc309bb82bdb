/-
What is left to do while the clock stands still.

Three things are counted (`load`).  First the requests that are left in the log: a partition adds
none.  Then how far the pending timers lag behind the clock: a timer that fires lets them lag less.
Last the checks, which are the triggers and time-outs that are left in the log, and the timers and
leases that are yet to get one: a checker turns the latter into the former, one for one.

The order is lexicographic, because applying what is counted first may add to what is counted later.
A request may schedule timers and lease jobs, and when a timer fires its successor may be due.
Nothing adds to what is counted before it, so every command that is applied lowers the load.
-/
import Mathlib.Data.List.Nodup
import Mathlib.Data.List.TakeWhile
import Mathlib.Data.Prod.Lex
import Workflow.Proofs.Partition.Queue
import Workflow.Proofs.Timer.Lag

namespace Workflow

/-- Whether a command is of a kind that the checkers append. -/
def Intent.isCheck (intent : Intent) : Bool := intent == .timer .trigger || intent == .job .timeOut

/-- Whether a command is one that a checker appends, or one like it. -/
def Record.isCheck (command : Record) : Bool := command.intent.isCheck

/-- **Applying a check** fires a pending timer, or it gives up leases at most. -/
theorem Processor.apply_check {processor : Processor} (hbuiltin : processor.registry = .builtin)
    (hindexed : processor.state.timers.Indexed) {command : Record}
    (hcheck : command.isCheck = true) :
    (∃ timer, processor.state.Pending timer ∧
      (processor.apply command).2.state = processor.state.fired timer command.position) ∨
    ∃ jobs, jobs.leases.toList.Sublist processor.state.jobs.leases.toList ∧
      (processor.apply command).2.state = { processor.state with jobs } := by
  have hkind : ∀ intent, command.intent = intent → intent.isCheck = true :=
    fun intent heq => heq ▸ hcheck
  rcases apply_cases hbuiltin command with hsame | ⟨answer, others, -, haccepted, -⟩
  · exact .inr ⟨processor.state.jobs, List.Sublist.refl _, hsame⟩
  · generalize (processor.apply command).2.state = final at haccepted
    cases haccepted with
    | timerFired key timer hintent hkey htimer hdue =>
        have hsame := hindexed.key_eq key timer htimer
        subst hsame
        exact .inl ⟨timer, htimer, rfl⟩
    | jobTimedOut key observed job jobs hintent hkey hobserved htimeOut =>
        obtain ⟨-, -, -, -, -, -, heq⟩ := JobLedger.timeOut_ok htimeOut
        refine .inr ⟨jobs, ?_, rfl⟩
        rw [heq]
        exact List.filter_sublist
    | _ => exact absurd (hkind _ (by assumption)) (by decide)

namespace Partition

variable {evaluator : Evaluator} {p q : Partition} {command : Record} {rest : List Record}
  {link : LogLink}

/-! ### What is counted -/

/-- Whether a timer is due and not remembered. -/
def isWaiting (p : Partition) (timer : Timer) : Bool :=
  decide (timer.dueDate ≤ p.now) && !p.pendingTriggers.contains timer.key

/-- The timers that are yet to get a trigger. -/
def waiting (p : Partition) : List Timer := p.state.timers.inOrder.filter p.isWaiting

/-- Whether a lease is over and not remembered. -/
def isOverdue (p : Partition) (lease : Lease) : Bool :=
  decide (lease.deadline < p.now) && !p.pendingTimeouts.contains lease

/-- The leases that are yet to get a time-out. -/
def overdue (p : Partition) : List Lease := p.state.jobs.leases.toList.filter p.isOverdue

/-- How many requests are left. -/
def requestsLeft (p : Partition) : Nat := p.unapplied.countP fun command => !command.isCheck

/-- How many checks are left, those included that are yet to be appended. -/
def checksLeft (p : Partition) : Nat :=
  p.unapplied.countP Record.isCheck + p.waiting.length + p.overdue.length

/-- **What is left to do**: requests, then the lag of the timers, then checks. -/
def load (p : Partition) : Nat ×ₗ Nat ×ₗ Nat :=
  toLex (p.requestsLeft, toLex (p.state.timers.lag p.now, p.checksLeft))

theorem load_le (hrequests : q.requestsLeft = p.requestsLeft)
    (hlag : q.state.timers.lag q.now = p.state.timers.lag p.now)
    (hchecks : q.checksLeft ≤ p.checksLeft) : q.load ≤ p.load := by
  unfold load
  rw [Prod.Lex.toLex_le_toLex, Prod.Lex.toLex_le_toLex]
  exact .inr ⟨hrequests, .inr ⟨hlag, hchecks⟩⟩

theorem load_lt_of_requests (hrequests : q.requestsLeft < p.requestsLeft) : q.load < p.load := by
  unfold load
  rw [Prod.Lex.toLex_lt_toLex]
  exact .inl hrequests

theorem load_lt_of_lag (hrequests : q.requestsLeft = p.requestsLeft)
    (hlag : q.state.timers.lag q.now < p.state.timers.lag p.now) : q.load < p.load := by
  unfold load
  rw [Prod.Lex.toLex_lt_toLex, Prod.Lex.toLex_lt_toLex]
  exact .inr ⟨hrequests, .inl hlag⟩

theorem load_lt_of_checks (hrequests : q.requestsLeft = p.requestsLeft)
    (hlag : q.state.timers.lag q.now ≤ p.state.timers.lag p.now)
    (hchecks : q.checksLeft < p.checksLeft) : q.load < p.load := by
  rcases Nat.lt_or_eq_of_le hlag with hless | hsame
  · exact load_lt_of_lag hrequests hless
  · unfold load
    rw [Prod.Lex.toLex_lt_toLex, Prod.Lex.toLex_lt_toLex]
    exact .inr ⟨hrequests, .inr ⟨hsame, hchecks⟩⟩

theorem isWaiting_iff {timer : Timer} :
    p.isWaiting timer = true ↔ timer.dueDate ≤ p.now ∧ timer.key ∉ p.pendingTriggers := by
  simp [isWaiting]

theorem isOverdue_iff {lease : Lease} :
    p.isOverdue lease = true ↔ lease.deadline < p.now ∧ lease ∉ p.pendingTimeouts := by
  simp [isOverdue]

/-! ### Checkers -/

/-- What stands in front is no longer selected, and of the others no more than before. -/
theorem length_filter_add_le {α : Type} {selected selected' : α → Bool} {front others : List α}
    (hfront : ∀ item ∈ front, selected' item = false)
    (hothers : ∀ item ∈ others, selected' item = true → selected item = true) :
    (front.filter selected).length + ((front ++ others).filter selected').length ≤
      ((front ++ others).filter selected).length := by
  have hless := List.countP_mono_left hothers
  rw [List.countP_eq_length_filter, List.countP_eq_length_filter] at hless
  have hnone : front.filter selected' = [] :=
    List.filter_eq_nil_iff.mpr fun item hi => by simp [hfront item hi]
  rw [List.filter_append, List.filter_append, hnone, List.nil_append, List.length_append]
  exact Nat.add_le_add_left hless _

/-- The timers that get a trigger were waiting, and are no longer. -/
theorem length_waiting_withTriggers (h : Sourced evaluator p)
    (hcurrent : p.cursor.needsRecovery = false) :
    p.untriggered.length + p.withTriggers.waiting.length ≤ p.waiting.length := by
  have hindexed := (h.scheduled hcurrent).indexed
  obtain ⟨⟨others, hothers⟩, -⟩ := hindexed.firingBatch_front p.now
  have hkept : ∀ timer ∈ p.state.timers.inOrder,
      (timer.key ∈ p.keptTriggers ↔ timer.key ∈ p.pendingTriggers) := fun timer ht =>
    mem_keptTriggers (hindexed.mem_inOrder.mp ht)
  have hin : ∀ timer ∈ p.state.timers.firingBatch p.now, timer ∈ p.state.timers.inOrder :=
    fun timer ht => hothers ▸ List.mem_append_left _ ht
  have hbatch : p.untriggered = (p.state.timers.firingBatch p.now).filter p.isWaiting := by
    refine List.filter_congr fun timer ht => ?_
    have hdue := (h.of_mem_batch hcurrent ht).2
    simp [isWaiting, hdue, hkept timer (hin timer ht)]
  have hfront : ∀ timer ∈ p.state.timers.firingBatch p.now,
      p.withTriggers.isWaiting timer = false := by
    intro timer ht
    rw [Bool.eq_false_iff, ne_eq, isWaiting_iff]
    rintro ⟨-, hnot⟩
    refine hnot (List.mem_append.mpr ?_)
    by_cases hold : timer.key ∈ p.keptTriggers
    · exact .inl hold
    · exact .inr (List.mem_map_of_mem (List.mem_filter.mpr ⟨ht, by simpa using hold⟩))
  have hrest : ∀ timer ∈ others, p.withTriggers.isWaiting timer = true →
      p.isWaiting timer = true := by
    intro timer ht hwaiting
    obtain ⟨hdue, hnot⟩ := isWaiting_iff.mp hwaiting
    have hmem : timer ∈ p.state.timers.inOrder := hothers ▸ List.mem_append_right _ ht
    refine isWaiting_iff.mpr ⟨hdue, fun hold => hnot (List.mem_append_left _ ?_)⟩
    exact (hkept timer hmem).mpr hold
  have hless := length_filter_add_le hfront hrest
  rw [hothers, ← hbatch] at hless
  exact hless

/-- The leases that get a time-out were overdue, and are no longer. -/
theorem length_overdue_withTimeouts (p : Partition) :
    p.unreclaimed.length + p.withTimeouts.overdue.length ≤ p.overdue.length := by
  have hothers : p.state.jobs.expiredLeases p.now ++
      p.state.jobs.leases.toList.dropWhile (fun lease => decide (lease.deadline < p.now)) =
        p.state.jobs.leases.toList := List.takeWhile_append_dropWhile
  have hkept : ∀ lease ∈ p.state.jobs.leases.toList,
      (lease ∈ p.keptTimeouts ↔ lease ∈ p.pendingTimeouts) := by
    intro lease hl
    have hheld : p.state.jobs.holdsLease lease.key lease.deadline = true := decide_eq_true hl
    unfold keptTimeouts
    rw [List.mem_filter, hheld]
    exact and_iff_left rfl
  have hin : ∀ lease ∈ p.state.jobs.expiredLeases p.now, lease ∈ p.state.jobs.leases.toList :=
    fun lease hl => hothers ▸ List.mem_append_left _ hl
  have hbatch : p.unreclaimed = (p.state.jobs.expiredLeases p.now).filter p.isOverdue := by
    refine List.filter_congr fun lease hl => ?_
    have hover : lease.deadline < p.now := by
      have hdecided := List.mem_takeWhile_imp hl
      exact of_decide_eq_true hdecided
    simp [isOverdue, hover, hkept lease (hin lease hl)]
  have hfront : ∀ lease ∈ p.state.jobs.expiredLeases p.now,
      p.withTimeouts.isOverdue lease = false := by
    intro lease hl
    rw [Bool.eq_false_iff, ne_eq, isOverdue_iff]
    rintro ⟨-, hnot⟩
    refine hnot (List.mem_append.mpr ?_)
    by_cases hold : lease ∈ p.keptTimeouts
    · exact .inl hold
    · exact .inr (List.mem_filter.mpr ⟨hl, by simpa using hold⟩)
  have hrest : ∀ lease ∈ p.state.jobs.leases.toList.dropWhile
      (fun lease => decide (lease.deadline < p.now)),
      p.withTimeouts.isOverdue lease = true → p.isOverdue lease = true := by
    intro lease hl hoverdue
    obtain ⟨hover, hnot⟩ := isOverdue_iff.mp hoverdue
    have hmem : lease ∈ p.state.jobs.leases.toList := hothers ▸ List.mem_append_right _ hl
    refine isOverdue_iff.mpr ⟨hover, fun hold => hnot (List.mem_append_left _ ?_)⟩
    exact (hkept lease hmem).mpr hold
  have hless := length_filter_add_le hfront hrest
  rw [hothers, ← hbatch] at hless
  exact hless

/-- Checks that are appended are no more to do than what they are appended for. -/
theorem load_appended (h : Sourced evaluator p) {drafts : List Draft}
    (hprocessor : q.processor = p.processor) (hclock : q.now = p.now)
    (hcursor : q.cursor = p.cursor)
    (hlog : q.records = p.records ++ Log.numbered (p.host.link.log.size + 1) drafts)
    (hdrafts : ∀ draft ∈ drafts, draft.kind = .command ∧ draft.intent.isCheck = true)
    (hless : drafts.length + q.waiting.length + q.overdue.length ≤
      p.waiting.length + p.overdue.length) : q.load ≤ p.load := by
  have hleft := h.unapplied_commands hcursor hlog fun draft hd => (hdrafts draft hd).1
  have hchecks : ∀ command ∈ Log.numbered (p.host.link.log.size + 1) drafts,
      command.isCheck = true := fun command hc =>
    (hdrafts _ (Log.toDraft_mem_of_mem_numbered hc)).2
  refine load_le ?_ ?_ ?_
  · have hnone : (Log.numbered (p.host.link.log.size + 1) drafts).countP
        (fun command => !command.isCheck) = 0 :=
      List.countP_eq_zero.mpr fun command hc => by simp [hchecks command hc]
    unfold requestsLeft
    rw [hleft, List.countP_append, hnone]
    rfl
  · unfold state
    rw [hprocessor, hclock]
  · unfold checksLeft
    rw [hleft, List.countP_append, List.countP_eq_length.mpr hchecks, Log.length_numbered]
    omega

/-- **Checking the timers** adds nothing to the load. -/
theorem load_checkDueTimers (h : Sourced evaluator p) (hcurrent : p.cursor.needsRecovery = false)
    (hok : p.checkDueTimers = (.ok (), q)) : q.now = p.now ∧ q.load ≤ p.load := by
  obtain ⟨link, -, ⟨e, heq, -⟩ | ⟨heq, hlog⟩⟩ := checkDueTimers_cases h.calm
  · rw [heq] at hok
    cases hok
  · rw [heq] at hok
    cases hok
    refine ⟨rfl, load_appended h rfl rfl rfl hlog ?_ ?_⟩
    · intro draft hd
      obtain ⟨timer, -, rfl⟩ := List.mem_map.mp hd
      exact ⟨rfl, rfl⟩
    · have hless := length_waiting_withTriggers h hcurrent
      rw [List.length_map]
      exact Nat.add_le_add_right hless _

/-- **Checking the leases** adds nothing to the load. -/
theorem load_sweepExpiredLeases (h : Sourced evaluator p)
    (hok : p.sweepExpiredLeases = (.ok (), q)) : q.now = p.now ∧ q.load ≤ p.load := by
  obtain ⟨link, -, ⟨e, heq, -⟩ | ⟨heq, hlog⟩⟩ := sweepExpiredLeases_cases h.calm
  · rw [heq] at hok
    cases hok
  · rw [heq] at hok
    cases hok
    refine ⟨rfl, load_appended h rfl rfl rfl hlog ?_ ?_⟩
    · intro draft hd
      obtain ⟨entry, hentry, rfl⟩ := List.mem_map.mp hd
      obtain ⟨-, job, -, hdraft⟩ := mem_swept hentry
      rw [hdraft]
      exact ⟨rfl, rfl⟩
    · have hswept : p.swept.length ≤ p.unreclaimed.length := List.length_filterMap_le _ _
      have hless := length_overdue_withTimeouts p
      have hwaiting : (p.withTimeouts.withLink link).waiting = p.waiting := rfl
      have hoverdue : (p.withTimeouts.withLink link).overdue = p.withTimeouts.overdue := rfl
      rw [List.length_map, hwaiting, hoverdue]
      omega

/-! ### Applying -/

section Apply

variable {timer : Timer}

theorem mem_waiting (hindexed : p.state.timers.Indexed) :
    timer ∈ p.waiting ↔ p.state.Pending timer ∧ p.isWaiting timer = true := by
  unfold waiting
  rw [List.mem_filter, hindexed.mem_inOrder]
  rfl

theorem nodup_waiting (hindexed : p.state.timers.Indexed) : p.waiting.Nodup := by
  refine (hindexed.inOrder_ascending.filter p.isWaiting).imp fun {a b} hlt heq => ?_
  rw [heq] at hlt
  exact StrictOrder.irrefl _ hlt

/-- The engine of a partition that is not ahead of the log has timers that make progress. -/
theorem Sourced.advancing (h : Sourced evaluator p) (hcurrent : p.cursor.needsRecovery = false)
    (hevaluator : evaluator.Advances) : Advancing p.state := by
  unfold state
  rw [h.current hcurrent]
  exact Advancing.after hevaluator p.applied (p.initialEngine evaluator) rfl rfl (.initial _)

/-- When a timer fires that is not due, no more timers wait. -/
theorem length_waiting_fired_late (hnow : p.now < Instant.latest)
    (hindexed : p.state.timers.Indexed) (hlate : p.now < timer.dueDate) {position : Nat}
    (hfired : q.state = p.state.fired timer position) (hindexed' : q.state.timers.Indexed)
    (hclock : q.now = p.now) (hwatch : q.pendingTriggers = p.pendingTriggers) :
    q.waiting.length ≤ p.waiting.length := by
  refine (nodup_waiting hindexed').length_le_of_subset fun other ho => ?_
  obtain ⟨hpending, hwaiting⟩ := (mem_waiting hindexed').mp ho
  rw [isWaiting_iff, hclock, hwatch] at hwaiting
  rw [hfired] at hpending
  have hold := EngineState.pending_of_fired_late hnow hlate hpending hwaiting.1
  exact (mem_waiting hindexed).mpr ⟨hold, isWaiting_iff.mpr hwaiting⟩

/-- A timer that fires lets the timers lag less, or, when it is not due, one check is done. -/
theorem load_fired_lt (hnow : p.now < Instant.latest) (hadvancing : Advancing p.state)
    (hpending : p.state.Pending timer) {position : Nat}
    (hfired : q.state = p.state.fired timer position) (hindexed : q.state.timers.Indexed)
    (hclock : q.now = p.now) (htriggers : q.pendingTriggers = p.pendingTriggers)
    (htimeouts : q.pendingTimeouts = p.pendingTimeouts)
    (hrequests : q.requestsLeft = p.requestsLeft)
    (hchecks : p.unapplied.countP Record.isCheck = q.unapplied.countP Record.isCheck + 1) :
    q.load < p.load := by
  by_cases hdue : timer.dueDate ≤ p.now
  -- A successor may be due as well and wait, so only the lag falls here.
  · refine load_lt_of_lag hrequests ?_
    rw [hfired, hclock]
    exact EngineState.lag_fired_lt hnow hpending hdue (hadvancing.advances timer hpending) position
  · have hlate := (Instant.not_le _ _).mp hdue
    have hwaiting := length_waiting_fired_late hnow hadvancing.indexed hlate hfired hindexed hclock
      htriggers
    have hoverdue : q.overdue = p.overdue := by
      unfold overdue isOverdue
      rw [hfired, EngineState.fired_eq p.state timer position, hclock, htimeouts]
    refine load_lt_of_checks hrequests ?_ ?_
    · rw [hfired, hclock]
      exact EngineState.lag_fired_le hnow hpending hlate position
    · unfold checksLeft
      rw [hchecks, hoverdue]
      omega

/-- When leases are given up at most, one check is done. -/
theorem load_released_lt {jobs : JobLedger}
    (hleases : jobs.leases.toList.Sublist p.state.jobs.leases.toList)
    (hstate : q.state = { p.state with jobs }) (hclock : q.now = p.now)
    (htriggers : q.pendingTriggers = p.pendingTriggers)
    (htimeouts : q.pendingTimeouts = p.pendingTimeouts)
    (hrequests : q.requestsLeft = p.requestsLeft)
    (hchecks : p.unapplied.countP Record.isCheck = q.unapplied.countP Record.isCheck + 1) :
    q.load < p.load := by
  have hwaiting : q.waiting = p.waiting := by
    unfold waiting isWaiting
    rw [hstate, hclock, htriggers]
  have hoverdue : q.overdue.length ≤ p.overdue.length := by
    unfold overdue isOverdue
    rw [hstate, hclock, htimeouts]
    exact (hleases.filter _).length_le
  refine load_lt_of_checks hrequests ?_ ?_
  · rw [hstate, hclock]
  · unfold checksLeft
    rw [hchecks, hwaiting]
    omega

/-- **Applying the next command lowers the load.** -/
theorem load_advanced_lt (h : Sourced evaluator p) (hcurrent : p.cursor.needsRecovery = false)
    (hevaluator : evaluator.Advances) (hnow : p.now < Instant.latest)
    (hnext : p.unapplied = command :: rest)
    (hlog : link.log.records = p.records ++ Log.numbered (p.host.link.log.size + 1)
      (p.processor.apply command).1.followUps) : (p.advanced link command).load < p.load := by
  obtain ⟨-, hleft⟩ := h.applied_advanced hnext hlog
  have hadvancing := h.advancing hcurrent hevaluator
  have hclock := p.advanced_now link command
  have htriggers := p.advanced_pendingTriggers link command
  have htimeouts : (p.advanced link command).pendingTimeouts = p.pendingTimeouts := by
    rw [advanced_eq]
  cases hcheck : command.isCheck with
  | false =>
      -- What is left shortens by a request, whatever timers and leases come of it.
      refine load_lt_of_requests ?_
      unfold requestsLeft
      rw [hleft, hnext, List.countP_cons_of_pos (by simp [hcheck])]
      exact Nat.lt_succ_self _
  | true =>
      have hrequests : (p.advanced link command).requestsLeft = p.requestsLeft := by
        unfold requestsLeft
        rw [hleft, hnext, List.countP_cons_of_neg (by simp [hcheck])]
      have hchecks : p.unapplied.countP Record.isCheck =
          (p.advanced link command).unapplied.countP Record.isCheck + 1 := by
        rw [hleft, hnext, List.countP_cons_of_pos hcheck]
      rcases Processor.apply_check h.builtin hadvancing.indexed hcheck with
        ⟨timer, hpending, hfired⟩ | ⟨jobs, hleases, hstate⟩
      · exact load_fired_lt hnow hadvancing hpending ((p.advanced_state link command).trans hfired)
          ((h.reschedules link command).indexed hadvancing.indexed) hclock htriggers htimeouts
          hrequests hchecks
      · exact load_released_lt hleases ((p.advanced_state link command).trans hstate) hclock
          htriggers htimeouts hrequests hchecks

end Apply

end Partition

end Workflow
