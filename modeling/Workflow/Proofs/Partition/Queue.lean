/-
The triggers that wait in the log.

While a partition that was idle runs rounds, the commands that are left are triggers and time-outs.
The triggers are those of a front part of the firing batch, in order, and those are the timers that
are remembered (`Queued`).  Checking the timers makes the front part the whole batch, applying a
trigger takes the first timer off it, and a time-out leaves it alone.

What fires on the way is what fires in turn (`Progress`).  The time-outs change jobs, which timers
do not look at, so the engine that fires in turn is one with the same timers and processes.
-/
import Workflow.Proofs.Partition.Watch

namespace Workflow

open EngineState

/-! ### Jobs do not matter for timers -/

namespace EngineState

/-- The other state differs in jobs and incidents only. -/
def Mirrors (state other : EngineState) : Prop :=
  other = { state with jobs := other.jobs, incidents := other.incidents }

namespace Mirrors

variable {state other : EngineState} {now : Instant} {timer : Timer} {position : Nat}

theorem timers (h : Mirrors state other) : other.timers = state.timers := by
  rw [h]

theorem firesNext (h : Mirrors state other) (hnext : state.FiresNext now timer) :
    other.FiresNext now timer := by
  obtain ⟨hpending, hdue, hleast⟩ := hnext
  unfold Pending at hpending hleast
  rw [← h.timers] at hpending hleast
  exact ⟨hpending, hdue, hleast⟩

theorem createdBefore (h : Mirrors state other) (hlater : state.CreatedBefore position) :
    other.CreatedBefore position := by
  intro timer ht
  unfold Pending at ht
  rw [h.timers] at ht
  exact hlater timer ht

theorem noneDue (h : Mirrors state other) (hnone : state.NoneDue now) : other.NoneDue now := by
  intro timer ht
  unfold Pending at ht
  rw [h.timers] at ht
  exact hnone timer ht

theorem fired (h : Mirrors state other) (timer : Timer) (position : Nat) :
    Mirrors (state.fired timer position) (other.fired timer position) := by
  cases other with
  | mk partitionId keyCounter processes timers jobs incidents =>
      unfold Mirrors at h
      simp only [EngineState.mk.injEq] at h
      obtain ⟨rfl, rfl, rfl, rfl, -⟩ := h
      have hstart := fireStart_with state timer state.timers jobs incidents
      unfold Mirrors
      rw [fired_eq, fired_eq]
      unfold successorOf
      rw [hstart]
      rfl

/-- Changing the jobs of one state changes nothing. -/
theorem withJobs (h : Mirrors state other) (jobs : JobLedger) :
    Mirrors { state with jobs } other := by
  unfold Mirrors at h ⊢
  rw [h]

end Mirrors

end EngineState

/-! ### What fires -/

/-- How an event tells of a timer: its key and its due date. -/
def Timer.name (timer : Timer) : Option Nat × Option Instant :=
  (some timer.key, some timer.dueDate)

/-- Whether a draft is the event that a timer has fired. -/
def Draft.isTriggered (draft : Draft) : Bool :=
  draft.kind == .event && draft.intent == .timer .triggered

/-- The timers that have fired by the events among records, in order. -/
def triggered (records : List Record) : List (Option Nat × Option Instant) :=
  (records.filter fun record => record.toDraft.isTriggered).map fun record =>
    (record.key, record.value.timer?.bind TimerPayload.dueDate)

theorem triggered_append (first second : List Record) :
    triggered (first ++ second) = triggered first ++ triggered second := by
  unfold triggered
  rw [List.filter_append, List.map_append]

theorem triggered_numbered (position : Nat) (drafts : List Draft) :
    triggered (Log.numbered position drafts) = (drafts.filter Draft.isTriggered).map fun draft =>
      (draft.key, draft.value.timer?.bind TimerPayload.dueDate) := by
  conv_rhs => rw [← Log.toDraft_numbered drafts position, List.filter_map, List.map_map]
  rfl

theorem triggered_eq_nil {position : Nat} {drafts : List Draft}
    (h : ∀ draft ∈ drafts, draft.isTriggered = false) :
    triggered (Log.numbered position drafts) = [] := by
  rw [triggered_numbered, List.filter_eq_nil_iff.mpr fun draft hd => by simp [h draft hd]]
  rfl

/-- The events of a trigger tell that its timer has fired, and no other one. -/
theorem Processor.triggered_triggerAt {processor : Processor}
    (hbuiltin : processor.registry = .builtin) {now : Instant} {timer : Timer}
    (hpending : processor.state.Pending timer) (hdue : timer.dueDate ≤ now)
    (position first : Nat) :
    triggered (Log.numbered first (processor.apply (triggerAt position now timer)).1.followUps) =
      [timer.name] := by
  obtain ⟨-, others, hothers, hfollow⟩ := apply_triggerAt hbuiltin hpending hdue position
  have hrest : (others.map fun event => Draft.event (triggerAt position now timer)
      (some event.key) event.intent event.value).filter Draft.isTriggered = [] := by
    refine List.filter_eq_nil_iff.mpr fun draft hd => ?_
    obtain ⟨event, he, rfl⟩ := List.mem_map.mp hd
    simpa [Draft.isTriggered, Draft.event] using hothers event he
  rw [triggered_numbered, hfollow, List.map_cons, List.filter_cons_of_pos rfl, hrest]
  rfl

/-- A time-out changes the jobs, if anything, and fires no timer. -/
theorem Processor.apply_timeOut {processor : Processor} (hbuiltin : processor.registry = .builtin)
    {command : Record} (hcommand : command.isCommand) (hintent : command.intent = .job .timeOut) :
    (∃ jobs, (processor.apply command).2.state = { processor.state with jobs }) ∧
      ∀ draft ∈ (processor.apply command).1.followUps, draft.isTriggered = false := by
  have hother : ∀ intent, command.intent = intent → intent ≠ .job .timeOut → False :=
    fun intent heq hne => hne (heq.symm.trans hintent)
  rw [apply_command hbuiltin hcommand]
  dsimp only
  cases hdecision : decision processor.evaluator processor.state command with
  | reject type reason =>
      refine ⟨⟨processor.state.jobs, rfl⟩, fun draft hd => ?_⟩
      rw [List.mem_singleton.mp hd]
      rfl
  | confirm key intent =>
      exact ⟨⟨processor.state.jobs, rfl⟩, fun draft hd => absurd hd List.not_mem_nil⟩
  | accept final answer others =>
      cases accepted_of_decision hdecision with
      | jobTimedOut key observed job jobs =>
          refine ⟨⟨jobs, rfl⟩, fun draft hd => ?_⟩
          rw [List.mem_singleton.mp hd]
          rfl
      | _ => exact (hother _ (by assumption) (by decide)).elim

namespace Partition

variable {evaluator : Evaluator} {p q r : Partition} {now : Instant} {queue : List Timer}

/-- Timers fired in turn, and the log tells so. -/
structure Progress (now : Instant) (fired : List Timer) (p q : Partition) : Prop where
  /-- The settings stay. -/
  config : q.config = p.config
  /-- What was appended tells of them. -/
  log : ∃ more, q.records = p.records ++ more ∧ triggered more = fired.map Timer.name
  /-- An engine with the same timers fires them in turn. -/
  fires : ∀ mirror : Processor, mirror.registry = .builtin → Mirrors p.state mirror.state →
    ∃ final, Fires now mirror fired final ∧ final.registry = .builtin ∧
      Mirrors q.state final.state

namespace Progress

theorem trans {fired others : List Timer} (h : Progress now fired p q)
    (h' : Progress now others q r) : Progress now (fired ++ others) p r := by
  refine ⟨h'.config.trans h.config, ?_, ?_⟩
  · obtain ⟨more, hmore, hfired⟩ := h.log
    obtain ⟨rest, hrest, hothers⟩ := h'.log
    refine ⟨more ++ rest, ?_, ?_⟩
    · rw [hrest, hmore, List.append_assoc]
    · rw [triggered_append, hfired, hothers, List.map_append]
  · intro mirror hbuiltin hmirror
    obtain ⟨middle, hfires, hbuiltin', hmirror'⟩ := h.fires mirror hbuiltin hmirror
    obtain ⟨final, hfires', hfinal⟩ := h'.fires middle hbuiltin' hmirror'
    exact ⟨final, hfires.trans hfires', hfinal⟩

/-- Nothing fires while the timers stay. -/
theorem quiet (hconfig : q.config = p.config) (hstate : ∃ jobs, q.state = { p.state with jobs })
    {drafts : List Draft} {position : Nat}
    (hlog : q.records = p.records ++ Log.numbered position drafts)
    (hdrafts : ∀ draft ∈ drafts, draft.isTriggered = false) : Progress now [] p q := by
  refine ⟨hconfig, ⟨_, hlog, triggered_eq_nil hdrafts⟩, ?_⟩
  intro mirror hbuiltin hmirror
  obtain ⟨jobs, hjobs⟩ := hstate
  refine ⟨mirror, .none mirror, hbuiltin, ?_⟩
  rw [hjobs]
  exact hmirror.withJobs jobs

/-- Nothing fires while nothing happens. -/
theorem still (hconfig : q.config = p.config) (hstate : q.state = p.state)
    (hlog : q.records = p.records) : Progress now [] p q := by
  have hnothing : q.records = p.records ++ Log.numbered 1 [] := by
    rw [hlog]
    exact (List.append_nil _).symm
  exact quiet hconfig ⟨p.state.jobs, hstate⟩ hnothing fun draft hd => absurd hd List.not_mem_nil

end Progress

/-! ### The queue -/

/-- Whether a command triggers a timer. -/
def isTrigger (command : Record) : Bool := command.intent == .timer .trigger

/-- **The queue.**  The commands that are left are time-outs and the triggers of a front part of
the firing batch, and the timers of that part are the ones that are remembered. -/
structure Queued (p : Partition) (now : Instant) (queue : List Timer) : Prop where
  /-- The clock. -/
  clock : p.now = now
  /-- The timers are a front part of the firing batch. -/
  front : queue <+: p.state.timers.firingBatch now
  /-- Their triggers are left, in order. -/
  triggers : (p.unapplied.filter isTrigger).map Record.toDraft = queue.map (triggerCommand now)
  /-- The others that are left are time-outs. -/
  others : ∀ command ∈ p.unapplied, isTrigger command = false → command.intent = .job .timeOut
  /-- Keys that are remembered were handed out. -/
  issued : ∀ key ∈ p.pendingTriggers, p.state.Issued key
  /-- The pending timers that are remembered are those of the queue. -/
  remembered : ∀ timer, p.state.Pending timer → (timer.key ∈ p.pendingTriggers ↔ timer ∈ queue)

/-- At first the queue is empty. -/
theorem Watched.queued (h : p.Watched) (hidle : p.unapplied = []) : Queued p p.now [] where
  clock := rfl
  front := List.nil_prefix
  triggers := by
    rw [hidle]
    rfl
  others := fun command hc => by
    rw [hidle] at hc
    exact absurd hc List.not_mem_nil
  issued := h.issued
  remembered := fun timer hpending => by
    refine iff_of_false (fun hk => ?_) List.not_mem_nil
    obtain ⟨command, hc, -⟩ := h.awaits timer hpending hk
    rw [hidle] at hc
    exact absurd hc List.not_mem_nil

/-- More time-outs change nothing. -/
theorem Queued.timeOuts (hq : Queued p now queue) (hstate : q.state = p.state)
    (hclock : q.now = p.now) (hwatch : q.pendingTriggers = p.pendingTriggers)
    {more : List Record} (hleft : q.unapplied = p.unapplied ++ more)
    (hmore : ∀ command ∈ more, command.intent = .job .timeOut) : Queued q now queue := by
  refine ⟨hclock.trans hq.clock, ?_, ?_, ?_, ?_, ?_⟩
  · rw [hstate]
    exact hq.front
  · have hnone : more.filter isTrigger = [] := by
      refine List.filter_eq_nil_iff.mpr fun command hc => ?_
      unfold isTrigger
      rw [hmore command hc]
      decide
    rw [hleft, List.filter_append, hnone, List.append_nil]
    exact hq.triggers
  · intro command hc hnot
    rw [hleft, List.mem_append] at hc
    rcases hc with hold | hnew
    · exact hq.others command hold hnot
    · exact hmore command hnew
  · rw [hstate, hwatch]
    exact hq.issued
  · rw [hstate, hwatch]
    exact hq.remembered

theorem contains_of_pending {timer : Timer} (hpending : p.state.Pending timer) :
    p.state.timers.contains timer.key = true := by
  unfold TimerAgenda.contains SortedMap.contains
  exact Option.isSome_of_eq_some hpending

/-- What is kept of the remembered keys are those of pending timers. -/
theorem mem_keptTriggers {timer : Timer} (hpending : p.state.Pending timer) :
    timer.key ∈ p.keptTriggers ↔ timer.key ∈ p.pendingTriggers := by
  unfold keptTriggers
  rw [List.mem_filter, contains_of_pending hpending]
  exact and_iff_left rfl

/-- The timers that get a trigger are those of the batch that are not in the queue. -/
theorem Queued.batch_eq (hq : Queued p now queue) (h : Sourced evaluator p)
    (hcurrent : p.cursor.needsRecovery = false) :
    p.state.timers.firingBatch now = queue ++ p.untriggered := by
  have hindexed := (h.scheduled hcurrent).indexed
  obtain ⟨more, hmore⟩ := hq.front
  have hkept : ∀ timer ∈ p.state.timers.firingBatch now,
      timer.key ∈ p.keptTriggers ↔ timer ∈ queue := by
    intro timer ht
    have hpending := (h.of_mem_batch hcurrent ht).1
    rw [mem_keptTriggers hpending]
    exact hq.remembered timer hpending
  -- No timer occurs twice in a batch, so those behind the queue are not in it.
  have hapart : ∀ timer ∈ more, timer ∉ queue := by
    have hascending := hindexed.inOrder_ascending.sublist (hindexed.firingBatch_front now).1.sublist
    rw [← hmore, List.pairwise_append] at hascending
    intro timer ht hin
    exact StrictOrder.irrefl _ (hascending.2.2 timer hin timer ht)
  unfold untriggered
  rw [hq.clock, ← hmore, List.filter_append]
  rw [← hmore] at hkept
  have hqueue : queue.filter (fun timer => !p.keptTriggers.contains timer.key) = [] := by
    refine List.filter_eq_nil_iff.mpr fun timer ht => ?_
    simpa using (hkept timer (List.mem_append_left _ ht)).mpr ht
  have hmost : more.filter (fun timer => !p.keptTriggers.contains timer.key) = more := by
    refine List.filter_eq_self.mpr fun timer ht => ?_
    simpa using mt (hkept timer (List.mem_append_right _ ht)).mp (hapart timer ht)
  rw [hqueue, hmost]
  rfl

/-- After the timers are checked the pending ones that are remembered are those of the batch. -/
theorem Queued.mem_withTriggers (hq : Queued p now queue) (h : Sourced evaluator p)
    (hcurrent : p.cursor.needsRecovery = false) {timer : Timer} (hpending : p.state.Pending timer) :
    timer.key ∈ p.withTriggers.pendingTriggers ↔ timer ∈ p.state.timers.firingBatch now := by
  show timer.key ∈ p.keptTriggers ++ p.untriggered.map Timer.key ↔ _
  rw [hq.batch_eq h hcurrent, List.mem_append, List.mem_append, mem_keptTriggers hpending,
    hq.remembered timer hpending]
  refine or_congr_right ⟨fun hin => ?_, fun hin => List.mem_map_of_mem hin⟩
  obtain ⟨found, hfound, hkey⟩ := List.mem_map.mp hin
  have hother := (h.of_mem_batch hcurrent (List.mem_of_mem_filter hfound)).1
  exact pending_unique hpending hother hkey ▸ hfound

/-- **Checking the timers** puts the whole firing batch into the queue. -/
theorem Queued.checkDueTimers (hq : Queued p now queue) (h : Sourced evaluator p)
    (hcurrent : p.cursor.needsRecovery = false) (hok : p.checkDueTimers = (.ok (), q)) :
    Queued q now (p.state.timers.firingBatch now) ∧ Progress now [] p q ∧
      q.processor = p.processor := by
  obtain ⟨link, -, ⟨e, heq, -⟩ | ⟨heq, hlog⟩⟩ := checkDueTimers_cases h.calm
  · rw [heq] at hok
    cases hok
  · rw [heq] at hok
    cases hok
    have hbatch := hq.batch_eq h hcurrent
    have hleft : (p.withTriggers.withLink link).unapplied = p.unapplied ++
        Log.numbered (p.host.link.log.size + 1) (p.untriggered.map (triggerCommand p.now)) := by
      refine h.unapplied_commands rfl hlog fun draft hd => ?_
      obtain ⟨timer, -, rfl⟩ := List.mem_map.mp hd
      rfl
    have hnew : ∀ command ∈ Log.numbered (p.host.link.log.size + 1)
        (p.untriggered.map (triggerCommand p.now)), isTrigger command = true := by
      intro command hc
      obtain ⟨timer, -, hdraft⟩ := List.mem_map.mp (Log.toDraft_mem_of_mem_numbered hc)
      rw [eq_triggerAt hdraft.symm]
      rfl
    refine ⟨⟨hq.clock, List.prefix_rfl, ?_, ?_, ?_, ?_⟩, ?_, rfl⟩
    · rw [hleft, List.filter_append, List.filter_eq_self.mpr hnew,
        List.map_append, hq.triggers, Log.toDraft_numbered, hbatch, List.map_append, hq.clock]
    · intro command hc hnot
      rw [hleft, List.mem_append] at hc
      rcases hc with hold | hin
      · exact hq.others command hold hnot
      · rw [hnew command hin] at hnot
        cases hnot
    · intro key hk
      rcases List.mem_append.mp hk with hold | hin
      · exact hq.issued key (List.mem_of_mem_filter hold)
      · obtain ⟨timer, ht, rfl⟩ := List.mem_map.mp hin
        have hpending := (h.of_mem_batch hcurrent (List.mem_of_mem_filter ht)).1
        exact (h.scheduled hcurrent).issued timer hpending
    · exact fun timer hpending => hq.mem_withTriggers h hcurrent hpending
    · refine .quiet rfl ⟨p.state.jobs, rfl⟩ hlog ?_
      intro draft hd
      obtain ⟨timer, -, rfl⟩ := List.mem_map.mp hd
      rfl

/-- **Checking the leases** leaves the queue alone. -/
theorem Queued.sweepExpiredLeases (hq : Queued p now queue) (h : Sourced evaluator p)
    (hok : p.sweepExpiredLeases = (.ok (), q)) :
    Queued q now queue ∧ Progress now [] p q ∧ q.processor = p.processor := by
  obtain ⟨link, -, ⟨e, heq, -⟩ | ⟨heq, hlog⟩⟩ := sweepExpiredLeases_cases h.calm
  · rw [heq] at hok
    cases hok
  · rw [heq] at hok
    cases hok
    have hdrafts : ∀ draft ∈ p.swept.map Prod.snd,
        draft.intent = .job .timeOut ∧ draft.isTriggered = false := by
      intro draft hd
      obtain ⟨entry, hentry, rfl⟩ := List.mem_map.mp hd
      obtain ⟨-, job, -, hdraft⟩ := mem_swept hentry
      rw [hdraft]
      exact ⟨rfl, rfl⟩
    refine ⟨hq.timeOuts rfl rfl rfl (unapplied_extend h.cursor_le rfl hlog) ?_, ?_, rfl⟩
    · intro command hc
      exact (hdrafts _ (Log.toDraft_mem_of_mem_numbered (List.mem_of_mem_filter hc))).1
    · exact .quiet rfl ⟨p.state.jobs, rfl⟩ hlog fun draft hd => (hdrafts draft hd).2

/-- The first timer of the queue is the one that fires next. -/
theorem Queued.firesNext {timer : Timer} {left : List Timer}
    (hq : Queued p now (timer :: left)) (h : Sourced evaluator p)
    (hcurrent : p.cursor.needsRecovery = false) : p.state.FiresNext now timer := by
  have hindexed := (h.scheduled hcurrent).indexed
  obtain ⟨hpending, hdue⟩ := h.of_mem_batch hcurrent (hq.front.subset List.mem_cons_self)
  refine ⟨hpending, hdue, ?_⟩
  intro other hother _
  obtain ⟨others, hothers⟩ := (hindexed.front_firingBatch_iff.mp hq.front).1
  have hascending := hindexed.inOrder_ascending
  have hmem := hindexed.mem_inOrder.mpr hother
  rw [← hothers, List.cons_append] at hascending hmem
  exact (List.mem_cons.mp hmem).imp_right ((List.pairwise_cons.mp hascending).1 other)

/-- The next trigger is the one of the first timer of the queue. -/
theorem Queued.next_trigger {command : Record} {rest : List Record} (hq : Queued p now queue)
    (hnext : p.unapplied = command :: rest) (htrigger : isTrigger command = true) :
    ∃ timer left, queue = timer :: left ∧ command.toDraft = triggerCommand now timer ∧
      (rest.filter isTrigger).map Record.toDraft = left.map (triggerCommand now) := by
  have htriggers := hq.triggers
  rw [hnext, List.filter_cons_of_pos htrigger, List.map_cons] at htriggers
  cases queue with
  | nil => cases htriggers
  | cons timer left =>
      rw [List.map_cons, List.cons.injEq] at htriggers
      exact ⟨timer, left, rfl, htriggers⟩

section Apply

variable {command : Record} {rest : List Record} {link : LogLink} {timer : Timer}
  {left : List Timer}

/-- The successor of a timer has a key that was not handed out, since it is created later than all
timers that are pending. -/
theorem Sourced.not_issued_successor (h : Sourced evaluator p)
    (hcurrent : p.cursor.needsRecovery = false) (hmem : command ∈ p.unapplied)
    (hstate : (p.advanced link command).state = p.state.fired timer command.position)
    (hkeys : (p.advanced link command).state.keyCounter < 2 ^ keyCounterBits) {next : Timer}
    (hsuccessor : p.state.successorOf timer command.position = some next) :
    ¬ p.state.Issued next.key := by
  intro hissued
  have hpending : (p.advanced link command).state.Pending next := by
    rw [hstate]
    unfold EngineState.Pending
    rw [fired_timers, TimerAgenda.get?_fire, hsuccessor]
    simp
  have hold := (h.reschedules link command).pending_of_issued hkeys hpending hissued
  have hlater := h.createdBefore hcurrent hmem next hold
  rw [(Timer.successor?_some hsuccessor).2.1] at hlater
  exact Nat.lt_irrefl _ hlater

/-- What is left of the queue is a front part of the firing batch after the first timer fired. -/
theorem Queued.front_fired (hq : Queued p now (timer :: left)) (h : Sourced evaluator p)
    (hcurrent : p.cursor.needsRecovery = false) (hmem : command ∈ p.unapplied)
    (hstate : (p.advanced link command).state = p.state.fired timer command.position)
    (hkeys : (p.advanced link command).state.keyCounter < 2 ^ keyCounterBits) :
    left <+: (p.state.fired timer command.position).timers.firingBatch now := by
  have hscheduled := h.scheduled hcurrent
  rw [fired_timers]
  refine hscheduled.indexed.firingBatch_fire hq.front ?_
  intro next hsuccessor
  have hnew := h.not_issued_successor hcurrent hmem hstate hkeys hsuccessor
  obtain ⟨-, hplace, hdue, -⟩ := Timer.successor?_some hsuccessor
  refine ⟨hdue, ?_, ?_⟩
  · cases hget : p.state.timers.get? next.key with
    | none => rfl
    | some other =>
        have hkey := hscheduled.indexed.key_eq _ _ hget
        have hpending : p.state.Pending other := by
          unfold EngineState.Pending
          rw [hkey]
          exact hget
        exact absurd (hkey ▸ hscheduled.issued other hpending) hnew
  · intro other ho
    rw [hplace]
    exact h.createdBefore hcurrent hmem other (hscheduled.indexed.mem_inOrder.mp ho)

/-- The queue after its first timer fired. -/
theorem Queued.fired (hq : Queued p now (timer :: left)) (h : Sourced evaluator p)
    (hcurrent : p.cursor.needsRecovery = false) (hnext : p.unapplied = command :: rest)
    (htriggers : (rest.filter isTrigger).map Record.toDraft = left.map (triggerCommand now))
    (hlog : link.log.records = p.records ++ Log.numbered (p.host.link.log.size + 1)
      (p.processor.apply command).1.followUps)
    (hstate : (p.advanced link command).state = p.state.fired timer command.position)
    (hkeys : (p.advanced link command).state.keyCounter < 2 ^ keyCounterBits) :
    Queued (p.advanced link command) now left := by
  have hmem : command ∈ p.unapplied := hnext ▸ List.mem_cons_self
  obtain ⟨-, hleft⟩ := h.applied_advanced hnext hlog
  refine ⟨?_, ?_, ?_, ?_, ?_, ?_⟩
  · rw [advanced_now]
    exact hq.clock
  · rw [hstate]
    exact hq.front_fired h hcurrent hmem hstate hkeys
  · rw [hleft]
    exact htriggers
  · intro other ho hnot
    rw [hleft] at ho
    exact hq.others other (hnext ▸ List.mem_cons_of_mem _ ho) hnot
  · intro key hk
    rw [advanced_pendingTriggers] at hk
    exact (h.reschedules link command).toGrows.issued (hq.issued key hk)
  · intro other hother
    rw [advanced_pendingTriggers]
    rw [hstate] at hother
    rcases EngineState.pending_fired hother with hsuccessor | ⟨-, hne, hold⟩
    · have hnew := h.not_issued_successor hcurrent hmem hstate hkeys hsuccessor
      refine iff_of_false (fun hk => hnew (hq.issued _ hk)) fun hin => ?_
      have hpending := (h.of_mem_batch hcurrent
        (hq.front.subset (List.mem_cons_of_mem _ hin))).1
      exact hnew ((h.scheduled hcurrent).issued other hpending)
    · rw [hq.remembered other hold, List.mem_cons]
      exact or_iff_right fun heq => hne (congrArg Timer.key heq)

/-- **Applying a trigger** takes the first timer off the queue: it has fired. -/
theorem Queued.trigger (hq : Queued p now queue) (h : Sourced evaluator p)
    (hcurrent : p.cursor.needsRecovery = false) (hnext : p.unapplied = command :: rest)
    (htrigger : isTrigger command = true)
    (hlog : link.log.records = p.records ++ Log.numbered (p.host.link.log.size + 1)
      (p.processor.apply command).1.followUps)
    (hkeys : (p.advanced link command).state.keyCounter < 2 ^ keyCounterBits) :
    ∃ timer left, queue = timer :: left ∧ Queued (p.advanced link command) now left ∧
      Progress now [timer] p (p.advanced link command) := by
  have hmem : command ∈ p.unapplied := hnext ▸ List.mem_cons_self
  have hlater := h.createdBefore hcurrent hmem
  obtain ⟨timer, left, rfl, hdraft, htriggers⟩ := hq.next_trigger hnext htrigger
  have hfires := hq.firesNext h hcurrent
  have hstate := h.advanced_trigger hfires.pending hfires.due hdraft link
  refine ⟨timer, left, rfl, hq.fired h hcurrent hnext htriggers hlog hstate hkeys, ?_, ?_, ?_⟩
  · rw [advanced_config]
  · refine ⟨_, (p.advanced_records link command).trans hlog, ?_⟩
    have htold := Processor.triggered_triggerAt h.builtin hfires.pending hfires.due
      command.position (p.host.link.log.size + 1)
    rwa [← eq_triggerAt hdraft] at htold
  · intro mirror hbuiltin hmirror
    have hfires' := hmirror.firesNext hfires
    have happly := (Processor.apply_triggerAt hbuiltin hfires'.pending hfires'.due
      command.position).1
    refine ⟨_, .next command.position hfires' (hmirror.createdBefore hlater) (.none _), ?_, ?_⟩
    · exact (Processor.apply_registry _ _).trans hbuiltin
    · rw [happly, hstate]
      exact hmirror.fired timer command.position

/-- **Applying a time-out** leaves the queue alone. -/
theorem Queued.timeOut (hq : Queued p now queue) (h : Sourced evaluator p)
    (hnext : p.unapplied = command :: rest) (htrigger : isTrigger command = false)
    (hlog : link.log.records = p.records ++ Log.numbered (p.host.link.log.size + 1)
      (p.processor.apply command).1.followUps) :
    Queued (p.advanced link command) now queue ∧
      Progress now [] p (p.advanced link command) := by
  have hmem : command ∈ p.unapplied := hnext ▸ List.mem_cons_self
  obtain ⟨⟨jobs, hjobs⟩, hdrafts⟩ := Processor.apply_timeOut h.builtin
    (mem_unapplied_iff.mp hmem).2.1 (hq.others command hmem htrigger)
  have hstate : (p.advanced link command).state = { p.state with jobs } :=
    (p.advanced_state link command).trans hjobs
  obtain ⟨-, hleft⟩ := h.applied_advanced hnext hlog
  have htriggers := hq.triggers
  rw [hnext, List.filter_cons_of_neg (by simpa using htrigger)] at htriggers
  refine ⟨⟨?_, ?_, ?_, ?_, ?_, ?_⟩, ?_⟩
  · rw [advanced_now]
    exact hq.clock
  · rw [hstate]
    exact hq.front
  · rw [hleft]
    exact htriggers
  · intro other ho hnot
    rw [hleft] at ho
    exact hq.others other (hnext ▸ List.mem_cons_of_mem _ ho) hnot
  · rw [advanced_pendingTriggers, hstate]
    exact hq.issued
  · rw [advanced_pendingTriggers, hstate]
    exact hq.remembered
  · exact .quiet (p.advanced_config link command) ⟨jobs, hstate⟩
      ((p.advanced_records link command).trans hlog) hdrafts

/-- **Applying the next command** either way. -/
theorem Queued.advanced (hq : Queued p now queue) (h : Sourced evaluator p)
    (hcurrent : p.cursor.needsRecovery = false) (hnext : p.unapplied = command :: rest)
    (hlog : link.log.records = p.records ++ Log.numbered (p.host.link.log.size + 1)
      (p.processor.apply command).1.followUps)
    (hkeys : (p.advanced link command).state.keyCounter < 2 ^ keyCounterBits) :
    ∃ fired left, Queued (p.advanced link command) now left ∧
      Progress now fired p (p.advanced link command) := by
  cases htrigger : isTrigger command with
  | true =>
      obtain ⟨timer, left, -, hadvanced, hprogress⟩ :=
        hq.trigger h hcurrent hnext htrigger hlog hkeys
      exact ⟨[timer], left, hadvanced, hprogress⟩
  | false =>
      obtain ⟨hadvanced, hprogress⟩ := hq.timeOut h hnext htrigger hlog
      exact ⟨[], queue, hadvanced, hprogress⟩

end Apply

end Partition

end Workflow
