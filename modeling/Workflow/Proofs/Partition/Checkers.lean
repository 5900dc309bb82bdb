/-
The checkers never repeat themselves, and never forget.

Rounds may be prepared again and again, with nothing applied in between: the clock moves, commands
arrive, and appends are refused.  Each checker remembers what it has appended a command for, and
takes back what it remembers when the append is refused.  A refused append of one checker is after
an append of the other in the same call, so the two memories do not move together.

What carries the argument is one inequality for each memory (`Books`): the commands that were
appended for a timer, plus one if it was remembered before, are at most one if it is remembered
now.  Inequalities of this kind add up over any number of calls, and say that there was at most one
command.  Beside them stands where a memory comes from: what is remembered now was remembered
before the first call, or its command is left.  What was remembered before has a command that is
left too, since nothing is applied; here it matters that the clock was not set back, that keys are
new, and that it does not show a time after the latest instant, where the leases of a job cannot be
told apart (`checkers_forget_overtime`).
-/
import Mathlib.Data.List.Nodup
import Workflow.Proofs.Partition.Queue
import Workflow.Proofs.Partition.Rest

namespace Workflow

/-! ### The commands of the checkers -/

/-- Whether a draft is a command that triggers a timer. -/
def Draft.triggers (draft : Draft) (key : Nat) : Bool :=
  draft.kind == .command && draft.intent == .timer .trigger && draft.key == some key

/-- Whether a draft is a command that reclaims a lease. -/
def Draft.timesOut (draft : Draft) (lease : Lease) : Bool :=
  draft.kind == .command && draft.intent == .job .timeOut && draft.key == some lease.key &&
    draft.value.job?.bind JobPayload.deadline == some lease.deadline

theorem Log.countP_numbered (about : Draft → Bool) (drafts : List Draft) (position : Nat) :
    (Log.numbered position drafts).countP (fun record => about record.toDraft) =
      drafts.countP about := by
  conv_rhs => rw [← Log.toDraft_numbered drafts position, List.countP_map]
  rfl

/-- What is remembered in addition counts once, if it is new and none occurs twice. -/
theorem count_add_mem_le {α : Type} [DecidableEq α] {kept more : List α} (hnodup : more.Nodup)
    (hnew : ∀ a ∈ more, a ∉ kept) (a : α) :
    more.count a + (if a ∈ kept then 1 else 0) ≤ if a ∈ kept ++ more then 1 else 0 := by
  have honce : more.count a ≤ 1 := List.nodup_iff_count_le_one.mp hnodup a
  by_cases hmore : a ∈ more
  · rw [if_neg (hnew a hmore), if_pos (List.mem_append_right _ hmore)]
    exact honce
  · rw [List.count_eq_zero.mpr hmore]
    by_cases hkept : a ∈ kept
    · rw [if_pos hkept, if_pos (List.mem_append_left _ hkept)]
    · simp [hkept, hmore]

namespace Partition

variable {evaluator : Evaluator} {p q r : Partition} {now : Instant}

theorem triggers_triggerCommand (now : Instant) (timer : Timer) (key : Nat) :
    (triggerCommand now timer).triggers key = (timer.key == key) := by
  simp [Draft.triggers, triggerCommand, Draft.command, Draft.withTimestamp]

theorem timesOut_triggerCommand (now : Instant) (timer : Timer) (lease : Lease) :
    (triggerCommand now timer).timesOut lease = false := by
  simp [Draft.timesOut, triggerCommand, Draft.command, Draft.withTimestamp]

theorem triggers_timeOutCommand (now : Instant) (lease : Lease) (job : Job) (key : Nat) :
    (timeOutCommand now lease job).triggers key = false := by
  simp [Draft.triggers, timeOutCommand, Draft.command, Draft.withTimestamp]

theorem timesOut_timeOutCommand (now : Instant) (lease other : Lease) (job : Job) :
    (timeOutCommand now lease job).timesOut other = (lease == other) := by
  obtain ⟨deadline, key⟩ := lease
  obtain ⟨deadline', key'⟩ := other
  rw [Bool.eq_iff_iff]
  simp [Draft.timesOut, timeOutCommand, Draft.command, Draft.withTimestamp, Payload.job?, and_comm]

/-! ### What a checker appends -/

/-- In a firing batch no key occurs twice. -/
theorem Sourced.nodup_batch (h : Sourced evaluator p) (hcurrent : p.cursor.needsRecovery = false)
    (now : Instant) : ((p.state.timers.firingBatch now).map Timer.key).Nodup := by
  have hindexed := (h.scheduled hcurrent).indexed
  have hascending := hindexed.inOrder_ascending.sublist (hindexed.firingBatch_front now).1.sublist
  refine List.pairwise_map.mpr (hascending.imp_of_mem fun hearly hlate hlt hkey => ?_)
  have hsame := pending_unique (h.of_mem_batch hcurrent hearly).1
    (h.of_mem_batch hcurrent hlate).1 hkey.symm
  rw [hsame] at hlt
  exact StrictOrder.irrefl _ hlt

/-- The timers that get a trigger are pending and due. -/
theorem Sourced.of_mem_untriggered (h : Sourced evaluator p)
    (hcurrent : p.cursor.needsRecovery = false) {timer : Timer} (ht : timer ∈ p.untriggered) :
    p.state.Pending timer ∧ timer.dueDate ≤ p.now :=
  h.of_mem_batch hcurrent (List.mem_of_mem_filter ht)

theorem Sourced.nodup_untriggered (h : Sourced evaluator p)
    (hcurrent : p.cursor.needsRecovery = false) : (p.untriggered.map Timer.key).Nodup :=
  (h.nodup_batch hcurrent p.now).sublist (List.filter_sublist.map _)

/-- They were not remembered. -/
theorem not_mem_keptTriggers {key : Nat} (hk : key ∈ p.untriggered.map Timer.key) :
    key ∉ p.keptTriggers := by
  obtain ⟨timer, ht, rfl⟩ := List.mem_map.mp hk
  simpa using (List.mem_filter.mp ht).2

theorem countP_triggers (timers : List Timer) (now : Instant) (key : Nat) :
    (timers.map (triggerCommand now)).countP (·.triggers key) =
      (timers.map Timer.key).count key := by
  rw [List.countP_map, List.count, List.countP_map]
  exact List.countP_congr fun timer _ => by
    simp [Function.comp, triggers_triggerCommand]

/-- The leases that get a time-out are held and over. -/
theorem of_mem_unreclaimed {lease : Lease} (hl : lease ∈ p.unreclaimed) :
    lease ∈ p.state.jobs.leases ∧ lease.deadline < p.now :=
  JobLedger.mem_expiredLeases_iff.mp (List.mem_of_mem_filter hl)

theorem nodup_unreclaimed (p : Partition) : p.unreclaimed.Nodup := by
  have hascending : (p.state.jobs.expiredLeases p.now).Pairwise (· < ·) :=
    p.state.jobs.leases.ascending.sublist (List.takeWhile_sublist _)
  refine (hascending.sublist List.filter_sublist).imp fun hlt heq => ?_
  rw [heq] at hlt
  exact StrictOrder.irrefl _ hlt

theorem not_mem_keptTimeouts {lease : Lease} (hl : lease ∈ p.unreclaimed) :
    lease ∉ p.keptTimeouts := by
  simpa using (List.mem_filter.mp hl).2

/-- Each of them has a job, so each gets a command. -/
theorem Sourced.map_fst_swept (h : Sourced evaluator p)
    (hcurrent : p.cursor.needsRecovery = false) : p.swept.map Prod.fst = p.unreclaimed := by
  have hjob : ∀ lease ∈ p.unreclaimed, ∃ job, p.state.jobs.get? lease.key = some job := by
    intro lease hl
    obtain ⟨job, hget, -⟩ := ((h.booked hcurrent).lease lease).mp (of_mem_unreclaimed hl).1
    exact ⟨job, hget⟩
  rw [swept, List.map_filterMap]
  refine Eq.trans (List.filterMap_congr fun lease hl => ?_) List.filterMap_some
  obtain ⟨job, hget⟩ := hjob lease hl
  rw [hget]
  rfl

theorem countP_timesOut (p : Partition) (lease : Lease) :
    (p.swept.map Prod.snd).countP (·.timesOut lease) = (p.swept.map Prod.fst).count lease := by
  rw [List.countP_map, List.count, List.countP_map]
  refine List.countP_congr fun ⟨swept, draft⟩ hentry => ?_
  obtain ⟨-, job, -, hdraft⟩ := mem_swept hentry
  simp [Function.comp, hdraft, timesOut_timeOutCommand]

/-! ### What a checker remembers -/

/-- Taking back what was just remembered leaves what was remembered before. -/
theorem filter_append_taken_back {α : Type} [DecidableEq α] {kept more : List α}
    (hnew : ∀ a ∈ more, a ∉ kept) : (kept ++ more).filter (fun a => !more.contains a) = kept := by
  rw [List.filter_append, List.filter_eq_self.mpr fun a ha => ?_,
    List.filter_eq_nil_iff.mpr fun a ha => by simp [ha], List.append_nil]
  have hout : a ∉ more := fun hmore => hnew a hmore ha
  simp [hout]

theorem keptTriggers_append {keys : List Nat} (hstate : q.state = p.state)
    (hpending : q.pendingTriggers = p.keptTriggers ++ keys)
    (hkeys : ∀ key ∈ keys, p.state.timers.contains key = true) :
    q.keptTriggers = p.keptTriggers ++ keys := by
  unfold keptTriggers at hpending ⊢
  rw [hpending, hstate]
  refine List.filter_eq_self.mpr fun key hk => ?_
  rcases List.mem_append.mp hk with hold | hnew
  · exact List.of_mem_filter hold
  · exact hkeys key hnew

/-- Without new ones, what is kept is what was kept. -/
theorem keptTriggers_kept (hstate : q.state = p.state)
    (hpending : q.pendingTriggers = p.keptTriggers) : q.keptTriggers = p.keptTriggers := by
  rw [keptTriggers_append hstate (hpending.trans (List.append_nil _).symm) (by simp),
    List.append_nil]

theorem keptTimeouts_append {leases : List Lease} (hstate : q.state = p.state)
    (hpending : q.pendingTimeouts = p.keptTimeouts ++ leases)
    (hleases : ∀ lease ∈ leases, lease ∈ p.state.jobs.leases) :
    q.keptTimeouts = p.keptTimeouts ++ leases := by
  unfold keptTimeouts at hpending ⊢
  rw [hpending, hstate]
  refine List.filter_eq_self.mpr fun lease hl => ?_
  rcases List.mem_append.mp hl with hold | hnew
  · exact (List.mem_filter.mp hold).2
  · exact decide_eq_true (hleases lease hnew)

theorem keptTimeouts_kept (hstate : q.state = p.state)
    (hpending : q.pendingTimeouts = p.keptTimeouts) : q.keptTimeouts = p.keptTimeouts := by
  rw [keptTimeouts_append hstate (hpending.trans (List.append_nil _).symm) (by simp),
    List.append_nil]

/-! ### While nothing is applied -/

/-- Nothing is applied: the engine and the cursor stay, and what comes stands behind what is
left. -/
structure Stays (p q : Partition) : Prop where
  processor : q.processor = p.processor
  cursor : q.cursor = p.cursor
  left : p.unapplied <+: q.unapplied

namespace Stays

theorem refl (p : Partition) : Stays p p := ⟨rfl, rfl, List.prefix_rfl⟩

theorem trans (h : Stays p q) (h' : Stays q r) : Stays p r :=
  ⟨h'.processor.trans h.processor, h'.cursor.trans h.cursor, h.left.trans h'.left⟩

theorem state (h : Stays p q) : q.state = p.state := congrArg Processor.state h.processor

theorem awaits (h : Stays p q) {timer : Timer} (hawaits : p.Awaits timer) : q.Awaits timer := by
  obtain ⟨command, hc, hcommand⟩ := hawaits
  exact ⟨command, h.left.subset hc, hcommand⟩

theorem reclaims (h : Stays p q) {lease : Lease} (hreclaims : p.Reclaims lease) :
    q.Reclaims lease := by
  obtain ⟨command, hc, hcommand⟩ := hreclaims
  exact ⟨command, h.left.subset hc, hcommand⟩

/-- What arrives in the log is not applied yet. -/
theorem of_log (h : Sourced evaluator p) (hprocessor : q.processor = p.processor)
    (hcursor : q.cursor = p.cursor) {drafts : List Draft}
    (hlog : q.records = p.records ++ Log.numbered (p.host.link.log.size + 1) drafts) :
    Stays p q := by
  refine ⟨hprocessor, hcursor, ?_⟩
  rw [unapplied_extend h.cursor_le hcursor hlog]
  exact List.prefix_append _ _

theorem of_records (hprocessor : q.processor = p.processor) (hcursor : q.cursor = p.cursor)
    (hlog : q.records = p.records) : Stays p q := by
  have hunapplied : q.unapplied = p.unapplied := by
    unfold unapplied isProcessed
    rw [hcursor, hlog]
  exact ⟨hprocessor, hcursor, hunapplied ▸ List.prefix_rfl⟩

end Stays

section Books

variable {α : Type} [DecidableEq α] {kept : Partition → List α} {about : Draft → α → Bool}
  {asked : Partition → α → Prop} {new more : List Record}

/-- **The books of a checker** balance over a stretch in which it appended `new`: the commands about
a thing, plus one if it was remembered before, are at most one if it is remembered after.  And what
is remembered after was so before, or it is asked for. -/
structure Books (kept : Partition → List α) (about : Draft → α → Bool)
    (asked : Partition → α → Prop) (p q : Partition) (new : List Record) : Prop where
  once : ∀ a, new.countP (fun record => about record.toDraft a) +
    (if a ∈ kept p then 1 else 0) ≤ if a ∈ kept q then 1 else 0
  learned : ∀ a ∈ kept q, a ∈ kept p ∨ asked q a

namespace Books

/-- The books of two stretches are the books of both. -/
theorem trans (h : Books kept about asked p q new) (h' : Books kept about asked q r more)
    (hasked : ∀ a, asked q a → asked r a) : Books kept about asked p r (new ++ more) := by
  refine ⟨fun a => ?_, fun a ha => ?_⟩
  · have hfirst := h.once a
    have hsecond := h'.once a
    rw [List.countP_append]
    omega
  · rcases h'.learned a ha with hmid | hlate
    · exact (h.learned a hmid).imp id (hasked a)
    · exact .inr hlate

/-- Nothing is remembered and nothing forgotten where there is no command. -/
theorem of_same (hkept : kept q = kept p)
    (hnone : ∀ record ∈ new, ∀ a, about record.toDraft a = false) :
    Books kept about asked p q new := by
  refine ⟨fun a => ?_, fun a ha => .inl (hkept ▸ ha)⟩
  have hzero : new.countP (fun record => about record.toDraft a) = 0 :=
    List.countP_eq_zero.mpr fun record hr => by simp [hnone record hr a]
  rw [hzero, hkept, Nat.zero_add]

/-- What is remembered in addition gets one command each. -/
theorem of_more {things : List α} {drafts : List Draft} {position : Nat}
    (hkept : kept q = kept p ++ things) (hnodup : things.Nodup)
    (hnew : ∀ a ∈ things, a ∉ kept p)
    (hcount : ∀ a, drafts.countP (fun draft => about draft a) = things.count a)
    (hasked : ∀ a ∈ things, asked q a) :
    Books kept about asked p q (Log.numbered position drafts) := by
  refine ⟨fun a => ?_, fun a ha => ?_⟩
  · rw [Log.countP_numbered (fun draft => about draft a), hcount, hkept]
    exact count_add_mem_le hnodup hnew a
  · rw [hkept] at ha
    exact (List.mem_append.mp ha).imp id (hasked a)

/-- There was at most one command. -/
theorem countP_le_one (h : Books kept about asked p q new) (a : α) :
    new.countP (fun record => about record.toDraft a) ≤ 1 := by
  have honce := h.once a
  split at honce <;> split at honce <;> omega

end Books

end Books

/-- The pending timer of a key awaits its trigger. -/
def Triggered (p : Partition) (key : Nat) : Prop :=
  ∀ timer, p.state.Pending timer → timer.key = key → p.Awaits timer

/-- A record that a checker may append: the trigger of a pending timer that is due, or the time-out
of a lease that is held and over. -/
def Grounded (p : Partition) (record : Record) : Prop :=
  (∃ timer now, p.state.Pending timer ∧ timer.dueDate ≤ now ∧
    record.toDraft = triggerCommand now timer) ∨
  ∃ lease now job, lease ∈ p.state.jobs.leases ∧ lease.deadline < now ∧
    record.toDraft = timeOutCommand now lease job

/-- **Nothing is applied, and the checkers append `new`.** -/
structure Checked (p q : Partition) (new : List Record) : Prop extends Stays p q where
  triggers : Books keptTriggers Draft.triggers Triggered p q new
  timeOuts : Books keptTimeouts Draft.timesOut Reclaims p q new
  grounded : ∀ record ∈ new, p.Grounded record

namespace Checked

variable {new more : List Record}

theorem trans (h : Checked p q new) (h' : Checked q r more) : Checked p r (new ++ more) := by
  have hstays := h'.toStays
  refine ⟨h.toStays.trans hstays, h.triggers.trans h'.triggers ?_,
    h.timeOuts.trans h'.timeOuts fun lease => hstays.reclaims, fun record hr => ?_⟩
  · intro key htriggered timer hpending hkey
    rw [hstays.state] at hpending
    exact hstays.awaits (htriggered timer hpending hkey)
  · rcases List.mem_append.mp hr with hfirst | hsecond
    · exact h.grounded record hfirst
    · have hgrounds := h'.grounded record hsecond
      unfold Grounded at hgrounds ⊢
      rwa [h.toStays.state] at hgrounds

/-- Neither checker has run. -/
theorem of_quiet (hstays : Stays p q) (htriggers : q.pendingTriggers = p.pendingTriggers)
    (htimeouts : q.pendingTimeouts = p.pendingTimeouts) : Checked p q [] := by
  refine ⟨hstays, .of_same ?_ fun _ h => absurd h List.not_mem_nil,
    .of_same ?_ fun _ h => absurd h List.not_mem_nil, fun _ h => absurd h List.not_mem_nil⟩
  · unfold keptTriggers
    rw [hstays.state, htriggers]
  · unfold keptTimeouts
    rw [hstays.state, htimeouts]

/-- Things arrive. -/
theorem arrival (h : Sourced evaluator p) (arrival : Arrival) : Checked p (arrival.run p) [] := by
  obtain ⟨hcursor, hleft⟩ := arrival.unapplied_kept h
  obtain ⟨host, heq⟩ := arrival.exists_run_eq p
  exact of_quiet ⟨arrival.run_processor p, hcursor, hleft⟩ (by rw [heq]) (by rw [heq])

/-- **The timers are checked**, and their commands are refused or appended. -/
theorem timers (h : Sourced evaluator p) (hcurrent : p.cursor.needsRecovery = false) :
    ∃ new, p.checkDueTimers.2.records = p.records ++ new ∧ Checked p p.checkDueTimers.2 new := by
  have hnew : ∀ key ∈ p.untriggered.map Timer.key, key ∉ p.keptTriggers :=
    fun key => not_mem_keptTriggers
  obtain ⟨link, -, ⟨e, heq, hlog⟩ | ⟨heq, hlog⟩⟩ := checkDueTimers_cases h.calm
  · rw [heq]
    exact ⟨[], by rw [List.append_nil]; exact hlog, .of_records rfl rfl hlog,
      .of_same (keptTriggers_kept rfl (filter_append_taken_back hnew)) (by simp),
      .of_same rfl (by simp), by simp⟩
  · rw [heq]
    have hdrafts : ∀ record ∈ Log.numbered (p.host.link.log.size + 1)
        (p.untriggered.map (triggerCommand p.now)), ∃ timer ∈ p.untriggered,
          record.toDraft = triggerCommand p.now timer := by
      intro record hr
      obtain ⟨timer, ht, hdraft⟩ := List.mem_map.mp (Log.toDraft_mem_of_mem_numbered hr)
      exact ⟨timer, ht, hdraft.symm⟩
    refine ⟨_, hlog, .of_log h rfl rfl hlog, .of_more (keptTriggers_append rfl rfl ?_)
      (h.nodup_untriggered hcurrent) hnew (countP_triggers _ _) ?_, .of_same rfl ?_, ?_⟩
    · intro key hk
      obtain ⟨timer, ht, rfl⟩ := List.mem_map.mp hk
      exact contains_of_pending (h.of_mem_untriggered hcurrent ht).1
    · intro key hk timer hpending hkey
      obtain ⟨found, hfound, rfl⟩ := List.mem_map.mp hk
      obtain ⟨hpendingFound, hdue⟩ := h.of_mem_untriggered hcurrent hfound
      obtain rfl : timer = found := pending_unique hpendingFound hpending hkey
      obtain ⟨command, hc, hcommand⟩ := h.exists_unapplied (q := p.withTriggers.withLink link)
        rfl hlog (List.mem_map_of_mem hfound) rfl
      exact ⟨command, hc, p.now, hdue, hcommand⟩
    · intro record hr lease
      obtain ⟨timer, -, hdraft⟩ := hdrafts record hr
      rw [hdraft, timesOut_triggerCommand]
    · intro record hr
      obtain ⟨timer, ht, hdraft⟩ := hdrafts record hr
      obtain ⟨hpending, hdue⟩ := h.of_mem_untriggered hcurrent ht
      exact .inl ⟨timer, p.now, hpending, hdue, hdraft⟩

/-- **The leases are checked**, and their commands are refused or appended. -/
theorem leases (h : Sourced evaluator p) (hcurrent : p.cursor.needsRecovery = false) :
    ∃ new, p.sweepExpiredLeases.2.records = p.records ++ new ∧
      Checked p p.sweepExpiredLeases.2 new := by
  have hswept := h.map_fst_swept hcurrent
  have hnew : ∀ lease ∈ p.unreclaimed, lease ∉ p.keptTimeouts := fun lease => not_mem_keptTimeouts
  obtain ⟨link, -, ⟨e, heq, hlog⟩ | ⟨heq, hlog⟩⟩ := sweepExpiredLeases_cases h.calm
  · rw [heq, hswept]
    exact ⟨[], by rw [List.append_nil]; exact hlog, .of_records rfl rfl hlog,
      .of_same rfl (by simp),
      .of_same (keptTimeouts_kept rfl (filter_append_taken_back hnew)) (by simp), by simp⟩
  · rw [heq]
    have hdrafts : ∀ record ∈ Log.numbered (p.host.link.log.size + 1) (p.swept.map Prod.snd),
        ∃ lease ∈ p.unreclaimed, ∃ job, record.toDraft = timeOutCommand p.now lease job := by
      intro record hr
      obtain ⟨⟨lease, draft⟩, hentry, hdraft⟩ :=
        List.mem_map.mp (Log.toDraft_mem_of_mem_numbered hr)
      obtain ⟨hl, job, -, heq⟩ := mem_swept hentry
      exact ⟨lease, hl, job, hdraft.symm.trans heq⟩
    refine ⟨_, hlog, .of_log h rfl rfl hlog, .of_same rfl ?_, .of_more
      (keptTimeouts_append rfl rfl fun lease hl => (of_mem_unreclaimed hl).1)
      (nodup_unreclaimed p) hnew (hswept ▸ countP_timesOut p) ?_, ?_⟩
    · intro record hr key
      obtain ⟨lease, -, job, hdraft⟩ := hdrafts record hr
      rw [hdraft, triggers_timeOutCommand]
    · intro lease hl
      rw [← hswept] at hl
      obtain ⟨⟨lease, draft⟩, hentry, rfl⟩ := List.mem_map.mp hl
      obtain ⟨hover, job, -, rfl⟩ := mem_swept hentry
      obtain ⟨command, hc, hcommand⟩ := h.exists_unapplied (q := p.withTimeouts.withLink link)
        rfl hlog (List.mem_map_of_mem hentry) rfl
      exact ⟨command, hc, p.now, job, (of_mem_unreclaimed hover).2, hcommand⟩
    · intro record hr
      obtain ⟨lease, hl, job, hdraft⟩ := hdrafts record hr
      obtain ⟨hheld, hover⟩ := of_mem_unreclaimed hl
      exact .inr ⟨lease, p.now, job, hheld, hover, hdraft⟩

/-- **A round is prepared**, as far as no checker fails. -/
theorem prepareRound (h : Sourced evaluator p) (hid : p.config.partitionId ≤ maxPartitionId)
    (hcurrent : p.cursor.needsRecovery = false) (max : Nat) :
    ∃ new, (p.prepareRound max).2.records = p.records ++ new ∧
      Checked p (p.prepareRound max).2 new := by
  obtain ⟨new, hlog, htimers⟩ := timers h hcurrent
  obtain ⟨h₁, -⟩ := h.move hid (.timers : Move evaluator p p.checkDueTimers.2)
  have hid₁ : p.checkDueTimers.2.config.partitionId ≤ maxPartitionId := by
    rw [(checkDueTimers_kept h).2.1]
    exact hid
  have hcurrent₁ : p.checkDueTimers.2.cursor.needsRecovery = false := by
    rw [htimers.cursor]
    exact hcurrent
  obtain ⟨more, hlog₁, hleases⟩ := leases h₁ hcurrent₁
  obtain ⟨h₂, -⟩ := h₁.move hid₁
    (.leases : Move evaluator _ p.checkDueTimers.2.sweepExpiredLeases.2)
  have hboth := htimers.trans hleases
  rw [hlog, List.append_assoc] at hlog₁
  unfold Partition.prepareRound
  rw [recoverIfNeeded_of_current hcurrent]
  dsimp only
  rcases heq : p.checkDueTimers with ⟨e | _, p₁⟩
  · rw [heq] at hlog htimers
    exact ⟨new, hlog, htimers⟩
  · rw [heq] at hlog₁ hboth h₂
    dsimp only at hlog₁ hboth h₂ ⊢
    rcases heq₁ : p₁.sweepExpiredLeases with ⟨e | _, p₂⟩
    · rw [heq₁] at hlog₁ hboth
      exact ⟨new ++ more, hlog₁, hboth⟩
    · rw [heq₁] at hlog₁ hboth h₂
      obtain ⟨calls, hread⟩ := h₂.readUnprocessed_eq max
      dsimp only at hread ⊢
      rw [hread]
      have hquiet : Checked p₂ (p₂.withLink (p₂.host.link.afterReads calls)) [] :=
        .of_quiet (.of_records rfl rfl rfl) rfl rfl
      have hall := hboth.trans hquiet
      rw [List.append_nil] at hall
      exact ⟨new ++ more, hlog₁, hall⟩

end Checked

end Partition

/-! ### Rounds that are prepared and not applied -/

/-- A round is prepared after things have arrived, and what it reads is not applied. -/
structure Preparation where
  /-- What arrives before it. -/
  arrivals : List Arrival
  /-- How many commands it reads. -/
  max : Nat

namespace Preparation

open Workflow.Partition

/-- The partition when things have arrived. -/
def arrived (p : Partition) (call : Preparation) : Partition := call.arrivals.foldl Arrival.run p

/-- The partition after the round was prepared. -/
def run (p : Partition) (call : Preparation) : Partition :=
  ((call.arrived p).prepareRound call.max).2

/-- The records that the checkers appended. -/
def appended (p : Partition) (call : Preparation) : List Record :=
  (call.run p).records.drop (call.arrived p).records.length

/-- The partition after all of them. -/
def runAll (p : Partition) (calls : List Preparation) : Partition := calls.foldl run p

/-- The records that the checkers appended in all of them. -/
def appendedAll : Partition → List Preparation → List Record
  | _, [] => []
  | p, call :: rest => call.appended p ++ appendedAll (call.run p) rest

variable {evaluator : Evaluator} {p q : Partition}

theorem checked_arrived (arrivals : List Arrival) :
    ∀ p : Partition, Sourced evaluator p → p.config.partitionId ≤ maxPartitionId →
      Checked p (arrivals.foldl Arrival.run p) [] := by
  induction arrivals with
  | nil => intro p _ _; exact .of_quiet (.refl p) rfl rfl
  | cons arrival rest ih =>
      intro p h hid
      obtain ⟨h', hsame⟩ := h.move hid arrival.move
      exact (Checked.arrival h arrival).trans (ih _ h' (by rw [hsame]; exact hid))

/-- What arrives leaves the partition in agreement with its log. -/
theorem sourced_arrived (h : Sourced evaluator p) (hid : p.config.partitionId ≤ maxPartitionId)
    (hcurrent : p.cursor.needsRecovery = false) (call : Preparation) :
    Sourced evaluator (call.arrived p) ∧
      (call.arrived p).config.partitionId ≤ maxPartitionId ∧
      (call.arrived p).cursor.needsRecovery = false := by
  obtain ⟨hmoves, hcursor, -⟩ := Arrival.moves h hid call.arrivals
  obtain ⟨h₁, hsame⟩ := h.moves hid hmoves
  refine ⟨h₁, ?_, ?_⟩
  · rw [arrived, hsame]
    exact hid
  · rw [arrived, hcursor]
    exact hcurrent

/-- What the checkers do in one call. -/
theorem checked (h : Sourced evaluator p) (hid : p.config.partitionId ≤ maxPartitionId)
    (hcurrent : p.cursor.needsRecovery = false) (call : Preparation) :
    Checked p (call.run p) (call.appended p) ∧ Sourced evaluator (call.run p) ∧
      (call.run p).config.partitionId ≤ maxPartitionId := by
  have harrived : Checked p (call.arrived p) [] := checked_arrived call.arrivals p h hid
  obtain ⟨h₁, hid₁, hcurrent₁⟩ := call.sourced_arrived h hid hcurrent
  obtain ⟨new, hlog, hprepared⟩ := Checked.prepareRound h₁ hid₁ hcurrent₁ call.max
  obtain ⟨result, q, heq, hmoves, -⟩ := prepareRound_moves h₁ hid₁ call.max
  obtain ⟨h₂, hsame⟩ := h₁.moves hid₁ hmoves
  have hrun : call.run p = q := congrArg Prod.snd heq
  have happended : call.appended p = new := by
    rw [appended, show (call.run p).records = (call.arrived p).records ++ new from hlog,
      List.drop_left]
  refine ⟨happended ▸ harrived.trans hprepared, hrun ▸ h₂, ?_⟩
  rw [hrun, hsame]
  exact hid₁

/-- **What the checkers do in any number of calls.** -/
theorem checked_runAll (calls : List Preparation) :
    ∀ p : Partition, Sourced evaluator p → p.config.partitionId ≤ maxPartitionId →
      p.cursor.needsRecovery = false →
      Checked p (runAll p calls) (appendedAll p calls) ∧ Sourced evaluator (runAll p calls) ∧
        (runAll p calls).config.partitionId ≤ maxPartitionId := by
  induction calls with
  | nil => intro p h hid _; exact ⟨.of_quiet (.refl p) rfl rfl, h, hid⟩
  | cons call rest ih =>
      intro p h hid hcurrent
      obtain ⟨hchecked, h₁, hid₁⟩ := call.checked h hid hcurrent
      have hcurrent₁ : (call.run p).cursor.needsRecovery = false := by
        rw [hchecked.cursor]
        exact hcurrent
      obtain ⟨hrest, hlast⟩ := ih _ h₁ hid₁ hcurrent₁
      exact ⟨hchecked.trans hrest, hlast⟩

end Preparation

/-! ### What is remembered was appended -/

namespace Partition

variable {evaluator : Evaluator} {p q : Partition} {clock : Clock} {config : PartitionConfig}
  {p₀ : Partition}

/-- After a run, the timers that are remembered await their triggers, if keys are new. -/
theorem watched_runAll (hopen : Partition.open { clock } .builtin evaluator config = .ok p₀)
    (actions : List PartitionAction)
    (hcurrent : (PartitionAction.runAll evaluator p₀ actions).cursor.needsRecovery = false)
    (hkeys : (PartitionAction.runAll evaluator p₀ actions).state.keyCounter < 2 ^ keyCounterBits) :
    (PartitionAction.runAll evaluator p₀ actions).Watched := by
  obtain ⟨h₀, hconfig, hid⟩ := sourced_of_open hopen
  obtain ⟨-, calls, hopened⟩ := eq_of_open hopen
  have hid₀ : p₀.config.partitionId ≤ maxPartitionId := hconfig ▸ hid
  have hmoves := PartitionAction.runAll_moves actions p₀ h₀ hid₀
  obtain ⟨hp, -⟩ := h₀.moves hid₀ hmoves
  have hnothing : p₀.pendingTriggers = [] := by
    rw [hopened]
    rfl
  refine Watched.moves h₀ hid₀ (fun _ => .of_nothing hnothing) hmoves ?_ hcurrent
  unfold KeysFit
  rw [← hp.engine_eq hcurrent]
  exact hkeys

/-- After a run whose clock is not set back, the leases that are remembered are reclaimed. -/
theorem remembers_runAll (hopen : Partition.open { clock } .builtin evaluator config = .ok p₀)
    (actions : List PartitionAction)
    (hclock : (clock.now :: actions.flatMap PartitionAction.times).Pairwise (· ≤ ·))
    (hcurrent : (PartitionAction.runAll evaluator p₀ actions).cursor.needsRecovery = false) :
    (PartitionAction.runAll evaluator p₀ actions).Remembers := by
  obtain ⟨h₀, hconfig, hid⟩ := sourced_of_open hopen
  obtain ⟨-, calls, rfl⟩ := eq_of_open hopen
  have hid₀ := hconfig ▸ hid
  exact Remembers.moves h₀ hid₀ (timed_of_nil rfl) (fun _ => .of_nothing rfl)
    (PartitionAction.runAll_forward actions _ h₀ hid₀ hclock) hcurrent

namespace Checked

variable {new : List Record}

/-- A timer that is remembered awaits its trigger, or it was remembered before. -/
theorem awaits (h : Checked p q new) {timer : Timer} (hpending : q.state.Pending timer)
    (hremembered : timer.key ∈ q.pendingTriggers) :
    q.Awaits timer ∨ p.state.Pending timer ∧ timer.key ∈ p.pendingTriggers := by
  rcases h.triggers.learned timer.key ((mem_keptTriggers hpending).mpr hremembered) with
    hold | hnew
  · rw [h.state] at hpending
    exact .inr ⟨hpending, (mem_keptTriggers hpending).mp hold⟩
  · exact .inl (hnew timer hpending rfl)

/-- A lease that is remembered and held is reclaimed, or it was remembered before. -/
theorem reclaims (h : Checked p q new) {lease : Lease} (hheld : lease ∈ q.state.jobs.leases)
    (hremembered : lease ∈ q.pendingTimeouts) :
    q.Reclaims lease ∨ lease ∈ p.state.jobs.leases ∧ lease ∈ p.pendingTimeouts := by
  have hkept : lease ∈ q.keptTimeouts :=
    List.mem_filter.mpr ⟨hremembered, decide_eq_true hheld⟩
  rcases h.timeOuts.learned lease hkept with hold | hnew
  · rw [h.state] at hheld
    exact .inr ⟨hheld, (List.mem_filter.mp hold).1⟩
  · exact .inl hnew

end Checked

open Preparation in
/-- **The checkers never repeat themselves, and never forget.**  Take any run whose clock is never
set back and that ends with no rebuild due.  Then prepare rounds any number of times, whatever
arrives in between and whichever appends are refused, and apply nothing.  The checkers append
triggers of timers that are due and time-outs of leases that are over, and nothing else: at most one
trigger for each timer, and at most one time-out for each lease.  And when preparing one more round
succeeds, every timer that may fire has a trigger that is left, and every lease that is over has a
time-out with its deadline that is left.  Only a timer that was remembered before may have none if
all keys were handed out, and only a lease at the end of the calendar, when the clock shows a later
time. -/
theorem checkers_once (hopen : Partition.open { clock } .builtin evaluator config = .ok p₀)
    (actions : List PartitionAction)
    (hclock : (clock.now :: actions.flatMap PartitionAction.times).Pairwise (· ≤ ·))
    (hcurrent : (PartitionAction.runAll evaluator p₀ actions).cursor.needsRecovery = false)
    (calls : List Preparation) :
    let p := PartitionAction.runAll evaluator p₀ actions
    (∀ record ∈ appendedAll p calls, p.Grounded record) ∧
      (∀ key, (appendedAll p calls).countP (fun record => record.toDraft.triggers key) ≤ 1) ∧
      (∀ lease, (appendedAll p calls).countP (fun record => record.toDraft.timesOut lease) ≤ 1) ∧
      ∀ (call : Preparation) commands q,
        (call.arrived (runAll p calls)).prepareRound call.max = (.ok commands, q) →
        (∀ timer ∈ q.state.timers.firingBatch q.now, q.Awaits timer ∨
          2 ^ keyCounterBits ≤ q.state.keyCounter ∧ timer.key ∈ p.pendingTriggers) ∧
        ∀ lease ∈ q.state.jobs.leases, lease.deadline < q.now → q.Reclaims lease ∨
          Instant.latest < q.now ∧ Instant.latest ≤ lease.deadline ∧
            lease ∈ p.pendingTimeouts := by
  intro p
  obtain ⟨h₀, hconfig, hid⟩ := sourced_of_open hopen
  have hid₀ : p₀.config.partitionId ≤ maxPartitionId := hconfig ▸ hid
  obtain ⟨hp, hsame⟩ := h₀.moves hid₀ (PartitionAction.runAll_moves actions p₀ h₀ hid₀)
  obtain ⟨hall, hr, hidr⟩ := checked_runAll calls p hp (hsame ▸ hid₀) hcurrent
  refine ⟨hall.grounded, hall.triggers.countP_le_one, hall.timeOuts.countP_le_one, ?_⟩
  intro call commands q hok
  have hcurrentr : (runAll p calls).cursor.needsRecovery = false := by
    rw [hall.cursor]
    exact hcurrent
  obtain ⟨hcall, hq, -⟩ := call.checked hr hidr hcurrentr
  have hrun : call.run (runAll p calls) = q := congrArg Prod.snd hok
  rw [hrun] at hcall hq
  have hchecked := hall.trans hcall
  have hcurrentq : q.cursor.needsRecovery = false := by
    rw [hchecked.cursor]
    exact hcurrent
  obtain ⟨ha, hida, hcurrenta⟩ := call.sourced_arrived hr hidr hcurrentr
  obtain ⟨htriggers, htimeouts⟩ := ha.remembered hida hcurrenta hok
  constructor
  · intro timer ht
    rcases hchecked.awaits (hq.of_mem_batch hcurrentq ht).1 (htriggers timer ht) with
      hawaits | ⟨hpending, hold⟩
    · exact .inl hawaits
    · by_cases hkeys : q.state.keyCounter < 2 ^ keyCounterBits
      · rw [hchecked.state] at hkeys
        have hwatched := watched_runAll hopen actions hcurrent hkeys
        exact .inl (hchecked.toStays.awaits (hwatched.awaits timer hpending hold))
      · exact .inr ⟨Nat.not_lt.mp hkeys, hold⟩
  · intro lease hheld hover
    have hexpired := JobLedger.mem_expiredLeases_iff.mpr ⟨hheld, hover⟩
    rcases hchecked.reclaims hheld (htimeouts lease hexpired) with hreclaims | ⟨hheldp, hold⟩
    · exact .inl hreclaims
    · by_cases hsmall : lease.deadline < Instant.latest
      · rcases (remembers_runAll hopen actions hclock hcurrent).awaits lease hold hsmall with
          hreclaims | ⟨hfree, -⟩
        · exact .inl (hchecked.toStays.reclaims hreclaims)
        · exact absurd hheldp hfree
      · have hlast := (Instant.not_lt _ _).mp hsmall
        exact .inr ⟨Instant.lt_of_le_of_lt hlast hover, hlast, hold⟩

open Preparation in
/-- **After the latest instant a lease may be forgotten.**  A lease was reclaimed, and the job was
leased again until the same instant.  Rounds are prepared, the lease is over, and nothing that is
left reclaims it. -/
theorem checkers_forget_overtime :
    let p₀ := (unbuilt { clock := ⟨.epoch⟩ } .unavailable {}).rebuilt (LogLink.afterReads {} 1)
    let p := PartitionAction.runAll .unavailable p₀ (overtimeLeaseRun ++ [.processRound])
    let call : Preparation := ⟨[], 1⟩
    let q := call.run (runAll p [call])
    Partition.open { clock := ⟨.epoch⟩ } .builtin .unavailable {} = .ok p₀ ∧
      p.cursor.needsRecovery = false ∧
      ((call.arrived (runAll p [call])).prepareRound call.max).1 = .ok [] ∧
      appendedAll p [call, call] = [] ∧ q.unapplied = [] ∧
      (⟨.latest, EngineState.keyAt 1 1⟩ : Lease) ∈ q.state.jobs.leases ∧ Instant.latest < q.now :=
  ⟨rfl, by decide +kernel⟩

/-- A job is leased and an endless timer is scheduled. -/
def watchedRun : List PartitionAction :=
  [.arrive (.submitInternal ⟨none, .job .create, .job { jobType := "task", retries := 1 }⟩),
    .arrive (.submitInternal ⟨none, .jobBatch .activate, .jobBatch
      { jobType := "task", worker := "worker", timeout := ⟨10000000000⟩, maxJobs := 1 }⟩),
    .arrive (.submitInternal ⟨none, .deployment .create, .deployment
      { processId := "p", timerStarts := [⟨"cycle", ⟨.cycle, false, "R/PT10S"⟩⟩] }⟩),
    .processUntilIdle 5]

/-- The trigger is refused, then the time-out is, then nothing is. -/
def refusedCalls : List Preparation :=
  [⟨[.setClock ⟨Instant.epoch.add ⟨35000000000⟩⟩, .outage (.window 0 1)], 1⟩,
    ⟨[.outage (.window 1 1)], 1⟩, ⟨[.outage .none], 1⟩]

open Preparation in
theorem checkers_once_refused :
    let p₀ := (unbuilt { clock := ⟨.epoch⟩ } .unavailable {}).rebuilt (LogLink.afterReads {} 1)
    let p := PartitionAction.runAll .unavailable p₀ watchedRun
    let call : Preparation := ⟨[.setClock ⟨Instant.epoch.add ⟨50000000000⟩⟩], 1⟩
    let q := call.run (runAll p refusedCalls)
    p.cursor.needsRecovery = false ∧ (appendedAll p refusedCalls).length = 2 ∧
      (∀ key, (appendedAll p refusedCalls).countP (fun record => record.toDraft.triggers key) ≤ 1) ∧
      (∀ lease, (appendedAll p refusedCalls).countP
        (fun record => record.toDraft.timesOut lease) ≤ 1) ∧
      (q.state.timers.firingBatch q.now).length = 1 ∧ q.state.jobs.leases.size = 1 ∧
      (∀ timer ∈ q.state.timers.firingBatch q.now, q.Awaits timer) ∧
      ∀ lease ∈ q.state.jobs.leases, lease.deadline < q.now → q.Reclaims lease := by
  intro p₀ p call q
  have hopen : Partition.open { clock := ⟨.epoch⟩ } .builtin .unavailable {} = .ok p₀ := rfl
  have hcurrent :
      (PartitionAction.runAll .unavailable p₀ watchedRun).cursor.needsRecovery = false := by
    decide +kernel
  obtain ⟨-, htriggers, htimeOuts, hcovered⟩ :=
    checkers_once hopen watchedRun (by decide +kernel) hcurrent refusedCalls
  have hsucceeds : (((call.arrived (runAll p refusedCalls)).prepareRound call.max).1.map
      List.length).toOption = some 1 := by
    decide +kernel
  obtain ⟨commands, hok⟩ : ∃ commands,
      ((call.arrived (runAll p refusedCalls)).prepareRound call.max).1 = .ok commands := by
    cases hresult : ((call.arrived (runAll p refusedCalls)).prepareRound call.max).1 with
    | error e =>
        rw [hresult] at hsucceeds
        cases hsucceeds
    | ok commands => exact ⟨commands, rfl⟩
  obtain ⟨htimers, hleases⟩ := hcovered call commands q (Prod.fst_eq_iff.mp hok)
  have hkeys : q.state.keyCounter < 2 ^ keyCounterBits := by decide +kernel
  have hearly : ¬ Instant.latest < q.now := by decide +kernel
  refine ⟨by decide +kernel, by decide +kernel, htriggers, htimeOuts, by decide +kernel,
    by decide +kernel, fun timer ht => ?_, fun lease hheld hover => ?_⟩
  · exact (htimers timer ht).resolve_right fun h => absurd hkeys (Nat.not_lt.mpr h.1)
  · exact (hleases lease hheld hover).resolve_right fun h => hearly h.1

end Partition

end Workflow
