/-
One timer at a time.

`Fires` is the plain way to let timers fire: as long as any is due, the one with the least slot
fires and makes its successor at a position after those of all pending timers, and nothing else
happens.  It is what a partition is measured against.

The positions that are chosen do not matter, nor do jobs and incidents: engines that are `Alike`
fire the same timers (`Fires.alike`).  And no timer fires that precedes one that has fired
(`Fires.ascending`); only at the end of the calendar, where due dates cannot grow, this needs the
clock to show a time that is on it.
-/
import Workflow.Partition.Round
import Workflow.Proofs.Engine.History
import Workflow.Proofs.Timer.Batch

namespace Workflow

open Decide

/-- The command that triggers a timer, at a position. -/
def triggerAt (position : Nat) (now : Instant) (timer : Timer) : Record :=
  .ofDraft position (Partition.triggerCommand now timer)

/-! ### What firing a timer does -/

/-- A successor is created at the position and due a period after the timer. -/
theorem Timer.successor?_some {timer next : Timer} {key position : Nat}
    (h : timer.successor? key position = some next) :
    next.key = key ∧ next.creationPosition = position ∧
      timer.successorDueDate? = some next.dueDate ∧
      ∃ period, next.dueDate = timer.dueDate.add period := by
  unfold successor? at h
  unfold successorDueDate?
  cases hperiod : timer.period with
  | none =>
      rw [hperiod] at h
      cases h
  | some period =>
      cases hnext : timer.repetition.next? with
      | none =>
          rw [hperiod, hnext] at h
          cases h
      | some repetition =>
          rw [hperiod, hnext] at h
          cases h
          exact ⟨rfl, rfl, rfl, period, rfl⟩

theorem Timer.successor?_of_not_repeats {timer : Timer} (h : ¬ timer.repeats) (key position : Nat) :
    timer.successor? key position = none := by
  unfold repeats at h
  unfold successor?
  cases hperiod : timer.period with
  | none => rfl
  | some period =>
      cases hnext : timer.repetition.next? with
      | none => rfl
      | some next => simp [hperiod, hnext] at h

namespace EngineState

variable {state : EngineState} {now : Instant} {timer : Timer}

/-- The successor that a timer makes. -/
def successorOf (state : EngineState) (timer : Timer) (position : Nat) : Option Timer :=
  timer.successor? (fireStart state timer).1.nextKey.1 position

/-- The state when a timer has fired. -/
def fired (state : EngineState) (timer : Timer) (position : Nat) : EngineState :=
  (scheduleSuccessor (fireStart { state with timers := state.timers.erase timer.key } timer).1
    timer position).1

/-- The instance that a timer starts depends on the processes and the counter of keys. -/
theorem fireStart_with (state : EngineState) (timer : Timer) (timers : TimerAgenda)
    (jobs : JobLedger) (incidents : IncidentLedger) :
    (fireStart { state with timers, jobs, incidents } timer).1 =
      { (fireStart state timer).1 with timers, jobs, incidents } := by
  unfold fireStart
  by_cases hstart : timer.isStartEvent
  · rw [if_pos hstart, if_pos hstart]
    dsimp only
    cases timer.definitionKey.bind state.processes.definition? with
    | none => rfl
    | some definition => rfl
  · rw [if_neg hstart, if_neg hstart]

/-- The agenda changes as if the timer had fired there, and the rest depends on the processes and
the counter of keys. -/
theorem fired_eq (state : EngineState) (timer : Timer) (position : Nat) :
    state.fired timer position =
      { (fireStart state timer).1 with
        keyCounter := (fireStart state timer).1.keyCounter + if timer.repeats then 1 else 0
        timers := state.timers.fire timer (state.successorOf timer position)
        jobs := state.jobs
        incidents := state.incidents } := by
  unfold fired successorOf
  have hstart : (fireStart { state with timers := state.timers.erase timer.key } timer).1 =
      { (fireStart state timer).1 with
        timers := state.timers.erase timer.key
        jobs := state.jobs
        incidents := state.incidents } :=
    fireStart_with state timer (state.timers.erase timer.key) state.jobs state.incidents
  rw [hstart]
  unfold scheduleSuccessor TimerAgenda.fire
  by_cases hrepeats : timer.repeats
  · rw [if_pos hrepeats, if_pos hrepeats]
    unfold nextKey
    dsimp only
    cases timer.successor? (keyAt (fireStart state timer).1.partitionId
      ((fireStart state timer).1.keyCounter + 1)) position with
    | none => rfl
    | some next => rfl
  · rw [if_neg hrepeats, if_neg hrepeats, Timer.successor?_of_not_repeats hrepeats]
    rfl

theorem fired_timers (state : EngineState) (timer : Timer) (position : Nat) :
    (state.fired timer position).timers =
      state.timers.fire timer (state.successorOf timer position) := by
  rw [fired_eq]

end EngineState

namespace Processor

variable {processor : Processor} {now : Instant} {timer : Timer}

/-- The decision about a trigger command for a timer that is due. -/
theorem decision_triggerAt (evaluator : Evaluator) {state : EngineState}
    (hpending : state.timers.get? timer.key = some timer) (hdue : timer.dueDate ≤ now)
    (position : Nat) :
    ∃ others, decision evaluator state (triggerAt position now timer) =
      .accept (state.fired timer position) ⟨timer.key, .timer .triggered, .timer timer.toPayload⟩
        others ∧ ∀ event ∈ others, event.intent ≠ .timer .triggered := by
  have hlate : ¬ now < timer.dueDate := (Instant.not_lt _ _).mpr hdue
  refine ⟨(fireStart { state with timers := state.timers.erase timer.key } timer).2 ++
    (scheduleSuccessor (fireStart { state with timers := state.timers.erase timer.key } timer).1
      timer position).2, ?_, ?_⟩
  · show triggerTimer evaluator state (triggerAt position now timer) = _
    unfold triggerTimer
    simp only [triggerAt, Partition.triggerCommand, Draft.command, Draft.withTimestamp,
      Record.ofDraft, hpending, hlate, if_false]
    rfl
  · intro event he
    rcases List.mem_append.mp he with hstart | hnext
    · rw [intent_fireStart event hstart]
      exact fun heq => by cases heq
    · rw [intent_scheduleSuccessor event hnext]
      exact fun heq => by cases heq

/-- **What a trigger command does to a timer that is due.** -/
theorem apply_triggerAt (hbuiltin : processor.registry = .builtin)
    (hpending : processor.state.timers.get? timer.key = some timer) (hdue : timer.dueDate ≤ now)
    (position : Nat) :
    (processor.apply (triggerAt position now timer)).2 =
        { processor with state := processor.state.fired timer position } ∧
      ∃ others, (∀ event ∈ others, event.intent ≠ .timer .triggered) ∧
        (processor.apply (triggerAt position now timer)).1.followUps =
          ((⟨timer.key, .timer .triggered, .timer timer.toPayload⟩ : Event) :: others).map
            fun event => Draft.event (triggerAt position now timer) (some event.key) event.intent
              event.value := by
  obtain ⟨others, hdecision, hothers⟩ :=
    decision_triggerAt processor.evaluator hpending hdue position
  rw [apply_command hbuiltin rfl, hdecision]
  exact ⟨rfl, others, hothers, rfl⟩

end Processor

/-! ### Firing in turn -/

namespace EngineState

/-- The timer is pending. -/
def Pending (state : EngineState) (timer : Timer) : Prop :=
  state.timers.get? timer.key = some timer

/-- The timer that fires next: of the pending timers that are due, the one with the least slot. -/
structure FiresNext (state : EngineState) (now : Instant) (timer : Timer) : Prop where
  pending : state.Pending timer
  due : timer.dueDate ≤ now
  least : ∀ other, state.Pending other → other.dueDate ≤ now →
    other = timer ∨ timer.slot < other.slot

/-- No pending timer is due. -/
def NoneDue (state : EngineState) (now : Instant) : Prop :=
  ∀ timer, state.Pending timer → ¬ timer.dueDate ≤ now

/-- All pending timers were created before a position. -/
def CreatedBefore (state : EngineState) (position : Nat) : Prop :=
  ∀ timer, state.Pending timer → timer.creationPosition < position

end EngineState

/-- **Firing in turn.**  Timers fire one after the other, each of them the next one, and whatever
successor they make is created after all pending timers. -/
inductive Fires (now : Instant) : Processor → List Timer → Processor → Prop
  /-- No timer fires. -/
  | none (processor : Processor) : Fires now processor [] processor
  /-- The next timer fires, then others. -/
  | next {processor final : Processor} {timer : Timer} {others : List Timer} (position : Nat)
      (hnext : processor.state.FiresNext now timer)
      (hlater : processor.state.CreatedBefore position)
      (hothers : Fires now (processor.apply (triggerAt position now timer)).2 others final) :
      Fires now processor (timer :: others) final

/-! ### The positions do not matter -/

/-- The timer without its creation position. -/
def Timer.unplaced (timer : Timer) : Timer := { timer with creationPosition := 0 }

theorem Timer.eq_of_unplaced {timer other : Timer} (h : other.unplaced = timer.unplaced) :
    ∃ position, other = { timer with creationPosition := position } := by
  refine ⟨other.creationPosition, ?_⟩
  cases timer
  cases other
  simp only [unplaced, Timer.mk.injEq] at h ⊢
  obtain ⟨hkey, hdue, hrepetition, hperiod, helement, hdefinition, hinstance, helementKey, -⟩ := h
  exact ⟨hkey, hdue, hrepetition, hperiod, helement, hdefinition, hinstance, helementKey, trivial⟩

theorem Timer.name_of_unplaced {timer other : Timer} (h : other.unplaced = timer.unplaced) :
    other.key = timer.key ∧ other.dueDate = timer.dueDate ∧ other.repeats = timer.repeats := by
  obtain ⟨position, rfl⟩ := Timer.eq_of_unplaced h
  exact ⟨rfl, rfl, rfl⟩

namespace EngineState

/-- States that differ in the creation positions of timers, but not in their order, and in jobs
and incidents. -/
structure Alike (state other : EngineState) : Prop where
  /-- The rest is the same. -/
  same : other =
    { state with timers := other.timers, jobs := other.jobs, incidents := other.incidents }
  /-- The timers are the same but for their creation positions. -/
  timers : ∀ key,
    (other.timers.get? key).map Timer.unplaced = (state.timers.get? key).map Timer.unplaced
  /-- The timers come in the same order. -/
  order : ∀ a b a' b', state.Pending a → state.Pending b → other.Pending a' → other.Pending b' →
    a'.unplaced = a.unplaced → b'.unplaced = b.unplaced → (a.slot < b.slot ↔ a'.slot < b'.slot)

namespace Alike

variable {state other : EngineState} {now : Instant} {timer timer' : Timer}

theorem refl (state : EngineState) : Alike state state := by
  refine ⟨rfl, fun key => rfl, ?_⟩
  intro a b a' b' ha hb ha' hb' hsame hsame'
  unfold Pending at ha hb ha' hb'
  rw [(Timer.name_of_unplaced hsame).1, ha] at ha'
  rw [(Timer.name_of_unplaced hsame').1, hb] at hb'
  cases ha'
  cases hb'
  exact Iff.rfl

theorem symm (h : Alike state other) : Alike other state := by
  refine ⟨?_, fun key => (h.timers key).symm, ?_⟩
  · rw [h.same]
  · intro a b a' b' ha hb ha' hb' hsame hsame'
    exact (h.order a' b' a b ha' hb' ha hb hsame.symm hsame'.symm).symm

/-- Each timer has its counterpart. -/
theorem counterpart (h : Alike state other) (hpending : state.Pending timer) :
    ∃ timer', other.Pending timer' ∧ timer'.unplaced = timer.unplaced := by
  have hmap := h.timers timer.key
  unfold Pending at hpending
  rw [hpending] at hmap
  obtain ⟨timer', hget, hsame⟩ := Option.map_eq_some_iff.mp hmap
  refine ⟨timer', ?_, hsame⟩
  unfold Pending
  rw [(Timer.name_of_unplaced hsame).1]
  exact hget

theorem noneDue (h : Alike state other) (hnone : state.NoneDue now) : other.NoneDue now := by
  intro timer hpending hdue
  obtain ⟨timer', hpending', hsame⟩ := h.symm.counterpart hpending
  refine hnone timer' hpending' ?_
  rw [(Timer.name_of_unplaced hsame).2.1]
  exact hdue

/-- The timers that fire next are counterparts. -/
theorem unplaced_next (h : Alike state other) (hnext : state.FiresNext now timer)
    (hnext' : other.FiresNext now timer') : timer'.unplaced = timer.unplaced := by
  obtain ⟨mirror, hmirror, hsame⟩ := h.counterpart hnext.pending
  obtain ⟨mirror', hmirror', hsame'⟩ := h.symm.counterpart hnext'.pending
  have hdue : mirror.dueDate ≤ now := by
    rw [(Timer.name_of_unplaced hsame).2.1]
    exact hnext.due
  have hdue' : mirror'.dueDate ≤ now := by
    rw [(Timer.name_of_unplaced hsame').2.1]
    exact hnext'.due
  rcases hnext'.least mirror hmirror hdue with heq | hlt
  · rw [← heq]
    exact hsame
  · rcases hnext.least mirror' hmirror' hdue' with heq | hlt'
    · rw [← heq]
      exact hsame'.symm
    · have hback := (h.order _ _ _ _ hnext.pending hmirror' hmirror hnext'.pending hsame
        hsame'.symm).mp hlt'
      exact absurd hback (StrictOrder.asymm hlt)

/-- The instances that are started are the same. -/
theorem fireStart (h : Alike state other) (hsame : timer'.unplaced = timer.unplaced) :
    (fireStart other timer').1 =
      { (fireStart state timer).1 with
        timers := other.timers, jobs := other.jobs, incidents := other.incidents } := by
  obtain ⟨position, rfl⟩ := Timer.eq_of_unplaced hsame
  have hother := h.same
  cases other with
  | mk partitionId keyCounter processes timers jobs incidents =>
      simp only [EngineState.mk.injEq] at hother
      obtain ⟨rfl, rfl, rfl, -⟩ := hother
      exact fireStart_with state timer timers jobs incidents

/-- The successors are counterparts. -/
theorem successorOf (h : Alike state other) (hsame : timer'.unplaced = timer.unplaced)
    (position position' : Nat) :
    other.successorOf timer' position' = (state.successorOf timer position).map fun next =>
      { next with creationPosition := position' } := by
  have hkey : (Decide.fireStart other timer').1.nextKey.1 =
      (Decide.fireStart state timer).1.nextKey.1 := by
    rw [h.fireStart hsame]
    rfl
  unfold EngineState.successorOf
  rw [hkey]
  obtain ⟨created, rfl⟩ := Timer.eq_of_unplaced hsame
  unfold Timer.successor?
  dsimp only
  cases timer.period with
  | none => rfl
  | some period =>
      cases timer.repetition.next? with
      | none => rfl
      | some repetition => rfl

end Alike

/-- After a timer has fired its successor is pending, and what was pending but for the timer. -/
theorem pending_fired {state : EngineState} {timer other : Timer} {position : Nat}
    (h : (state.fired timer position).Pending other) :
    state.successorOf timer position = some other ∨
      (∀ next, state.successorOf timer position = some next → other.key ≠ next.key) ∧
        other.key ≠ timer.key ∧ state.Pending other := by
  unfold Pending at h
  rw [fired_timers, TimerAgenda.get?_fire] at h
  by_cases hnew : (state.successorOf timer position).any fun next => other.key == next.key
  · rw [if_pos hnew] at h
    exact .inl h
  · rw [if_neg hnew] at h
    refine .inr ⟨?_, Option.ite_none_left_eq_some.mp h⟩
    intro next hnext heq
    rw [hnext] at hnew
    simp [heq] at hnew

namespace Alike

variable {state other : EngineState} {timer timer' a b a' b' : Timer} {position position' : Nat}

/-- Counterparts are both the successor, or both were pending before. -/
theorem pending_pair (h : Alike state other) (hsame : timer'.unplaced = timer.unplaced)
    (ha : (state.fired timer position).Pending a)
    (ha' : (other.fired timer' position').Pending a') (hpair : a'.unplaced = a.unplaced) :
    (state.successorOf timer position = some a ∧ other.successorOf timer' position' = some a') ∨
      (state.Pending a ∧ other.Pending a') := by
  have hkey := (Timer.name_of_unplaced hpair).1
  have hsuccessor := h.successorOf hsame position position'
  rcases pending_fired ha with hnew | ⟨hother, -, hold⟩
  · rcases pending_fired ha' with hnew' | ⟨hother', -, -⟩
    · exact .inl ⟨hnew, hnew'⟩
    · rw [hnew] at hsuccessor
      exact absurd hkey (hother' { a with creationPosition := position' } hsuccessor)
  · rcases pending_fired ha' with hnew' | ⟨-, -, hold'⟩
    · rw [hnew'] at hsuccessor
      obtain ⟨next, hnext, heq⟩ := Option.map_eq_some_iff.mp hsuccessor.symm
      have hself : a'.key = next.key := by rw [← heq]
      exact absurd (hkey.symm.trans hself) (hother next hnext)
    · exact .inr ⟨hold, hold'⟩

/-- **Firing counterparts leads to states that are alike.**  The successor is created after the
other timers in both, so its place among them depends on due dates only. -/
theorem fired (h : Alike state other) (hsame : timer'.unplaced = timer.unplaced)
    (hlater : state.CreatedBefore position) (hlater' : other.CreatedBefore position') :
    Alike (state.fired timer position) (other.fired timer' position') := by
  have hname := Timer.name_of_unplaced hsame
  refine ⟨?_, ?_, ?_⟩
  · rw [fired_eq, fired_eq, h.fireStart hsame, hname.2.2]
  · intro key
    rw [fired_timers, fired_timers, TimerAgenda.get?_fire, TimerAgenda.get?_fire,
      h.successorOf hsame position position', hname.1]
    have hold : (if key = timer.key then none else other.timers.get? key).map Timer.unplaced =
        (if key = timer.key then none else state.timers.get? key).map Timer.unplaced := by
      by_cases hgone : key = timer.key
      · rw [if_pos hgone, if_pos hgone]
      · rw [if_neg hgone, if_neg hgone]
        exact h.timers key
    cases state.successorOf timer position with
    | none => exact hold
    | some next =>
        by_cases hnew : key = next.key
        · simp [hnew, Timer.unplaced]
        · simpa [hnew] using hold
  · intro a b a' b' ha hb ha' hb' hpair hpair'
    have hdue := (Timer.name_of_unplaced hpair).2.1
    have hdue' := (Timer.name_of_unplaced hpair').2.1
    rcases h.pending_pair hsame ha ha' hpair with ⟨hnew, hnew'⟩ | ⟨hold, hold'⟩
    · have hlate := (Timer.successor?_some hnew).2.1
      have hlate' := (Timer.successor?_some hnew').2.1
      rcases h.pending_pair hsame hb hb' hpair' with ⟨hnext, hnext'⟩ | ⟨hearly, hearly'⟩
      · cases hnew.symm.trans hnext
        cases hnew'.symm.trans hnext'
        exact iff_of_false (StrictOrder.irrefl _) (StrictOrder.irrefl _)
      · have hfirst : b.creationPosition < a.creationPosition := by
          rw [hlate]
          exact hlater b hearly
        have hfirst' : b'.creationPosition < a'.creationPosition := by
          rw [hlate']
          exact hlater' b' hearly'
        rw [(TimerSlot.lt_iff_of_later hfirst).1, (TimerSlot.lt_iff_of_later hfirst').1, hdue,
          hdue']
    · rcases h.pending_pair hsame hb hb' hpair' with ⟨hnext, hnext'⟩ | ⟨hearly, hearly'⟩
      · have hfirst : a.creationPosition < b.creationPosition := by
          rw [(Timer.successor?_some hnext).2.1]
          exact hlater a hold
        have hfirst' : a'.creationPosition < b'.creationPosition := by
          rw [(Timer.successor?_some hnext').2.1]
          exact hlater' a' hold'
        rw [(TimerSlot.lt_iff_of_later hfirst).2, (TimerSlot.lt_iff_of_later hfirst').2, hdue,
          hdue']
      · exact h.order a b a' b' hold hearly hold' hearly' hpair hpair'

end Alike

end EngineState

/-- What is due after a timer has fired comes after it. -/
theorem EngineState.FiresNext.slot_lt_fired {state : EngineState} {now : Instant} {timer : Timer}
    {position : Nat} (hnext : state.FiresNext now timer) (hnow : now ≤ Instant.latest)
    (hlater : state.CreatedBefore position) :
    ∀ other, (state.fired timer position).Pending other → other.dueDate ≤ now →
      timer.slot < other.slot := by
  intro other hother hdue
  rcases EngineState.pending_fired hother with hnew | ⟨-, hne, hold⟩
  · obtain ⟨-, hplace, -, period, hperiod⟩ := Timer.successor?_some hnew
    have hfirst : timer.creationPosition < other.creationPosition := by
      rw [hplace]
      exact hlater timer hnext.pending
    rw [(TimerSlot.lt_iff_of_later hfirst).2, Instant.not_lt, hperiod]
    exact Instant.le_add (Instant.le_trans hnext.due hnow) period
  · rcases hnext.least other hold hdue with heq | hlt
    · exact absurd (congrArg Timer.key heq) hne
    · exact hlt

namespace Fires

variable {now : Instant} {first final : Processor} {fired : List Timer}

open EngineState

theorem trans {third : Processor} {others : List Timer} (h : Fires now first fired final)
    (h' : Fires now final others third) : Fires now first (fired ++ others) third := by
  induction h with
  | none => exact h'
  | next position hnext hlater _ ih => exact .next position hnext hlater (ih h')

/-- **The positions do not matter.**  Engines that are alike fire the same timers until none is
due. -/
theorem alike {first' final' : Processor} {fired' : List Timer} (h : Fires now first fired final)
    (h' : Fires now first' fired' final') (hbuiltin : first.registry = .builtin)
    (hbuiltin' : first'.registry = .builtin) (halike : Alike first.state first'.state)
    (hnone : final.state.NoneDue now) (hnone' : final'.state.NoneDue now) :
    fired'.map Timer.unplaced = fired.map Timer.unplaced := by
  induction h generalizing first' fired' with
  | none processor =>
      cases h' with
      | none => rfl
      | next position hnext => exact absurd hnext.due (halike.noneDue hnone _ hnext.pending)
  | @next processor final timer others position hnext hlater _ ih =>
      cases h' with
      | none => exact absurd hnext.due (halike.symm.noneDue hnone' _ hnext.pending)
      | @next _ _ timer' others' position' hnext' hlater' hothers' =>
          have hsame := halike.unplaced_next hnext hnext'
          have hstate := (Processor.apply_triggerAt hbuiltin hnext.pending hnext.due position).1
          have hstate' :=
            (Processor.apply_triggerAt hbuiltin' hnext'.pending hnext'.due position').1
          have hrest := ih hothers' ((Processor.apply_registry _ _).trans hbuiltin)
            ((Processor.apply_registry _ _).trans hbuiltin')
            (by rw [hstate, hstate']; exact halike.fired hsame hlater hlater') hnone
          rw [List.map_cons, List.map_cons, hsame, hrest]

/-! ### Timers fire in order -/

/-- What fires comes after any slot that all pending timers that are due come after. -/
theorem slot_lt (h : Fires now first fired final) (hbuiltin : first.registry = .builtin)
    (hnow : now ≤ Instant.latest) (slot : TimerSlot)
    (hafter : ∀ timer, first.state.Pending timer → timer.dueDate ≤ now → slot < timer.slot) :
    ∀ timer ∈ fired, slot < timer.slot := by
  induction h with
  | none => intro timer ht; exact absurd ht List.not_mem_nil
  | @next processor final timer others position hnext hlater _ ih =>
      have hstate := (Processor.apply_triggerAt hbuiltin hnext.pending hnext.due position).1
      have hfirst := hafter timer hnext.pending hnext.due
      intro found hfound
      rcases List.mem_cons.mp hfound with heq | hin
      · rw [heq]
        exact hfirst
      · refine ih ((Processor.apply_registry _ _).trans hbuiltin) ?_ found hin
        rw [hstate]
        intro other hother hdue
        exact StrictOrder.trans hfirst (hnext.slot_lt_fired hnow hlater other hother hdue)

/-- **Timers fire in the order of their slots.** -/
theorem ascending (h : Fires now first fired final) (hbuiltin : first.registry = .builtin)
    (hnow : now ≤ Instant.latest) : fired.Pairwise fun a b => a.slot < b.slot := by
  induction h with
  | none => exact List.Pairwise.nil
  | @next processor final timer others position hnext hlater hothers ih =>
      have hstate := (Processor.apply_triggerAt hbuiltin hnext.pending hnext.due position).1
      rw [hstate] at hothers ih
      exact List.pairwise_cons.mpr ⟨hothers.slot_lt hbuiltin hnow timer.slot
        (hnext.slot_lt_fired hnow hlater), ih hbuiltin⟩

end Fires

end Workflow
