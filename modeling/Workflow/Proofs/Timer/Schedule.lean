/-
What commands do to the pending timers.

A command removes timers and adds new ones.  A new one has a key that was just handed out and the
position of the command (`Reschedules`); this composes, so it is shown for each step of a decision
and then for each way of accepting a command (`Accepted.reschedules`).

It follows that in every state that commands lead to the index of the agenda is right, the keys of
the timers were handed out, and no timer was created after the last command (`Scheduled`).
-/
import Workflow.Proofs.Timer.Turn

namespace Workflow

open Decide EngineState

/-- Timers were removed, and new ones were added at a position. -/
structure Reschedules (position : Nat) (state later : EngineState) : Prop
    extends Grows state later where
  /-- The index stays right. -/
  indexed : state.timers.Indexed → later.timers.Indexed
  /-- A pending timer was pending, or it is new. -/
  timers : ∀ timer, later.Pending timer → state.Pending timer ∨
    (timer.creationPosition = position ∧ ∃ counter, state.keyCounter < counter ∧
      counter ≤ later.keyCounter ∧ timer.key = keyAt state.partitionId counter)

namespace Reschedules

variable {position : Nat} {state later latest : EngineState}

theorem of_timers_eq (hgrows : Grows state later) (h : later.timers = state.timers) :
    Reschedules position state later := by
  refine ⟨hgrows, fun hindexed => h ▸ hindexed, ?_⟩
  intro timer ht
  unfold Pending at ht
  rw [h] at ht
  exact .inl ht

theorem trans (h : Reschedules position state later) (h' : Reschedules position later latest) :
    Reschedules position state latest := by
  refine ⟨h.toGrows.trans h'.toGrows, fun hindexed => h'.indexed (h.indexed hindexed), ?_⟩
  intro timer ht
  rcases h'.timers timer ht with hold | ⟨hplace, counter, hlt, hle, hkey⟩
  · rcases h.timers timer hold with hold | ⟨hplace, counter, hlt, hle, hkey⟩
    · exact .inl hold
    · exact .inr ⟨hplace, counter, hlt, Nat.le_trans hle h'.keyCounter, hkey⟩
  · refine .inr ⟨hplace, counter, Nat.lt_of_le_of_lt h.keyCounter hlt, hle, ?_⟩
    rw [← h.partitionId]
    exact hkey

theorem erase (position : Nat) (state : EngineState) (key : Nat) :
    Reschedules position state { state with timers := state.timers.erase key } := by
  refine ⟨⟨rfl, Nat.le_refl _⟩, fun hindexed => hindexed.erase key, ?_⟩
  intro timer ht
  unfold Pending at ht
  rw [TimerAgenda.get?_erase] at ht
  exact .inl (Option.ite_none_left_eq_some.mp ht).2

/-- A timer under the next key is added. -/
theorem schedule (state : EngineState) (timer : Timer) (hkey : timer.key = state.nextKey.1) :
    Reschedules timer.creationPosition state
      { state.nextKey.2 with timers := state.timers.schedule timer } := by
  refine ⟨⟨rfl, Nat.le_succ _⟩, fun hindexed => hindexed.schedule timer, ?_⟩
  intro other ho
  unfold Pending at ho
  rw [TimerAgenda.get?_schedule] at ho
  by_cases hnew : other.key = timer.key
  · rw [if_pos hnew] at ho
    cases ho
    exact .inr ⟨rfl, state.keyCounter + 1, Nat.lt_succ_self _, Nat.le_refl _, hkey⟩
  · rw [if_neg hnew] at ho
    exact .inl ho

/-- A key that is new was not handed out before, as long as the counter fits into keys. -/
theorem pending_of_issued (h : Reschedules position state later)
    (hkeys : later.keyCounter < 2 ^ keyCounterBits) {timer : Timer} (hpending : later.Pending timer)
    (hissued : state.Issued timer.key) : state.Pending timer := by
  rcases h.timers timer hpending with hold | ⟨-, counter, hlt, hle, hkey⟩
  · exact hold
  · obtain ⟨earlier, -, hle', hkey'⟩ := hissued
    have hsame := keyAt_injective (Nat.lt_of_le_of_lt hle hkeys)
      (Nat.lt_of_le_of_lt (Nat.le_trans hle' h.keyCounter) hkeys) (hkey.symm.trans hkey')
    omega

end Reschedules

/-! ### Each step of a decision -/

section Steps

variable {position : Nat} {state : EngineState}

theorem fireStart_timers (state : EngineState) (timer : Timer) :
    (fireStart state timer).1.timers = state.timers := by
  have hstart := fireStart_with state timer state.timers state.jobs state.incidents
  have htimers := congrArg EngineState.timers hstart
  exact htimers

theorem reschedules_scheduleSuccessor (state : EngineState) (timer : Timer) (position : Nat) :
    Reschedules position state (scheduleSuccessor state timer position).1 := by
  unfold scheduleSuccessor
  by_cases hrepeats : timer.repeats
  · rw [if_pos hrepeats]
    dsimp only
    cases hnext : timer.successor? state.nextKey.1 position with
    | none => exact .of_timers_eq ⟨rfl, Nat.le_succ _⟩ rfl
    | some next =>
        obtain ⟨hkey, hplace, -⟩ := Timer.successor?_some hnext
        have hadded := Reschedules.schedule state next hkey
        rw [hplace] at hadded
        exact hadded
  · rw [if_neg hrepeats]
    exact .of_timers_eq (.refl state) rfl

theorem reschedules_fired (state : EngineState) (key : Nat) (timer : Timer) (position : Nat) :
    Reschedules position state (scheduleSuccessor
      (fireStart { state with timers := state.timers.erase key } timer).1 timer position).1 := by
  have hstart : Reschedules position { state with timers := state.timers.erase key }
      (fireStart { state with timers := state.timers.erase key } timer).1 :=
    .of_timers_eq (keepsJobs_fireStart _ timer).toGrows (fireStart_timers _ timer)
  exact ((Reschedules.erase position state key).trans hstart).trans
    (reschedules_scheduleSuccessor _ timer position)

theorem reschedules_scheduleStarts (definitionKey position : Nat) (starts : List ResolvedStart) :
    ∀ state, Reschedules position state
      (scheduleStarts definitionKey position state starts).1 := by
  induction starts with
  | nil => intro state; exact .of_timers_eq (.refl state) rfl
  | cons start rest ih =>
      intro state
      have hfirst := Reschedules.schedule state
        (startTimer state.nextKey.1 definitionKey position start) rfl
      exact hfirst.trans (ih _)

/-- Removing timers adds none. -/
theorem reschedules_cancelTimers (timers : List Timer) (position : Nat) :
    ∀ state, Reschedules position state (cancelTimers timers state).1 := by
  induction timers with
  | nil => intro state; exact .of_timers_eq (.refl state) rfl
  | cons timer rest ih =>
      intro state
      exact (Reschedules.erase position state timer.key).trans
        (ih { state with timers := state.timers.erase timer.key })

theorem reschedules_deployed {final : EngineState} {request : DeploymentPayload}
    {starts : List ResolvedStart} {answer : Event} {others : List Event}
    (h : deployResolved state position request starts = .accept final answer others) :
    Reschedules position state final := by
  rw [deployResolved_final h]
  refine Reschedules.trans ?_ (reschedules_scheduleStarts _ position starts _)
  unfold EngineState.cleared
  refine Reschedules.trans ?_ (reschedules_cancelTimers _ position _)
  exact .of_timers_eq ⟨rfl, Nat.le_succ _⟩ rfl

end Steps

/-- **Whatever is accepted, timers are removed or new ones are added.** -/
theorem Accepted.reschedules {evaluator : Evaluator} {state final : EngineState} {command : Record}
    {answer : Event} {others : List Event}
    (h : Accepted evaluator state command final answer others) :
    Reschedules command.position state final := by
  have hgrows := h.grows
  cases h with
  | deployed request starts hintent hvalue hid hunique hstarts hdeploy =>
      exact reschedules_deployed hdeploy
  | timerCreated request definition instanceKey elementInstanceKey owner resolved =>
      exact .schedule state (elementTimer state.nextKey.1 command.position owner.definitionKey
        instanceKey elementInstanceKey request resolved) rfl
  | timerFired key timer => exact reschedules_fired state key timer command.position
  | timerCanceled key => exact .erase command.position state key
  | jobFailed key request job jobs =>
      obtain ⟨counter, incidents, -, heq⟩ := openIncident_with { state with jobs } job
      exact .of_timers_eq hgrows (by rw [heq])
  | retriesUpdated key request revived job jobs =>
      obtain ⟨incidents, heq⟩ := resolveIncident_with { state with jobs } key
      exact .of_timers_eq hgrows (by rw [heq])
  | jobCanceled key job jobs =>
      obtain ⟨incidents, heq⟩ := resolveIncident_with { state with jobs } key
      exact .of_timers_eq hgrows (by rw [heq])
  | _ => exact .of_timers_eq hgrows rfl

/-! ### The timers of the states that commands lead to -/

/-- Applying a record removes timers or adds new ones. -/
theorem Processor.reschedules_apply {processor : Processor}
    (hbuiltin : processor.registry = .builtin) (command : Record) :
    Reschedules command.position processor.state (processor.apply command).2.state := by
  rcases apply_cases hbuiltin command with hsame | ⟨answer, others, -, haccepted, -⟩
  · exact .of_timers_eq (hsame ▸ .refl processor.state) (congrArg EngineState.timers hsame)
  · exact haccepted.reschedules

/-- The pending timers are in order, and none was created after a position. -/
structure Scheduled (state : EngineState) (position : Nat) : Prop where
  /-- The index is right. -/
  indexed : state.timers.Indexed
  /-- Their keys were handed out. -/
  issued : ∀ timer, state.Pending timer → state.Issued timer.key
  /-- None was created later. -/
  created : ∀ timer, state.Pending timer → timer.creationPosition ≤ position

namespace Scheduled

variable {state later : EngineState} {position bound : Nat}

theorem initial (partitionId bound : Nat) : Scheduled (.initial partitionId) bound where
  indexed := TimerAgenda.indexed_empty
  issued := fun timer ht => by cases ht
  created := fun timer ht => by cases ht

theorem reschedule (h : Scheduled state bound) (hnew : Reschedules position state later)
    (hle : position ≤ bound) : Scheduled later bound := by
  refine ⟨hnew.indexed h.indexed, ?_, ?_⟩
  · intro timer ht
    rcases hnew.timers timer ht with hold | ⟨-, counter, hlt, hcounter, hkey⟩
    · exact hnew.toGrows.issued (h.issued timer hold)
    · refine ⟨counter, Nat.zero_lt_of_lt hlt, hcounter, ?_⟩
      rw [hnew.partitionId]
      exact hkey
  · intro timer ht
    rcases hnew.timers timer ht with hold | ⟨hplace, -⟩
    · exact h.created timer hold
    · rw [hplace]
      exact hle

/-- **Commands keep the pending timers in order**, up to the position of the last one. -/
theorem after (commands : List Record) :
    ∀ processor : Processor, processor.registry = .builtin → Scheduled processor.state bound →
      (∀ command ∈ commands, command.position ≤ bound) →
      Scheduled (processor.after commands).state bound := by
  induction commands with
  | nil => intro processor _ h _; exact h
  | cons command rest ih =>
      intro processor hbuiltin h hle
      refine ih (processor.apply command).2 hbuiltin ?_
        fun other ho => hle other (List.mem_cons_of_mem _ ho)
      exact h.reschedule (Processor.reschedules_apply hbuiltin command)
        (hle command List.mem_cons_self)

end Scheduled

end Workflow
