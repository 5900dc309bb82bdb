/-
What calls leave on the agenda, which timers are due then, and which of them fire.

`TimerCall` is a call that adds a timer or removes one.  A key may be taken again, with another due
date.  Every call keeps the index right (`Indexed.after`), and under a key there is what the last
call about it put there (`get?_afterCalls`).

The firing batch is the longest front part of the due timers that is in turn
(`firingBatch_longest`).  That it is in turn keeps a timer from firing before a successor that is
due earlier and does not exist yet; that it is the longest keeps timers from waiting without need,
and the first one never waits.
-/
import Mathlib.Data.List.Induction
import Mathlib.Data.List.Nodup
import Workflow.Proofs.Timer.Batch

namespace Workflow

/-! ### Calls -/

/-- A call that changes which timers are pending. -/
inductive TimerCall where
  /-- A timer is added, in place of the one with its key. -/
  | schedule (timer : Timer)
  /-- The timer with a key is removed, if there is one. -/
  | remove (key : Nat)

namespace TimerCall

/-- The agenda after a call. -/
def after (agenda : TimerAgenda) : TimerCall → TimerAgenda
  | .schedule timer => agenda.schedule timer
  | .remove key => agenda.erase key

/-- The key that a call is about. -/
def key : TimerCall → Nat
  | .schedule timer => timer.key
  | .remove key => key

/-- The timer that is under that key after the call. -/
def timer? : TimerCall → Option Timer
  | .schedule timer => some timer
  | .remove _ => none

theorem get?_after (agenda : TimerAgenda) (call : TimerCall) (key : Nat) :
    (call.after agenda).get? key = if key = call.key then call.timer? else agenda.get? key := by
  cases call with
  | schedule timer => exact TimerAgenda.get?_schedule agenda timer key
  | remove erased => exact TimerAgenda.get?_erase agenda erased key

/-- What the last one of the calls about a key put under it. -/
def lastScheduled? (calls : List TimerCall) (key : Nat) : Option Timer :=
  (calls.reverse.find? fun call => call.key == key).bind timer?

theorem lastScheduled?_concat (calls : List TimerCall) (call : TimerCall) (key : Nat) :
    lastScheduled? (calls ++ [call]) key =
      if key = call.key then call.timer? else lastScheduled? calls key := by
  unfold lastScheduled?
  rw [List.reverse_concat]
  by_cases hkey : key = call.key
  · rw [if_pos hkey, List.find?_cons_of_pos (by simpa using hkey.symm)]
    rfl
  · rw [if_neg hkey, List.find?_cons_of_neg (by simpa using Ne.symm hkey)]

end TimerCall

namespace TimerAgenda

variable {agenda : TimerAgenda} {now : Instant}

theorem Indexed.after (h : agenda.Indexed) (call : TimerCall) : (call.after agenda).Indexed := by
  cases call with
  | schedule timer => exact h.schedule timer
  | remove key => exact h.erase key

/-- The agenda after calls one after the other. -/
def afterCalls (agenda : TimerAgenda) (calls : List TimerCall) : TimerAgenda :=
  calls.foldl TimerCall.after agenda

/-- Calls keep the index right. -/
theorem Indexed.afterCalls (calls : List TimerCall) :
    ∀ agenda : TimerAgenda, agenda.Indexed → (agenda.afterCalls calls).Indexed := by
  induction calls with
  | nil => intro agenda h; exact h
  | cons call rest ih => intro agenda h; exact ih (call.after agenda) (h.after call)

/-- Under a key there is what the last call about it put there. -/
theorem get?_afterCalls (calls : List TimerCall) (key : Nat) :
    (empty.afterCalls calls).get? key = TimerCall.lastScheduled? calls key := by
  -- The last call decides, so the induction takes calls off the end.
  induction calls using List.reverseRecOn with
  | nil => rfl
  | append_singleton calls call ih =>
      rw [afterCalls, List.foldl_concat, ← afterCalls, TimerCall.get?_after, ih,
        TimerCall.lastScheduled?_concat]

/-! ### The due timers -/

/-- A pending timer that is due is listed once. -/
theorem Indexed.count_dueTimers (h : agenda.Indexed) {key : Nat} {timer : Timer}
    (hget : agenda.get? key = some timer) (hdue : timer.dueDate ≤ now) :
    (agenda.dueTimers now).count timer = 1 := by
  have hnodup : (agenda.dueTimers now).Nodup := by
    refine (h.dueTimers_ascending now).imp fun {a b} hlt => ?_
    rintro rfl
    exact StrictOrder.irrefl a.slot hlt
  obtain rfl : timer.key = key := h.key_eq key timer hget
  exact List.count_eq_one_of_mem hnodup (h.mem_dueTimers_iff.mpr ⟨hget, hdue⟩)

/-! ### The longest front part in turn -/

/-- A part is the longest of the front parts of a list that have a property. -/
structure LongestFront {α : Type} (holds : List α → Prop) (list part : List α) : Prop where
  /-- It is a front part of the list. -/
  front : part <+: list
  /-- It has the property. -/
  holds_part : holds part
  /-- No front part that has the property is longer. -/
  longest : ∀ other, other <+: list → holds other → other.length ≤ part.length

/-- The firing batch goes as far as the due timers are in turn. -/
theorem Indexed.firingBatch_longest (h : agenda.Indexed) (now : Instant) :
    LongestFront InTurn (agenda.dueTimers now) (agenda.firingBatch now) := by
  obtain ⟨hfront, hsafe⟩ := front_firingRun_iff.mp (List.prefix_refl (agenda.firingBatch now))
  refine ⟨hfront, (safe_iff.mp hsafe).2, fun other hother hturn => ?_⟩
  have hdue : ∀ timer ∈ other, timer.dueDate ≤ now := fun timer ht =>
    (h.mem_dueTimers_iff.mp (hother.subset ht)).2
  exact (front_firingRun_iff.mpr ⟨hother, safe_iff.mpr ⟨hdue, hturn⟩⟩).length_le

/-- **Whatever calls were made, the index holds the slots of the stored timers, each timer that is
due is listed once and in order, and the firing batch goes as far as these are in turn.**  What is
stored is what the last call about each key put there, and when no timer fires none is due. -/
theorem calls_keep_turn (calls : List TimerCall) (now : Instant) :
    let agenda := empty.afterCalls calls
    (∀ key, agenda.get? key = TimerCall.lastScheduled? calls key) ∧
    (∀ slot, slot ∈ agenda.slots ↔
      ∃ key timer, agenda.get? key = some timer ∧ timer.slot = slot) ∧
    (∀ key timer, agenda.get? key = some timer → timer.dueDate ≤ now →
      (agenda.dueTimers now).count timer = 1) ∧
    (∀ timer ∈ agenda.dueTimers now,
      agenda.get? timer.key = some timer ∧ timer.dueDate ≤ now) ∧
    (agenda.dueTimers now).Pairwise (fun a b => a.slot < b.slot) ∧
    LongestFront InTurn (agenda.dueTimers now) (agenda.firingBatch now) ∧
    (agenda.firingBatch now = [] →
      ∀ key timer, agenda.get? key = some timer → ¬ timer.dueDate ≤ now) := by
  intro agenda
  have h : agenda.Indexed := Indexed.afterCalls calls empty indexed_empty
  refine ⟨get?_afterCalls calls, fun slot => ⟨?_, ?_⟩, fun key timer => h.count_dueTimers,
    fun timer => h.mem_dueTimers_iff.mp, h.dueTimers_ascending now, h.firingBatch_longest now, ?_⟩
  · intro hslot
    obtain ⟨timer, hget, heq⟩ := (h.mem_slots slot).mp hslot
    exact ⟨slot.key, timer, hget, heq⟩
  · rintro ⟨key, timer, hget, rfl⟩
    obtain rfl : timer.key = key := h.key_eq key timer hget
    exact (h.mem_slots timer.slot).mpr ⟨timer, hget, rfl⟩
  · intro hbatch key timer hget
    obtain rfl : timer.key = key := h.key_eq key timer hget
    exact h.not_due_of_batch_nil hbatch timer (h.mem_inOrder.mpr hget)

/-- A timer that is due so many nanoseconds after the epoch. -/
def startTimerAt (key due creationPosition : Nat) (repetition : Repetition)
    (period : Option Duration) : Timer :=
  { key, dueDate := Instant.epoch.add ⟨due⟩, repetition, period, targetElementId := "start",
    definitionKey := some 1, instanceKey := none, elementInstanceKey := none, creationPosition }

/-- A timer that repeats every two nanoseconds, first after one. -/
def everyOther : Timer := startTimerAt 1 1 5 .infinite (some ⟨2⟩)

/-- Calls after which a timer waits for the successor of one that has taken over a key. -/
def heldBackCalls : List TimerCall :=
  [.schedule (startTimerAt 1 9 1 .once none), .schedule (startTimerAt 4 3 4 .once none),
    .schedule (startTimerAt 2 3 2 .once none), .schedule (startTimerAt 5 2 3 .once none),
    .schedule (startTimerAt 3 4 3 (.finite 2) (some ⟨1⟩)), .schedule everyOther, .remove 5,
    .remove 6]

/-- Two timers are due together with the successor, and fire before it; the last one waits. -/
theorem calls_keep_turn_heldBack :
    let agenda := empty.afterCalls heldBackCalls
    let now := Instant.epoch.add ⟨10⟩
    agenda.slots.toList.map TimerSlot.key = [1, 2, 4, 3] ∧
      agenda.get? 1 = some everyOther ∧ everyOther.dueDate ≤ now ∧
      (agenda.dueTimers now).count everyOther = 1 ∧
      (agenda.firingBatch now).map Timer.key = [1, 2, 4] ∧
      ¬ InTurn (agenda.dueTimers now) ∧
      agenda.firingBatch .epoch = [] ∧ ¬ everyOther.dueDate ≤ .epoch := by
  intro agenda now
  obtain ⟨-, -, hcount, -, -, hlongest, -⟩ := calls_keep_turn heldBackCalls now
  obtain ⟨-, -, -, -, -, -, hnone⟩ := calls_keep_turn heldBackCalls .epoch
  have hget : agenda.get? 1 = some everyOther := by decide +kernel
  have hdue : everyOther.dueDate ≤ now := by decide +kernel
  have hbatch : agenda.firingBatch .epoch = [] := by decide +kernel
  refine ⟨by decide +kernel, hget, hdue, hcount 1 everyOther hget hdue, by decide +kernel, ?_,
    hbatch, hnone hbatch 1 everyOther hget⟩
  intro hturn
  have hlength := hlongest.longest (agenda.dueTimers now) (List.prefix_refl _) hturn
  exact absurd hlength (by decide +kernel)

end TimerAgenda

end Workflow
