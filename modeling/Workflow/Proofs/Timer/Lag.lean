/-
How far the pending timers lag behind the clock.

The lag of a timer counts the instants from its due date to the present; a timer that is not due
has none.  When a timer that is due fires, its successor lags less, because it is due later.  So
firing lowers the sum over all pending timers (`EngineState.lag_fired_lt`), and that is what limits
how often timers fire while the clock stands still.

At the end of the calendar due dates cannot grow, so this is about clocks that show an earlier time.
-/
import Workflow.Proofs.Timer.Progress

namespace Workflow

/-! ### Sums over a map -/

namespace SortedMap

variable {κ α : Type} [LT κ] [DecidableEq κ]

/-- The sum of a weight over the values. -/
def total (weight : α → Nat) (m : SortedMap κ α) : Nat := (m.values.map weight).sum

/-- Removing an entry takes its weight away. -/
theorem total_erase [StrictOrder κ] (weight : α → Nat) {m : SortedMap κ α} {key : κ} {value : α}
    (h : m.get? key = some value) :
    total weight (m.erase key) + weight value = total weight m := by
  obtain ⟨entries, hascending⟩ := m
  simp only [get?, total, values, erase, List.map_map] at h ⊢
  induction entries with
  | nil => cases h
  | cons entry rest ih =>
      obtain ⟨hfirst, hrest⟩ := List.pairwise_cons.mp hascending
      unfold lookup at h
      by_cases hkey : entry.1 = key
      · rw [if_pos hkey] at h
        cases h
        -- The keys after it are greater, so nothing else is removed.
        have hothers : rest.filter (fun other => decide (other.1 ≠ key)) = rest := by
          refine List.filter_eq_self.mpr fun other ho => decide_eq_true ?_
          rw [← hkey]
          exact Ne.symm (StrictOrder.ne_of_lt (hfirst other ho))
        rw [List.filter_cons_of_neg (by simpa using hkey), hothers, List.map_cons, List.sum_cons]
        exact Nat.add_comm _ _
      · rw [if_neg hkey] at h
        have hsum := ih hrest h
        rw [List.filter_cons_of_pos (by simpa using hkey), List.map_cons, List.map_cons,
          List.sum_cons, List.sum_cons, Nat.add_assoc, hsum]

/-- Adding an entry adds no more than its weight. -/
theorem total_insert_le [DecidableLT κ] [StrictOrder κ] (weight : α → Nat) (m : SortedMap κ α)
    (key : κ) (value : α) : total weight (m.insert key value) ≤ total weight m + weight value := by
  obtain ⟨entries, hascending⟩ := m
  simp only [total, values, insert, List.map_map]
  clear hascending
  induction entries with
  | nil => simp [place]
  | cons entry rest ih =>
      unfold place
      split
      · simp only [List.map_cons, List.sum_cons, Function.comp_apply]
        omega
      · split
        · simp only [List.map_cons, List.sum_cons, Function.comp_apply]
          omega
        · simp only [List.map_cons, List.sum_cons, Function.comp_apply]
          omega

end SortedMap

/-! ### The lag of a timer -/

namespace Instant

/-- The place of an instant among all instants, gaps included. -/
def rank (i : Instant) : Nat :=
  (i.seconds - Calendar.firstSecond).toNat * (2 * Duration.nanosPerSecond) + i.nanos

theorem rank_lt_rank {i j : Instant} (h : i < j) : i.rank < j.rank := by
  have hfirst := i.first_le
  have hnanos := i.nanos_lt
  unfold rank
  unfold Duration.nanosPerSecond at *
  rw [lt_iff] at h
  omega

theorem rank_le_rank {i j : Instant} (h : i ≤ j) : i.rank ≤ j.rank := by
  have hfirst := i.first_le
  have hnanos := i.nanos_lt
  unfold rank
  unfold Duration.nanosPerSecond at *
  rw [le_iff] at h
  omega

end Instant

/-- How many instants there are from the due date of a timer to the present. -/
def Timer.lag (now : Instant) (timer : Timer) : Nat := now.rank + 1 - timer.dueDate.rank

/-- How far the pending timers lag behind, in total. -/
def TimerAgenda.lag (now : Instant) (agenda : TimerAgenda) : Nat :=
  agenda.timers.total (Timer.lag now)

namespace Timer

variable {now : Instant} {timer next : Timer} {key position : Nat}

theorem lag_pos (h : timer.dueDate ≤ now) : 0 < timer.lag now := by
  have hle := Instant.rank_le_rank h
  unfold lag
  omega

theorem lag_of_not_due (h : now < timer.dueDate) : timer.lag now = 0 := by
  have hlt := Instant.rank_lt_rank h
  unfold lag
  omega

/-- The successor of a timer that is due lags less. -/
theorem lag_successor_lt (hnow : now < Instant.latest) (hdue : timer.dueDate ≤ now)
    (hadvances : timer.repetition.Advances timer.period)
    (hsuccessor : timer.successor? key position = some next) : next.lag now < timer.lag now := by
  have hrepeats : timer.repeats := by
    by_contra hnot
    cases (successor?_of_not_repeats hnot key position).symm.trans hsuccessor
  obtain ⟨dueDate, hdueDate, hlater⟩ := progresses_of_advances hadvances hrepeats
  obtain ⟨-, -, hsame, -⟩ := successor?_some hsuccessor
  cases hsame.symm.trans hdueDate
  rcases hlater with hlt | hend
  · have hrank := Instant.rank_lt_rank hlt
    have hle := Instant.rank_le_rank hdue
    unfold lag
    omega
  · exact absurd (Instant.le_trans hend hdue) ((Instant.not_le _ _).mpr hnow)

/-- The successor of a timer that is not due is not due either. -/
theorem lt_successor (hnow : now < Instant.latest) (hlate : now < timer.dueDate)
    (hsuccessor : timer.successor? key position = some next) : now < next.dueDate := by
  obtain ⟨-, -, -, period, hperiod⟩ := successor?_some hsuccessor
  rw [hperiod]
  exact Instant.lt_add_of_lt hnow hlate period

end Timer

namespace TimerAgenda

variable {agenda : TimerAgenda} {now : Instant} {timer : Timer}

theorem lag_erase (now : Instant) (h : agenda.get? timer.key = some timer) :
    (agenda.erase timer.key).lag now + timer.lag now = agenda.lag now := by
  unfold erase
  rw [h]
  exact SortedMap.total_erase (Timer.lag now) h

theorem lag_erase_le (agenda : TimerAgenda) (now : Instant) (key : Nat) :
    (agenda.erase key).lag now ≤ agenda.lag now := by
  unfold erase
  cases hget : agenda.get? key with
  | none => exact Nat.le_refl _
  | some found =>
      have hsum := SortedMap.total_erase (Timer.lag now) hget
      exact Nat.le_trans (Nat.le_add_right _ _) (Nat.le_of_eq hsum)

theorem lag_schedule_le (agenda : TimerAgenda) (now : Instant) (timer : Timer) :
    (agenda.schedule timer).lag now ≤ agenda.lag now + timer.lag now :=
  Nat.le_trans (SortedMap.total_insert_le (Timer.lag now) (agenda.erase timer.key).timers timer.key
    timer) (Nat.add_le_add_right (lag_erase_le agenda now timer.key) _)

theorem lag_fire_none (now : Instant) (h : agenda.get? timer.key = some timer) :
    (agenda.fire timer none).lag now + timer.lag now = agenda.lag now := lag_erase now h

/-- Firing takes the lag of the timer away and adds that of its successor. -/
theorem lag_fire_some_le (now : Instant) (h : agenda.get? timer.key = some timer) (next : Timer) :
    (agenda.fire timer (some next)).lag now + timer.lag now ≤ agenda.lag now + next.lag now := by
  have herased := lag_erase now h
  have hadded := lag_schedule_le (agenda.erase timer.key) now next
  show ((agenda.erase timer.key).schedule next).lag now + _ ≤ _
  omega

end TimerAgenda

namespace EngineState

variable {state : EngineState} {now : Instant} {timer : Timer}

/-- **Firing a timer that is due lowers the lag.** -/
theorem lag_fired_lt (hnow : now < Instant.latest) (hpending : state.Pending timer)
    (hdue : timer.dueDate ≤ now) (hadvances : timer.repetition.Advances timer.period)
    (position : Nat) : (state.fired timer position).timers.lag now < state.timers.lag now := by
  rw [fired_timers]
  cases hsuccessor : state.successorOf timer position with
  | none =>
      have hsum := TimerAgenda.lag_fire_none now hpending
      have hpos := Timer.lag_pos hdue
      omega
  | some next =>
      have hsum := TimerAgenda.lag_fire_some_le now hpending next
      have hless := Timer.lag_successor_lt hnow hdue hadvances hsuccessor
      omega

/-- Firing a timer that is not due leaves the lag alone. -/
theorem lag_fired_le (hnow : now < Instant.latest) (hpending : state.Pending timer)
    (hlate : now < timer.dueDate) (position : Nat) :
    (state.fired timer position).timers.lag now ≤ state.timers.lag now := by
  rw [fired_timers]
  cases hsuccessor : state.successorOf timer position with
  | none =>
      have hsum := TimerAgenda.lag_fire_none now hpending
      omega
  | some next =>
      have hsum := TimerAgenda.lag_fire_some_le now hpending next
      have hnone := Timer.lag_of_not_due (Timer.lt_successor hnow hlate hsuccessor)
      omega

/-- What is due after a timer fired that was not due was pending before. -/
theorem pending_of_fired_late (hnow : now < Instant.latest) (hlate : now < timer.dueDate)
    {position : Nat} {other : Timer} (hother : (state.fired timer position).Pending other)
    (hdue : other.dueDate ≤ now) : state.Pending other := by
  rcases pending_fired hother with hsuccessor | ⟨-, -, hold⟩
  · exact absurd hdue ((Instant.not_le _ _).mpr (Timer.lt_successor hnow hlate hsuccessor))
  · exact hold

end EngineState

end Workflow
