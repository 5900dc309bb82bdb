/-
The order of instants, and what adding a duration does to it.

A sum stays inside a leap second or counts from the end of it (`Instant.shift_cases`), and it is on
the calendar or is the latest instant (`Instant.add_cases`).  All else follows from these two:
additions add up (`Instant.add_add`), since leaving a leap second in the first one or in a later
one comes to the same, and so does running into the end of the calendar; up to that end no sum is
earlier than the instant that it starts from, and a sum of more is not earlier than a sum of less.
Only in the leap second after the latest instant is there a sum that is (`Instant.le_add_iff`).
-/
import Workflow.Time.Instant

namespace Workflow

namespace Instant

/-! ### The order -/

section Order

variable {a b c : Instant}

theorem le_refl (a : Instant) : a ≤ a := by
  rw [le_iff]
  omega

theorem le_trans (hab : a ≤ b) (hbc : b ≤ c) : a ≤ c := by
  rw [le_iff] at *
  omega

theorem lt_of_lt_of_le (hab : a < b) (hbc : b ≤ c) : a < c := by
  rw [lt_iff, le_iff] at *
  omega

theorem lt_of_le_of_lt (hab : a ≤ b) (hbc : b < c) : a < c := by
  rw [lt_iff, le_iff] at *
  omega

theorem le_of_lt (h : a < b) : a ≤ b := (not_lt _ _).mp (StrictOrder.asymm h)

theorem min_le_left (a b : Instant) : min a b ≤ a := by
  show (if a ≤ b then a else b) ≤ a
  by_cases h : a ≤ b
  · rw [if_pos h]
    exact le_refl a
  · rw [if_neg h]
    exact le_of_lt ((not_le _ _).mp h)

theorem min_le_right (a b : Instant) : min a b ≤ b := by
  show (if a ≤ b then a else b) ≤ b
  by_cases h : a ≤ b
  · rw [if_pos h]
    exact h
  · rw [if_neg h]
    exact le_refl b

theorem le_min (hb : a ≤ b) (hc : a ≤ c) : a ≤ min b c := by
  show a ≤ if b ≤ c then b else c
  by_cases h : b ≤ c
  · rw [if_pos h]
    exact hb
  · rw [if_neg h]
    exact hc

theorem le_max_right (a b : Instant) : b ≤ max a b := by
  show b ≤ if a ≤ b then b else a
  by_cases h : a ≤ b
  · rw [if_pos h]
    exact le_refl b
  · rw [if_neg h]
    exact le_of_lt ((not_le _ _).mp h)

end Order

variable {i j : Instant} {a b d : Duration}

/-! ### Two cases -/

/-- A sum stays inside a leap second, or it counts from the end of it. -/
theorem shift_cases (i : Instant) (d : Duration) :
    (1000000000 ≤ i.nanos ∧ i.nanos + d.nanos < 2000000000 ∧
        (i.shift d).1 = i.seconds ∧ (i.shift d).2 = i.nanos + d.nanos) ∨
      (¬ (1000000000 ≤ i.nanos ∧ i.nanos + d.nanos < 2000000000) ∧
        (i.shift d).1 = i.seconds + ((i.nanos % 1000000000 + d.nanos) / 1000000000 : Nat) ∧
        (i.shift d).2 = (i.nanos % 1000000000 + d.nanos) % 1000000000) := by
  unfold shift
  unfold Duration.nanosPerSecond
  dsimp only
  split
  · exact .inl (by dsimp only; omega)
  · exact .inr (by dsimp only; omega)

/-- A sum is the shifted instant, or the latest one when the calendar ends before it. -/
theorem add_cases (i : Instant) (d : Duration) :
    (Calendar.lastSecond < (i.shift d).1 ∧ i.add d = latest) ∨
      ((i.shift d).1 ≤ Calendar.lastSecond ∧ (i.add d).seconds = (i.shift d).1 ∧
        (i.add d).nanos = (i.shift d).2) := by
  have hfirst := i.first_le
  have hnanos := i.nanos_lt
  have hleap := i.leap_last
  have hshift := i.shift_cases d
  unfold Duration.nanosPerSecond at hnanos hleap
  by_cases hin : (i.shift d).1 ≤ Calendar.lastSecond
  · -- The longest shift is longer than the calendar.
    have hshort : ¬ longestShift < d.nanos := by
      have hlong : 20000000000000 * 1000000000 < longestShift := by decide
      unfold Calendar.firstSecond at hfirst
      unfold Calendar.lastSecond at hin
      omega
    have hparts : Calendar.firstSecond ≤ (i.shift d).1 ∧ (i.shift d).1 ≤ Calendar.lastSecond ∧
        (i.shift d).2 < 2 * Duration.nanosPerSecond ∧
        (Duration.nanosPerSecond ≤ (i.shift d).2 → (i.shift d).1 % 60 = 59) := by
      unfold Duration.nanosPerSecond
      omega
    refine .inr ⟨hin, ?_⟩
    unfold add ofParts?
    rw [if_neg hshort, dif_pos hparts]
    exact ⟨rfl, rfl⟩
  · refine .inl ⟨Int.not_le.mp hin, ?_⟩
    unfold add ofParts?
    by_cases hlong : longestShift < d.nanos
    · rw [if_pos hlong]
    · rw [if_neg hlong, dif_neg fun hparts => hin hparts.2.1]
      rfl

/-! ### Additions add up -/

/-- From an instant that was shifted there is as far to go as from the first one. -/
theorem shift_shift (hseconds : j.seconds = (i.shift a).1) (hnanos : j.nanos = (i.shift a).2) :
    j.shift b = i.shift ⟨a.nanos + b.nanos⟩ := by
  have hsecond := j.shift_cases b
  have hboth := i.shift_cases ⟨a.nanos + b.nanos⟩
  have hi := i.nanos_lt
  unfold Duration.nanosPerSecond at hi
  dsimp only at hboth
  rcases i.shift_cases a with ⟨hleap, hstays, hfirst⟩ | ⟨hleaves, hfirst⟩
  · -- Inside the leap second the nanoseconds add up.
    apply Prod.ext <;> omega
  · -- Outside of it they do not, and what is carried over is carried over once.
    have hj : j.nanos < 1000000000 := by omega
    have hsecond := hsecond.resolve_left fun h => Nat.not_le.mpr hj h.1
    have hboth := hboth.resolve_left fun h =>
      hleaves ⟨h.1, Nat.lt_of_le_of_lt (Nat.add_le_add_left (Nat.le_add_right _ _) _) h.2.1⟩
    apply Prod.ext <;> omega

theorem shift_mono (hle : a.nanos ≤ b.nanos) : (i.shift a).1 ≤ (i.shift b).1 := by
  have hfirst := i.shift_cases a
  have hsecond := i.shift_cases b
  omega

/-- Nothing is added, and the instant stays. -/
theorem add_zero (i : Instant) : i.add ⟨0⟩ = i := by
  have hlast := i.le_last
  have hnanos := i.nanos_lt
  have hshift := i.shift_cases ⟨0⟩
  unfold Duration.nanosPerSecond at hnanos
  dsimp only at hshift
  rcases i.add_cases ⟨0⟩ with ⟨hlate, -⟩ | ⟨-, hseconds, hnanos'⟩
  · omega
  · rw [ext_iff, hseconds, hnanos']
    omega

/-- After the latest instant there is no other. -/
theorem latest_add (d : Duration) : latest.add d = latest := by
  rcases latest.add_cases d with ⟨-, heq⟩ | ⟨hin, hseconds, hnanos⟩
  · exact heq
  · have hshift := latest.shift_cases d
    rw [ext_iff, hseconds, hnanos]
    unfold latest at hin hshift ⊢
    dsimp only at hin hshift ⊢
    omega

/-- **Additions add up.** -/
theorem add_add (i : Instant) (a b : Duration) : (i.add a).add b = i.add ⟨a.nanos + b.nanos⟩ := by
  rcases i.add_cases a with ⟨hlate, heq⟩ | ⟨-, hseconds, hnanos⟩
  · rw [heq, latest_add]
    rcases i.add_cases ⟨a.nanos + b.nanos⟩ with ⟨-, heq'⟩ | ⟨hin, -⟩
    · exact heq'.symm
    · exact absurd (Int.le_trans (shift_mono (Nat.le_add_right _ _)) hin) (Int.not_le.mpr hlate)
  · have hshift := shift_shift (b := b) hseconds hnanos
    rcases (i.add a).add_cases b with ⟨hlate, heq⟩ | ⟨hin, hseconds', hnanos'⟩ <;>
      rcases i.add_cases ⟨a.nanos + b.nanos⟩ with ⟨hlate', heq'⟩ | ⟨hin', hseconds'', hnanos''⟩
    · rw [heq, heq']
    · rw [hshift] at hlate
      exact absurd hin' (Int.not_le.mpr hlate)
    · rw [hshift] at hin
      exact absurd hin (Int.not_le.mpr hlate')
    · rw [ext_iff, hseconds', hnanos', hseconds'', hnanos'', hshift]
      exact ⟨rfl, rfl⟩

/-! ### No sum is earlier -/

/-- An instant in the leap second after the latest instant, that many nanoseconds into it. -/
def overtime (nanos : Nat) : Instant where
  seconds := latest.seconds
  nanos := 1000000000 + nanos % 1000000000
  first_le := latest.first_le
  le_last := latest.le_last
  nanos_lt := by
    have hlt : nanos % 1000000000 < 1000000000 := Nat.mod_lt nanos (by decide)
    unfold Duration.nanosPerSecond
    omega
  leap_last := fun _ => by decide

/-- A duration later is no earlier, if the calendar had no end. -/
theorem le_shift (i : Instant) (d : Duration) :
    i.seconds < (i.shift d).1 ∨ (i.seconds = (i.shift d).1 ∧ i.nanos ≤ (i.shift d).2) := by
  have hshift := i.shift_cases d
  have hnanos := i.nanos_lt
  unfold Duration.nanosPerSecond at hnanos
  omega

/-- Up to the end of the calendar, adding a duration to a later instant does not lead back. -/
theorem le_add_of_le (hi : i ≤ latest) (h : i ≤ j) (d : Duration) : i ≤ j.add d := by
  rcases j.add_cases d with ⟨-, heq⟩ | ⟨-, hseconds, hnanos⟩
  · rw [heq]
    exact hi
  · have hshift := j.le_shift d
    rw [le_iff] at h ⊢
    rw [hseconds, hnanos]
    omega

/-- Before the end of the calendar, adding a duration to a later instant gives a later one. -/
theorem lt_add_of_lt (hi : i < latest) (h : i < j) (d : Duration) : i < j.add d := by
  rcases j.add_cases d with ⟨-, heq⟩ | ⟨-, hseconds, hnanos⟩
  · rw [heq]
    exact hi
  · have hshift := j.le_shift d
    rw [lt_iff] at h ⊢
    rw [hseconds, hnanos]
    omega

/-- Up to the end of the calendar, adding a duration does not lead back. -/
theorem le_add (h : i ≤ latest) (d : Duration) : i ≤ i.add d := le_add_of_le h (le_refl i) d

/-- **Adding a duration leads back** only from the leap second after the latest instant, and from
there whenever the sum leaves it. -/
theorem le_add_iff (i : Instant) (d : Duration) :
    i ≤ i.add d ↔ i ≤ latest ∨ i.nanos + d.nanos < 2000000000 := by
  have hlast := i.le_last
  have hlt := i.nanos_lt
  unfold Duration.nanosPerSecond at hlt
  have hshift := i.shift_cases d
  by_cases h : i ≤ latest
  · exact iff_of_true (le_add h d) (.inl h)
  · -- The instant is in the last second, so a sum that leaves that second is on no day.
    have hlate := (not_le i latest).mp h
    rw [lt_iff] at hlate
    unfold latest at hlate
    dsimp only at hlate
    rw [or_iff_right h]
    rcases i.add_cases d with ⟨hout, heq⟩ | ⟨hin, hseconds, hnanos⟩
    · refine iff_of_false (by rw [heq]; exact h) ?_
      omega
    · refine iff_of_true ?_ (by omega)
      rw [le_iff, hseconds, hnanos]
      omega

/-- **A duration that is not zero leads to a later instant**, up to the end of the calendar. -/
theorem lt_add (h : i < latest) (hd : d.isZero = false) : i < i.add d := by
  have hpos : d.nanos ≠ 0 := by simpa [Duration.isZero] using hd
  rcases i.add_cases d with ⟨-, heq⟩ | ⟨-, hseconds, hnanos⟩
  · rw [heq]
    exact h
  · have hshift := i.shift_cases d
    have hlt := i.nanos_lt
    unfold Duration.nanosPerSecond at hlt
    rw [lt_iff, hseconds, hnanos]
    omega

/-- No sum is after the latest instant, if the instant is not. -/
theorem add_le_latest (h : i ≤ latest) (d : Duration) : i.add d ≤ latest := by
  rcases i.add_cases d with ⟨-, heq⟩ | ⟨hin, hseconds, hnanos⟩
  · rw [heq]
    exact le_refl latest
  · have hshift := i.shift_cases d
    rw [le_iff] at h ⊢
    rw [hseconds, hnanos]
    unfold latest at h ⊢
    dsimp only at h ⊢
    omega

/-- Adding more does not lead to an earlier instant. -/
theorem add_mono (h : i ≤ latest) (hle : a.nanos ≤ b.nanos) : i.add a ≤ i.add b := by
  have hsplit : (i.add a).add ⟨b.nanos - a.nanos⟩ = i.add b := by
    rw [add_add, Nat.add_sub_cancel' hle]
  rw [← hsplit]
  exact le_add (add_le_latest h a) _

/-! ### The sum in nanoseconds -/

/-- The nanoseconds since 1970-01-01T00:00:00Z, where a leap second goes on with those of the
second before it. -/
def count (i : Instant) : Int := i.seconds * 1000000000 + i.nanos

/-- **A sum is exact up to the end of the calendar.**  If it leaves a leap second, then the leap
second is not counted. -/
theorem count_add (h : i ≤ latest) (d : Duration) :
    (i.add d).count =
      min ((if 1000000000 ≤ i.nanos ∧ 2000000000 ≤ i.nanos + d.nanos then i.count - 1000000000
        else i.count) + d.nanos) latest.count := by
  have hnanos := i.nanos_lt
  unfold Duration.nanosPerSecond at hnanos
  have hshift := i.shift_cases d
  rw [le_iff] at h
  rcases i.add_cases d with ⟨hlate, heq⟩ | ⟨hin, hseconds', hnanos'⟩
  · rw [heq]
    unfold count latest at *
    dsimp only at *
    split <;> omega
  · unfold count
    rw [hseconds', hnanos']
    unfold latest at *
    dsimp only at *
    split <;> omega

end Instant

end Workflow
