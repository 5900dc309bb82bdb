/-
The day with a number has that number.

Counted from March, an era is made of centuries, a century of spans of four years, and a span of
years that end with their leap day, if they have one.  So a day of an era is at one place among
them (`EraDay`), and the closed form by which the year is found from the day is the year of that
place.  Within a year the month is found from the day in the same way, because from March on the
lengths of the months repeat.
-/
import Mathlib.Tactic.IntervalCases
import Workflow.Time.Calendar

namespace Workflow.Calendar

/-! ### Years -/

/-- The place of a day in its era: so many centuries, spans of four years, years, and days before
it.  Only the last year of a span has a leap day, and not in the last span of a century, unless
the century is the last of the era. -/
structure EraDay (day century span year dayOfYear : Int) : Prop where
  sum : day = 36524 * century + 1461 * span + 365 * year + dayOfYear
  century_nonneg : 0 ≤ century
  century_le : century ≤ 3
  span_nonneg : 0 ≤ span
  span_le : span ≤ 24
  year_nonneg : 0 ≤ year
  year_le : year ≤ 3
  dayOfYear_nonneg : 0 ≤ dayOfYear
  dayOfYear_le : dayOfYear ≤ 365
  leap : dayOfYear = 365 → year = 3 ∧ (span ≤ 23 ∨ century = 3)

/-- Every day of an era has a place. -/
theorem exists_eraDay {day : Int} (hpos : 0 ≤ day) (hlt : day < 146097) :
    ∃ century span year dayOfYear, EraDay day century span year dayOfYear := by
  by_cases hlast : day = 146096
  · exact ⟨3, 24, 3, 365, by constructor <;> omega⟩
  by_cases hleap : day % 36524 % 1461 = 1460
  · exact ⟨day / 36524, day % 36524 / 1461, 3, 365, by constructor <;> omega⟩
  · exact ⟨day / 36524, day % 36524 / 1461, day % 36524 % 1461 / 365,
      day % 36524 % 1461 % 365, by constructor <;> omega⟩

/-- The year of an era in which a day is. -/
def yearOfEra (day : Int) : Int := (day - day / 1460 + day / 36524 - day / 146096) / 365

theorem EraDay.yearOfEra_eq {day century span year dayOfYear : Int}
    (h : EraDay day century span year dayOfYear) :
    yearOfEra day = 100 * century + 4 * span + year := by
  obtain ⟨hsum, _, _, _, _, _, _, _, _, hleap⟩ := h
  have hlast : day = 146096 ∧ century = 3 ∨
      day < 146096 ∧ 36524 * century ≤ day ∧ day < 36524 * century + 36524 := by omega
  have hcenturies : day / 36524 - day / 146096 = century := by
    rcases hlast with ⟨hday, hcentury⟩ | ⟨hbefore, hfrom, hto⟩ <;> omega
  have hyear : year = 0 ∨ year = 1 ∨ year = 2 ∨ year = 3 := by omega
  have hquads : day / 1460 = 25 * century + span ∨ day / 1460 = 25 * century + span + 1 := by omega
  unfold yearOfEra
  rcases hyear with rfl | rfl | rfl | rfl <;> omega

/-- Leap days are at the end of leap years. -/
theorem EraDay.isLeapYear {day century span year : Int} (h : EraDay day century span year 365)
    (era : Int) : isLeapYear (100 * century + 4 * span + year + era * 400 + 1) = true := by
  obtain ⟨hyear, hspan⟩ := h.leap rfl
  have hle := h.span_le
  have hnonneg := h.span_nonneg
  simp only [Calendar.isLeapYear, Bool.and_eq_true, Bool.or_eq_true, beq_iff_eq, bne_iff_ne]
  omega

/-- The days of the years before the year of a place. -/
theorem EraDay.dayOfYear_eq {day century span year dayOfYear : Int}
    (h : EraDay day century span year dayOfYear) :
    day - (365 * yearOfEra day + yearOfEra day / 4 - yearOfEra day / 100) = dayOfYear := by
  rw [h.yearOfEra_eq]
  obtain ⟨hsum, _, _, _, _, _, _, _, _, _⟩ := h
  omega

theorem EraDay.year_bounds {day century span year dayOfYear : Int}
    (h : EraDay day century span year dayOfYear) :
    0 ≤ 100 * century + 4 * span + year ∧ 100 * century + 4 * span + year < 400 := by
  obtain ⟨_, _, _, _, _, _, _, _, _, _⟩ := h
  omega

/-! ### Months -/

/-- The month of a day of the year, counted from March. -/
def monthFromMarch (dayOfYear : Int) : Nat := ((5 * dayOfYear + 2) / 153).toNat

/-- The month as people count it. -/
def monthOfYear (fromMarch : Nat) : Nat := if fromMarch < 10 then fromMarch + 3 else fromMarch - 9

/-- The first day of a month, counted from the first of March. -/
def firstOfMonth (fromMarch : Nat) : Int := (153 * fromMarch + 2) / 5

theorem monthFromMarch_spec {dayOfYear : Int} (hpos : 0 ≤ dayOfYear) (hle : dayOfYear ≤ 365) :
    monthFromMarch dayOfYear ≤ 11 ∧ firstOfMonth (monthFromMarch dayOfYear) ≤ dayOfYear ∧
      dayOfYear < firstOfMonth (monthFromMarch dayOfYear + 1) := by
  unfold firstOfMonth monthFromMarch
  omega

/-- January and February come last. -/
theorem monthOfYear_le_two {fromMarch : Nat} (hle : fromMarch ≤ 11) :
    monthOfYear fromMarch ≤ 2 ↔ ¬ fromMarch < 10 := by
  unfold monthOfYear
  split <;> omega

theorem monthOfYear_spec {fromMarch : Nat} (hle : fromMarch ≤ 11) :
    1 ≤ monthOfYear fromMarch ∧ monthOfYear fromMarch ≤ 12 ∧
      (monthOfYear fromMarch + 9) % 12 = fromMarch := by
  unfold monthOfYear
  split <;> omega

/-- The day with a number, by its place in an era. -/
theorem Date.ofDayNumber_eq {n century span year dayOfYear : Int}
    (h : EraDay ((n + 719468) % 146097) century span year dayOfYear) :
    Date.ofDayNumber n =
      let counted := 100 * century + 4 * span + year + (n + 719468) / 146097 * 400
      let fromMarch := monthFromMarch dayOfYear
      ⟨if fromMarch < 10 then counted else counted + 1, monthOfYear fromMarch,
        (dayOfYear - firstOfMonth fromMarch + 1).toNat⟩ := by
  have hyear := h.yearOfEra_eq
  have hday := h.dayOfYear_eq
  rw [hyear] at hday
  unfold yearOfEra at hyear
  have hmonth := monthOfYear_le_two (monthFromMarch_spec h.dayOfYear_nonneg h.dayOfYear_le).1
  unfold monthOfYear at hmonth
  unfold monthFromMarch at hmonth ⊢
  simp only [Date.ofDayNumber, hyear, hday, hmonth, ite_not]
  rfl

/-- The year in which a year from March begins. -/
theorem yearFromMarch_eq {fromMarch : Nat} (hle : fromMarch ≤ 11) (counted : Int) :
    (if monthOfYear fromMarch ≤ 2 then (if fromMarch < 10 then counted else counted + 1) - 1
      else if fromMarch < 10 then counted else counted + 1) = counted := by
  have hlate := monthOfYear_le_two hle
  by_cases hearly : fromMarch < 10
  · rw [if_neg (by rw [hlate]; exact not_not_intro hearly), if_pos hearly]
  · rw [if_pos (hlate.mpr hearly), if_neg hearly, Int.add_sub_cancel]

/-- **The day with a number has that number.** -/
theorem Date.dayNumber_ofDayNumber (n : Int) : (Date.ofDayNumber n).dayNumber = n := by
  obtain ⟨century, span, year, dayOfYear, h⟩ :=
    exists_eraDay (Int.emod_nonneg (n + 719468) (by decide)) (Int.emod_lt_of_pos _ (by decide))
  obtain ⟨hle, hfirst, -⟩ := monthFromMarch_spec h.dayOfYear_nonneg h.dayOfYear_le
  rw [Date.ofDayNumber_eq h]
  generalize monthFromMarch dayOfYear = fromMarch at hle hfirst ⊢
  have hday : (((dayOfYear - firstOfMonth fromMarch + 1).toNat : Nat) : Int) =
      dayOfYear - firstOfMonth fromMarch + 1 := by omega
  have hmonth : ((monthOfYear fromMarch : Int) + 9) % 12 = fromMarch := by
    have := (monthOfYear_spec hle).2.2
    omega
  have hyear := h.year_bounds
  have hera : (100 * century + 4 * span + year + (n + 719468) / 146097 * 400) / 400 =
      (n + 719468) / 146097 := by omega
  have hyearOfEra : (100 * century + 4 * span + year + (n + 719468) / 146097 * 400) % 400 =
      100 * century + 4 * span + year := by omega
  have hcount := h.dayOfYear_eq
  rw [h.yearOfEra_eq] at hcount
  simp only [Date.dayNumber, yearFromMarch_eq hle, hday, hmonth, hera, hyearOfEra]
  unfold firstOfMonth
  omega

/-- From March to January each month is as long as its days from the first of March say. -/
theorem daysInMonth_monthOfYear (year : Int) {fromMarch : Nat} (hlt : fromMarch < 11) :
    (daysInMonth year (monthOfYear fromMarch) : Int) =
      firstOfMonth (fromMarch + 1) - firstOfMonth fromMarch := by
  interval_cases fromMarch <;> rfl

/-- **The day with a number is a day of the calendar.** -/
theorem Date.isValid_ofDayNumber (n : Int) : (Date.ofDayNumber n).isValid = true := by
  obtain ⟨century, span, year, dayOfYear, h⟩ :=
    exists_eraDay (Int.emod_nonneg (n + 719468) (by decide)) (Int.emod_lt_of_pos _ (by decide))
  obtain ⟨hle, hfirst, hlast⟩ := monthFromMarch_spec h.dayOfYear_nonneg h.dayOfYear_le
  obtain ⟨hone, htwelve, -⟩ := monthOfYear_spec hle
  rw [Date.ofDayNumber_eq h]
  generalize monthFromMarch dayOfYear = fromMarch at hle hfirst hlast hone htwelve ⊢
  have hdays : dayOfYear - firstOfMonth fromMarch + 1 ≤
      daysInMonth (if fromMarch < 10 then
          100 * century + 4 * span + year + (n + 719468) / 146097 * 400
        else 100 * century + 4 * span + year + (n + 719468) / 146097 * 400 + 1)
        (monthOfYear fromMarch) := by
    by_cases hbefore : fromMarch < 11
    · rw [daysInMonth_monthOfYear _ hbefore]
      omega
    · -- February has a day more in the years that have a leap day.
      obtain rfl : fromMarch = 11 := by omega
      have hle := h.dayOfYear_le
      have hdays : ∀ year, daysInMonth year (monthOfYear 11) = if isLeapYear year then 29 else 28 :=
        fun year => rfl
      rw [if_neg (by decide), hdays]
      by_cases hleap : dayOfYear = 365
      · subst hleap
        rw [if_pos (h.isLeapYear _)]
        decide
      · have hshort : dayOfYear - firstOfMonth 11 + 1 ≤ 28 := by
          unfold firstOfMonth
          omega
        split <;> omega
  simp only [Date.isValid, Bool.and_eq_true, decide_eq_true_eq]
  omega

end Workflow.Calendar
