/-
Stored instants are read back.

The text of an instant is its components with separators between them.  Each step of the reader
takes one component and leaves what follows, so the steps are lemmas about a component in front of
any text that goes on as the text of an instant does.  What is read in the end are the components
that were written, and they make up the instant: its second is the day and the time of day, and the
sixtieth second of a minute is a leap second.
-/
import Workflow.Proofs.Text.Decimal
import Workflow.Proofs.Time.Calendar
import Workflow.Time.Rfc3339

namespace Workflow.Rfc3339

open Decimal

/-! ### Taking components -/

theorem isBlank_of_isDigit {c : Char} (h : c.isDigit = true) : isBlank c = false := by
  simp only [Char.isDigit, Bool.and_eq_true, decide_eq_true_eq] at h
  have hlow : 48 ≤ c.toNat := UInt32.le_iff_toNat_le.mp h.1
  have hhigh : c.toNat ≤ 57 := UInt32.le_iff_toNat_le.mp h.2
  simp only [isBlank]
  simp
  omega

/-- A numeral does not begin with a sign. -/
theorem padded_ne_sign {width n : Nat} {rest text : List Char} {c : Char}
    (hsign : c.isDigit = false) : padded width n ++ rest ≠ c :: text := by
  obtain ⟨first, digits, hpadded, hdigit⟩ := exists_padded_eq_cons width n
  rw [hpadded, List.cons_append]
  rintro ⟨⟩
  rw [hdigit] at hsign
  cases hsign

theorem trimBlankStart_padded (width n : Nat) (rest : List Char) :
    trimBlankStart (padded width n ++ rest) = padded width n ++ rest := by
  obtain ⟨first, digits, hpadded, hdigit⟩ := exists_padded_eq_cons width n
  rw [hpadded, List.cons_append, trimBlankStart, List.dropWhile_cons_of_neg]
  rw [isBlank_of_isDigit hdigit]
  decide

/-- A number of a width is taken, whatever follows. -/
theorem number?_padded {width n : Nat} (hpos : 0 < width) (hlt : n < 10 ^ width)
    (rest : List Char) : number? width (padded width n ++ rest) = some (n, rest) := by
  have hlength := length_padded hpos hlt
  have hdigits : ((padded width n ++ rest).take width).takeWhile Char.isDigit = padded width n := by
    rw [List.take_left' hlength]
    simpa using takeWhile_padded width n ends_nil
  unfold number?
  simp only [trimBlankStart_padded, hdigits, padded_ne_nil, if_false, value_padded]
  rw [List.drop_left]

/-- A year is taken up to the hyphen after it. -/
theorem year?_yearText (year : Int) (rest : List Char) :
    year? (yearText year ++ '-' :: rest) = some (year, '-' :: rest) := by
  have hsigned : ∀ n, year?.signed (padded 4 n ++ '-' :: rest) = some (n, '-' :: rest) := by
    intro n
    have hends : Ends ('-' :: rest) := ends_cons (by decide)
    simp only [year?.signed, takeWhile_padded 4 n hends, dropWhile_padded 4 n hends,
      padded_ne_nil, if_false, value_padded]
  unfold yearText
  by_cases hplain : 0 ≤ year ∧ year ≤ 9999
  · have hyear : ((year.toNat : Nat) : Int) = year := Int.toNat_of_nonneg hplain.1
    have hlt : year.toNat < 10 ^ 4 := by omega
    have hnumber := number?_padded (by decide) hlt ('-' :: rest)
    rw [if_pos hplain, year?, trimBlankStart_padded]
    split
    · next other heq => exact absurd heq (padded_ne_sign (by decide))
    · next other heq => exact absurd heq (padded_ne_sign (by decide))
    · simp only [hnumber, Option.map_some, hyear]
  · rw [if_neg hplain]
    by_cases hneg : year < 0
    · have hyear : -(year.natAbs : Int) = year := by omega
      rw [if_pos hneg]
      show (year?.signed (padded 4 year.natAbs ++ '-' :: rest)).map _ = _
      simp only [hsigned, Option.map_some, hyear]
    · have hyear : (year.natAbs : Int) = year := by omega
      rw [if_neg hneg]
      show (year?.signed (padded 4 year.natAbs ++ '-' :: rest)).map _ = _
      simp only [hsigned, Option.map_some, hyear]

/-- The digits of a fraction are taken, and count as nanoseconds. -/
theorem fraction_padded {width n : Nat} (hpos : 0 < width) (hle : width ≤ 9)
    (hlt : n < 10 ^ width) :
    fraction ('.' :: padded width n ++ ['Z']) = .ok (n * 10 ^ (9 - width), ['Z']) := by
  have hends : Ends ['Z'] := ends_cons (by decide)
  have hlength := length_padded hpos hlt
  have hnanos : fractionNanos (padded width n) = n * 10 ^ (9 - width) := by
    unfold fractionNanos
    dsimp only
    rw [List.take_of_length_le (by rw [hlength]; exact hle), value_padded, hlength]
    rfl
  obtain ⟨first, digits, hpadded, hfirst⟩ := exists_padded_eq_cons width n
  have htake := takeWhile_padded width n hends
  have hdrop := dropWhile_padded width n hends
  rw [hpadded] at htake hdrop hnanos ⊢
  simp only [List.cons_append] at htake hdrop ⊢
  simp only [fraction, hfirst, if_true, htake, hdrop, hnanos]

/-- A fraction is taken up to the offset after it. -/
theorem fraction_fractionText {nanos : Nat} (hlt : nanos < Duration.nanosPerSecond) :
    fraction (fractionText nanos ++ ['Z']) = .ok (nanos, ['Z']) := by
  have hlt : nanos < 10 ^ 9 := hlt
  unfold fractionText
  by_cases hzero : nanos = 0
  · rw [if_pos hzero, hzero]
    rfl
  rw [if_neg hzero]
  by_cases hmillis : nanos % 1000000 = 0
  · rw [if_pos hmillis, fraction_padded (by decide) (by decide) (by omega)]
    congr 2
    omega
  rw [if_neg hmillis]
  by_cases hmicros : nanos % 1000 = 0
  · rw [if_pos hmicros, fraction_padded (by decide) (by decide) (by omega)]
    congr 2
    omega
  · rw [if_neg hmicros, fraction_padded (by decide) (by decide) (by omega)]
    congr 2
    omega

/-! ### Instants -/

/-- The components that an instant is written as. -/
def components (i : Instant) : Components :=
  let secondOfDay := (i.seconds % 86400).toNat
  let leap := Duration.nanosPerSecond ≤ i.nanos
  { date := Calendar.Date.ofDayNumber (i.seconds / 86400)
    hour := secondOfDay / 3600
    minute := secondOfDay / 60 % 60
    second := secondOfDay % 60 + (if leap then 1 else 0)
    nanos := if leap then i.nanos - Duration.nanosPerSecond else i.nanos }

theorem ofParts?_self (i : Instant) : Instant.ofParts? i.seconds i.nanos = some i := by
  unfold Instant.ofParts?
  rw [dif_pos ⟨i.first_le, i.le_last, i.nanos_lt, i.leap_last⟩]

theorem components_second_iff (i : Instant) :
    (components i).second = 60 ↔ Duration.nanosPerSecond ≤ i.nanos := by
  have hleap := i.leap_last
  simp only [components]
  by_cases h : Duration.nanosPerSecond ≤ i.nanos
  · have hlast := hleap h
    simp only [h, if_true, iff_true]
    omega
  · simp only [h, if_false, iff_false]
    omega

/-- **The components of an instant make it up.** -/
theorem toInstant?_components (i : Instant) : (components i).toInstant? 0 = some i := by
  have hfirst := i.first_le
  have hlast := i.le_last
  have hnanos := i.nanos_lt
  have hday : (components i).date.dayNumber = i.seconds / 86400 :=
    Calendar.Date.dayNumber_ofDayNumber _
  have hseconds : (components i).date.dayNumber * 86400 +
      ((components i).hour * 3600 + (components i).minute * 60 +
        ((if (components i).second = 60 then 59 else (components i).second : Nat) : Int)) =
      i.seconds := by
    rw [hday]
    by_cases hleap : Duration.nanosPerSecond ≤ i.nanos
    · have hminute := i.leap_last hleap
      rw [if_pos ((components_second_iff i).mpr hleap)]
      simp only [components]
      omega
    · rw [if_neg (fun h => hleap ((components_second_iff i).mp h))]
      simp only [components, hleap, if_false]
      omega
  have hrest : (components i).nanos < Duration.nanosPerSecond ∧
      (components i).nanos + (if (components i).second = 60 then Duration.nanosPerSecond else 0) =
        i.nanos := by
    simp only [components_second_iff]
    unfold components
    dsimp only
    by_cases hleap : Duration.nanosPerSecond ≤ i.nanos
    · rw [if_pos hleap, if_pos hleap]
      omega
    · rw [if_neg hleap, if_neg hleap]
      omega
  unfold Components.toInstant?
  dsimp only
  rw [hseconds, if_pos ⟨hfirst, hlast, hrest.1⟩, hrest.2, Int.sub_zero, ofParts?_self]

/-- The text of an instant is that of its components. -/
theorem toList_text (i : Instant) : (text i).toList =
    yearText (components i).date.year ++ '-' :: (padded 2 (components i).date.month ++
      '-' :: (padded 2 (components i).date.day ++ 'T' :: (padded 2 (components i).hour ++
        ':' :: (padded 2 (components i).minute ++ ':' :: (padded 2 (components i).second ++
          (fractionText (components i).nanos ++ ['Z'])))))) := by
  simp only [text, String.toList_ofList, dateText, timeText, components, List.append_assoc,
    List.cons_append]

/-- The components of an instant are within their limits. -/
theorem components_le (i : Instant) :
    (components i).date.month ≤ 12 ∧ (components i).date.day ≤ 31 ∧
      (components i).hour ≤ 23 ∧ (components i).minute ≤ 59 ∧ (components i).second ≤ 60 ∧
      (components i).nanos < Duration.nanosPerSecond := by
  have hvalid : (components i).date.isValid = true := Calendar.Date.isValid_ofDayNumber _
  simp only [Calendar.Date.isValid, Bool.and_eq_true, decide_eq_true_eq] at hvalid
  have hdays : Calendar.daysInMonth (components i).date.year (components i).date.month ≤ 31 := by
    unfold Calendar.daysInMonth
    split
    · split <;> decide
    all_goals decide
  have hnanos := i.nanos_lt
  refine ⟨hvalid.1.1.2, hvalid.2.trans hdays, ?_, ?_, ?_, ?_⟩ <;> unfold components <;> dsimp only
  · omega
  · omega
  · split <;> omega
  · split <;> omega

/-- A separator is taken. -/
theorem literal?_separator {c : Char} (hblank : isBlank c = false) (rest : List Char) :
    literal? c (trimBlankStart (c :: rest)) = some rest := by
  rw [trimBlankStart, List.dropWhile_cons_of_neg (by rw [hblank]; decide), literal?, if_pos rfl]

/-- **Stored instants are read back.** -/
theorem parseLenient?_text (i : Instant) : parseLenient? (text i) = some i := by
  have hvalid : (components i).date.isValid = true := Calendar.Date.isValid_ofDayNumber _
  obtain ⟨hmonth, hday, hhour, hminute, hsecond, hnanos⟩ := components_le i
  have hinstant := toInstant?_components i
  have htext := toList_text i
  generalize components i = c at *
  have htwo : 0 < 2 := by decide
  have hhyphen := literal?_separator (c := '-') (by decide)
  have hcolon := literal?_separator (c := ':') (by decide)
  rw [parseLenient?, htext]
  refine read_then (year?_yearText _ _) ?_
  refine read_then (hhyphen _) ?_
  refine read_then (number?_padded htwo (by omega) _) ?_
  refine read_then (hhyphen _) ?_
  refine read_then (number?_padded htwo (by omega) _) ?_
  refine read_then rfl ?_
  refine read_then (number?_padded htwo (by omega) _) ?_
  refine read_then (hcolon _) ?_
  refine read_then (number?_padded htwo (by omega) _) ?_
  refine read_then (hcolon _) ?_
  refine read_then (number?_padded htwo (by omega) _) ?_
  refine read_then (congrArg Except.toOption (fraction_fractionText hnanos)) ?_
  refine read_then (show _ = some (0, []) from rfl) ?_
  refine read_then (show _ = some () from rfl) ?_
  refine read_then (if_pos ?_ : _ = some ()) ?_
  · simp only [hvalid, hhour, hminute, hsecond, decide_true, Bool.and_true]
  refine read_then (show _ = some () from rfl) ?_
  exact hinstant

end Workflow.Rfc3339
