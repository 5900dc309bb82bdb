/-
Durations that are written are read back.

A number of milliseconds is written in days, hours, minutes and seconds, each left out when it is
zero, with the milliseconds behind a point.  These components are a spelling in the sense of the
grammar, their characters are the text, and they are worth the number.  So the reader, which takes
every spelling for what it is worth, gets the number back.
-/
import Workflow.Proofs.Time.IsoDuration

namespace Workflow.IsoDuration

/-! ### The components of a number -/

/-- A component without a fraction, as it is written. -/
def Part.plain (m : Measure) (amount : Nat) : Part where
  measure := m
  whole := Decimal.digits amount
  fraction := none
  whole_ne_nil := Decimal.digits_ne_nil _
  whole_digits := fun _ => Decimal.isDigit_of_mem_digits
  fraction_digits := by rintro _ ⟨⟩
  fraction_seconds := fun h => absurd rfl h

theorem mem_of_mem_trimZeros {digits : List Char} {c : Char} (h : c ∈ trimZeros digits) :
    c ∈ digits := by
  have hdrop := (List.dropWhile_suffix _).subset (List.mem_reverse.mp h)
  exact List.mem_reverse.mp hdrop

/-- Seconds with milliseconds behind the point, as they are written. -/
def Part.pointed (seconds millis : Nat) : Part where
  measure := .seconds
  whole := Decimal.digits seconds
  fraction := some (trimZeros (Decimal.padded 3 millis))
  whole_ne_nil := Decimal.digits_ne_nil _
  whole_digits := fun _ => Decimal.isDigit_of_mem_digits
  fraction_digits := by
    rintro _ ⟨⟩ c hc
    exact Decimal.isDigit_of_mem_padded (mem_of_mem_trimZeros hc)
  fraction_seconds := fun _ => rfl

/-- The component of a number, none for zero. -/
def componentParts (m : Measure) (amount : Nat) : List Part :=
  if amount = 0 then [] else [.plain m amount]

/-- The component of seconds and milliseconds, none if both are zero. -/
def secondsParts (seconds millis : Nat) : List Part :=
  if millis = 0 then componentParts .seconds seconds else [.pointed seconds millis]

/-- The components before the `T` of a number of milliseconds. -/
def dateParts (millis : Nat) : List Part := componentParts .days (millis / 1000 / 86400)

/-- The components behind the `T` of a number of milliseconds. -/
def timeParts (millis : Nat) : List Part :=
  if millis = 0 then [.plain .seconds 0]
  else componentParts .hours (millis / 1000 % 86400 / 3600) ++
    componentParts .minutes (millis / 1000 % 3600 / 60) ++
    secondsParts (millis / 1000 % 60) (millis % 1000)

theorem componentParts_measures (m : Measure) (amount : Nat) :
    ((componentParts m amount).map Part.measure).Sublist [m] := by
  unfold componentParts
  split
  · simp
  · exact List.Sublist.refl _

theorem timeParts_measures (millis : Nat) :
    ((timeParts millis).map Part.measure).Sublist [.hours, .minutes, .seconds] := by
  unfold timeParts
  split
  · simp [Part.plain]
  · have hseconds : ((secondsParts (millis / 1000 % 60) (millis % 1000)).map
        Part.measure).Sublist [.seconds] := by
      unfold secondsParts
      split
      · exact componentParts_measures _ _
      · exact List.Sublist.refl _
    rw [List.map_append, List.map_append]
    exact ((componentParts_measures _ _).append (componentParts_measures _ _)).append hseconds

theorem total_componentParts (m : Measure) (amount : Nat) :
    total (componentParts m amount) = amount * m.unit := by
  unfold componentParts
  split
  next hzero => simp [hzero, total]
  next => simp [total, Part.millis, Part.plain, Decimal.value_digits]

/-- Zeros at the end are dropped, and nothing else. -/
theorem exists_trimZeros_append (digits : List Char) :
    ∃ k, digits = trimZeros digits ++ List.replicate k '0' := by
  have hzeros : ∀ c ∈ digits.reverse.takeWhile (· = '0'), c = '0' := fun c hc => by
    simpa using List.all_eq_true.mp List.all_takeWhile c hc
  refine ⟨(digits.reverse.takeWhile (· = '0')).length, ?_⟩
  calc digits
      = (digits.reverse.takeWhile (· = '0') ++ digits.reverse.dropWhile (· = '0')).reverse := by
        rw [List.takeWhile_append_dropWhile, List.reverse_reverse]
    _ = trimZeros digits ++ (digits.reverse.takeWhile (· = '0')).reverse := List.reverse_append
    _ = _ := by rw [List.eq_replicate_of_mem hzeros, List.reverse_replicate, List.length_replicate]

/-- Milliseconds are read back from the digits that are left of them. -/
theorem thousandths_trimZeros {millis : Nat} (hlt : millis < 1000) :
    thousandths (trimZeros (Decimal.padded 3 millis)) = millis := by
  obtain ⟨k, hk⟩ := exists_trimZeros_append (Decimal.padded 3 millis)
  have hlength := congrArg List.length hk
  rw [Decimal.length_padded (by decide) hlt, List.length_append, List.length_replicate] at hlength
  have hzeros : 3 - (trimZeros (Decimal.padded 3 millis)).length = k := by omega
  rw [thousandths, List.take_of_length_le (by omega), hzeros, ← Decimal.value_append_zeros, ← hk,
    Decimal.value_padded]

theorem total_secondsParts {seconds millis : Nat} (hlt : millis < 1000) :
    total (secondsParts seconds millis) = seconds * 1000 + millis := by
  unfold secondsParts
  split
  next hzero => simp [hzero, total_componentParts, Measure.unit]
  next =>
    simp [Part.millis, Part.pointed, Decimal.value_digits, Measure.unit,
      thousandths_trimZeros hlt]

theorem total_parts (millis : Nat) : total (dateParts millis ++ timeParts millis) = millis := by
  rw [total_append, dateParts, timeParts]
  split
  next hzero => simp [hzero, componentParts, total, Part.millis, Part.plain, Decimal.value_digits]
  next =>
    rw [total_append, total_append, total_secondsParts (Nat.mod_lt _ (by decide))]
    simp only [total_componentParts, Measure.unit]
    omega

/-- The components are written one after the other. -/
theorem flatMap_componentParts (m : Measure) (amount : Nat) :
    (componentParts m amount).flatMap Part.chars = componentText amount m.designator := by
  unfold componentParts componentText
  split
  · rfl
  · simp [Part.chars, Part.number, Part.plain]

theorem flatMap_secondsParts (seconds millis : Nat) :
    (secondsParts seconds millis).flatMap Part.chars = secondsText seconds millis := by
  unfold secondsParts secondsText
  split
  · exact flatMap_componentParts _ _
  · simp [Part.chars, Part.number, Part.pointed, Measure.designator]

theorem inTime_of_mem_dateParts {millis : Nat} {p : Part} (h : p ∈ dateParts millis) :
    p.measure.inTime = false := by
  have hmem := (componentParts_measures _ _).subset (List.mem_map_of_mem h)
  rw [List.mem_singleton.mp hmem]
  rfl

theorem inTime_of_mem_timeParts {millis : Nat} {p : Part} (h : p ∈ timeParts millis) :
    p.measure.inTime = true := by
  have hmem := (timeParts_measures millis).subset (List.mem_map_of_mem h)
  simp only [List.mem_cons, List.not_mem_nil, or_false] at hmem
  rcases hmem with h | h | h <;> rw [h] <;> rfl

theorem flatMap_timeParts {millis : Nat} (hne : millis ≠ 0) :
    (timeParts millis).flatMap Part.chars =
      componentText (millis / 1000 % 86400 / 3600) 'H' ++
        componentText (millis / 1000 % 3600 / 60) 'M' ++
        secondsText (millis / 1000 % 60) (millis % 1000) := by
  rw [timeParts, if_neg hne, List.flatMap_append, List.flatMap_append, flatMap_componentParts,
    flatMap_componentParts, flatMap_secondsParts]
  rfl

theorem Part.chars_ne_nil (p : Part) : p.chars ≠ [] :=
  List.append_ne_nil_of_right_ne_nil _ (by simp)

/-- Where the components before and behind the `T` are known, it stands if there are any behind. -/
theorem written_split {dates times : List Part}
    (hdates : ∀ p ∈ dates, p.measure.inTime = false)
    (htimes : ∀ p ∈ times, p.measure.inTime = true) :
    written (dates ++ times) ((dates ++ times).any fun p => p.measure.inTime) =
      dates.flatMap Part.chars ++
        if times.flatMap Part.chars = [] then [] else 'T' :: times.flatMap Part.chars := by
  have hbefore : (dates ++ times).filter (fun p => !p.measure.inTime) = dates := by
    rw [List.filter_append, List.filter_eq_self.mpr fun p hp => by simp [hdates p hp],
      List.filter_eq_nil_iff.mpr fun p hp => by simp [htimes p hp], List.append_nil]
  have hbehind : (dates ++ times).filter (fun p => p.measure.inTime) = times := by
    rw [List.filter_append, List.filter_eq_nil_iff.mpr fun p hp => by simp [hdates p hp],
      List.filter_eq_self.mpr fun p hp => by simp [htimes p hp], List.nil_append]
  have hnone : (dates.any fun p => p.measure.inTime) = false :=
    List.any_eq_false.mpr fun p hp => by simp [hdates p hp]
  rw [written, hbefore, hbehind, List.any_append, hnone, Bool.false_or]
  cases times with
  | nil => rfl
  | cons p rest => simp [htimes p List.mem_cons_self, p.chars_ne_nil]

/-- The components of a number of milliseconds as a spelling. -/
def spelling (millis : Nat) : Spelling where
  parts := dateParts millis ++ timeParts millis
  parts_ne_nil := by
    intro hnil
    have htotal := total_parts millis
    rw [hnil] at htotal
    obtain rfl : 0 = millis := htotal
    cases hnil
  ascending := by
    have hsublist := (componentParts_measures .days (millis / 1000 / 86400)).append
      (timeParts_measures millis)
    rw [← List.map_append] at hsublist
    have hplaces : [Measure.days, .hours, .minutes, .seconds].Pairwise (·.place < ·.place) := by
      decide
    exact List.pairwise_map (f := Part.measure).mp (hplaces.sublist hsublist)

theorem millis_spelling (millis : Nat) : (spelling millis).millis = millis := total_parts millis

/-- A number of milliseconds is written in its components. -/
theorem chars_spelling (millis : Nat) : (spelling millis).chars = millisText millis := by
  show 'P' :: written (dateParts millis ++ timeParts millis)
    ((dateParts millis ++ timeParts millis).any fun p => p.measure.inTime) = _
  rw [written_split (fun _ => inTime_of_mem_dateParts) (fun _ => inTime_of_mem_timeParts)]
  by_cases hzero : millis = 0
  · rw [hzero]
    decide
  · rw [flatMap_timeParts hzero, dateParts, flatMap_componentParts, millisText, if_neg hzero]
    rfl

/-- **A duration that is written is read, down to the millisecond.** -/
theorem parse_text {d : Duration} (h : d.millis < wordCount 64) :
    parse (text d) = .ok (Duration.ofMillis d.millis) := by
  have hle : d.millis ≤ maxWord64 := Nat.le_sub_one_of_lt h
  rw [parse, text, Nat.mod_eq_of_lt h, String.toList_ofList, parseChars_eq_ok_iff]
  refine ⟨spelling d.millis, (chars_spelling _).symm, ?_, ?_⟩ <;> rw [millis_spelling]
  exact hle

end Workflow.IsoDuration
