/-
Intervals in writing: what is read, and that what is written is read back.

A text is split at its first slash, so an interval is read exactly if an `R`, a count of firings
and a slash stand in front of a duration that is not zero.  The count is a numeral of 32 bits or
missing; the reader of numbers that it is given to takes one sign in front of it as well.  An
interval that was read is written with a plain count and with its period in components, and these
are read back.
-/
import Workflow.Proofs.Time.Spelling
import Workflow.Timer.Cycle

namespace Workflow

/-! ### Durations -/

theorem parseDuration_eq_ok_iff {text : String} {d : Duration} :
    parseDuration text = .ok d ↔ IsoDuration.parse text = .ok d := by
  unfold parseDuration
  cases IsoDuration.parse text <;> simp [Except.mapError]

/-- A text that is no duration is refused for one of two causes. -/
theorem parseDuration_eq_error {text : String} {cause : CycleError}
    (h : parseDuration text = .error cause) :
    cause = .invalidDuration text ∨ cause = .calendarDuration text := by
  unfold parseDuration at h
  cases hparse : IsoDuration.parse text with
  | ok d =>
    rw [hparse] at h
    cases h
  | error e =>
    rw [hparse] at h
    cases h
    cases e
    · exact .inl rfl
    · exact .inr rfl

open IsoDuration in
/-- **A text is read as a duration exactly if it is one in writing whose total fits into 64 bits,
and the duration is the total; nothing that is computed on the way leaves the 64 bits.** -/
theorem parseDuration_exact (text : String) :
    (∀ d, parseDuration text = .ok d ↔
      ∃ s : Spelling, text.toList = s.chars ∧ s.millis ≤ maxWord64 ∧
        d = Duration.ofMillis s.millis) ∧
    ((∃ s : Spelling, text.toList = s.chars ∧ s.millis ≤ maxWord64) ∨
      parseDuration text = .error (.invalidDuration text) ∨
      parseDuration text = .error (.calendarDuration text)) ∧
    ∀ front r, front.foldlM Reading.step {} = .ok r →
      ∃ parts marked number, Begins parts marked number ∧
        front = written parts marked ++ number ∧
        parts.length ≤ 5 ∧ r.millis = total parts ∧ total parts ≤ maxWord64 ∧
        ∀ p ∈ parts, Decimal.value p.whole ≤ maxWord64 ∧
          Decimal.value p.whole * p.measure.unit ≤ maxWord64 ∧ p.millis ≤ maxWord64 := by
  have hread : ∀ d, parseDuration text = .ok d ↔
      ∃ s : Spelling, text.toList = s.chars ∧ s.millis ≤ maxWord64 ∧
        d = Duration.ofMillis s.millis :=
    fun d => parseDuration_eq_ok_iff.trans parseChars_eq_ok_iff
  refine ⟨hread, ?_, ?_⟩
  · cases hparse : parseDuration text with
    | ok d =>
      obtain ⟨s, htext, hfits, -⟩ := (hread d).mp hparse
      exact .inl ⟨s, htext, hfits⟩
    | error cause =>
      rcases parseDuration_eq_error hparse with rfl | rfl
      · exact .inr (.inl rfl)
      · exact .inr (.inr rfl)
  · intro front r hfront
    obtain ⟨parts, marked, number, hbegins, hwritten, rfl⟩ := begins_of_ok hfront
    refine ⟨parts, marked, number, hbegins, hwritten, hbegins.ascending.length_le, rfl,
      hbegins.fits, fun p hp => ?_⟩
    obtain ⟨hvalue, hproduct⟩ := p.factors_le
    have hworth : p.millis ≤ maxWord64 := Nat.le_trans (millis_le_total hp) hbegins.fits
    have hfits := Nat.le_trans hproduct hworth
    exact ⟨Nat.le_trans hvalue hfits, hfits, hworth⟩

open IsoDuration in
/-- With each component once, and stopped in front of a designator. -/
theorem parseDuration_all_components :
    parseDuration "P1W2DT3H4M5.0625S" = .ok (Duration.ofMillis 788645062) ∧
      ∃ parts marked number, Begins parts marked number ∧
        "1W2DT3".toList = written parts marked ++ number ∧ 777600000 = total parts := by
  have hmany := parseDuration_exact "P1W2DT3H4M5.0625S"
  constructor
  · exact (hmany.1 _).mpr ⟨⟨[.plain .weeks 1, .plain .days 2, .plain .hours 3, .plain .minutes 4,
      ⟨.seconds, ['5'], some ['0', '6', '2', '5'], by decide, List.all_eq_true.mp (by decide),
        by rintro _ ⟨⟩; exact List.all_eq_true.mp (by decide), fun _ => rfl⟩],
      by simp, by decide⟩, by decide, by decide, by decide⟩
  · obtain ⟨parts, marked, number, hbegins, hwritten, -, htotal, -⟩ :=
      hmany.2.2 "1W2DT3".toList ⟨['3'], true, 2, 777600000, false⟩ (by decide)
    exact ⟨parts, marked, number, hbegins, hwritten, htotal⟩

/-! ### Intervals -/

namespace TimerCycle

/-- What may stand between the `R` and the slash: nothing, or a numeral from 1 to 32 bits. -/
inductive Counts : List Char → Repetition → Prop where
  | endless : Counts [] .infinite
  | numeral {digits : List Char} (hne : digits ≠ []) (hdigits : ∀ c ∈ digits, c.isDigit = true)
      (hpos : 0 < Decimal.value digits) (hfits : Decimal.value digits ≤ maxWord32) :
      Counts digits (.finite (Decimal.value digits))

/-- What is taken for a count: one of these, or a numeral with a `+` in front. -/
def Taken (count : List Char) (repetition : Repetition) : Prop :=
  Counts count repetition ∨
    ∃ digits, digits ≠ [] ∧ count = '+' :: digits ∧ Counts digits repetition

theorem counts_finite_iff {count : List Char} {n : Nat} :
    Counts count (.finite n) ↔ Decimal.digitsUpTo? maxWord32 count = some n ∧ 0 < n := by
  rw [Decimal.digitsUpTo?_eq_some_iff]
  constructor
  · rintro ⟨⟩
    next hne hdigits hpos hfits => exact ⟨⟨hne, hdigits, rfl, hfits⟩, hpos⟩
  · rintro ⟨⟨hne, hdigits, rfl, hfits⟩, hpos⟩
    exact .numeral hne hdigits hpos hfits

theorem taken_finite_iff {count : List Char} {n : Nat} :
    Taken count (.finite n) ↔ Decimal.unsigned? maxWord32 count = some n ∧ 0 < n := by
  rw [Decimal.unsigned?_eq_some_iff, Taken, counts_finite_iff]
  constructor
  · rintro (⟨hread, hpos⟩ | ⟨digits, -, rfl, hdigits⟩)
    · exact ⟨.inl hread, hpos⟩
    · obtain ⟨hread, hpos⟩ := counts_finite_iff.mp hdigits
      exact ⟨.inr ⟨digits, rfl, hread⟩, hpos⟩
  · rintro ⟨hread | ⟨digits, rfl, hread⟩, hpos⟩
    · exact .inl ⟨hread, hpos⟩
    · exact .inr ⟨digits, (Decimal.digitsUpTo?_eq_some_iff.mp hread).1, rfl,
        counts_finite_iff.mpr ⟨hread, hpos⟩⟩

theorem taken_infinite_iff {count : List Char} : Taken count .infinite ↔ count = [] := by
  constructor
  · rintro (h | ⟨digits, hne, -, h⟩) <;> cases h
    · rfl
    · exact absurd rfl hne
  · rintro rfl
    exact .inl .endless

theorem not_taken_once {count : List Char} : ¬Taken count .once := by
  rintro (h | ⟨_, _, _, h⟩) <;> cases h

theorem parseCount_eq_ok_iff {text : String} {count : List Char} {repetition : Repetition} :
    parseCount text count = .ok repetition ↔ Taken count repetition := by
  by_cases hnone : count = []
  · subst hnone
    have hunread : Decimal.unsigned? maxWord32 [] = none := rfl
    rw [parseCount, if_pos rfl]
    cases repetition with
    | once => simp [not_taken_once]
    | finite n => simp [taken_finite_iff, hunread]
    | infinite => simp [taken_infinite_iff]
  · rw [parseCount, if_neg hnone]
    cases repetition with
    | once =>
      simp only [not_taken_once, iff_false]
      split <;> simp
    | finite n =>
      rw [taken_finite_iff]
      split
      next hread => simp [hread]
      next hread => simp [hread]; omega
      next m hpos hread =>
        have hne : m ≠ 0 := hpos
        simp only [hread, Except.ok.injEq, Repetition.finite.injEq, Option.some.injEq]
        omega
    | infinite =>
      simp only [taken_infinite_iff, hnone, iff_false]
      split <;> simp

/-- A text is split at its first slash. -/
theorem parse_split {text : String} {count rest : List Char}
    (htext : text.toList = 'R' :: count ++ '/' :: rest) (hcount : '/' ∉ count) :
    parse text = (parseCount text count).bind fun repetition =>
      (parseDuration (String.ofList rest)).bind fun period =>
        if period.isZero then .error (.zeroPeriod text) else .ok ⟨repetition, period⟩ := by
  have hfront : '/' ∉ 'R' :: count := by simp [hcount]
  obtain ⟨htake, hdrop⟩ := split_at_first hfront rest
  unfold parse
  simp only [htext, htake, hdrop]
  rfl

/-- A text that is read has an `R` in front, and a slash. -/
theorem exists_split_of_parse {text : String} {cycle : TimerCycle} (h : parse text = .ok cycle) :
    ∃ count rest, text.toList = 'R' :: count ++ '/' :: rest ∧ '/' ∉ count := by
  unfold parse at h
  by_cases hslash : '/' ∈ text.toList
  · obtain ⟨front, back, htext, hfront⟩ := List.eq_append_cons_of_mem hslash
    obtain ⟨htake, hdrop⟩ := split_at_first hfront back
    simp only [htext, htake, hdrop] at h
    split at h
    next count rest heq =>
      cases heq
      exact ⟨count, back, htext, fun hmem => hfront (List.mem_cons_of_mem 'R' hmem)⟩
    next => cases h
  · obtain ⟨-, hdrop⟩ := split_of_not_mem hslash
    simp only [hdrop] at h
    split at h
    next heq => cases heq
    next => cases h

theorem parse_eq_ok_iff {text : String} {cycle : TimerCycle} :
    parse text = .ok cycle ↔
      ∃ count rest, text.toList = 'R' :: count ++ '/' :: rest ∧ '/' ∉ count ∧
        Taken count cycle.repetition ∧ parseDuration (String.ofList rest) = .ok cycle.period ∧
        cycle.period ≠ ⟨0⟩ := by
  constructor
  · intro h
    obtain ⟨count, rest, htext, hcount⟩ := exists_split_of_parse h
    rw [parse_split htext hcount] at h
    cases hrepetition : parseCount text count with
    | error e =>
      rw [hrepetition] at h
      cases h
    | ok repetition =>
      cases hperiod : parseDuration (String.ofList rest) with
      | error e =>
        rw [hrepetition, hperiod] at h
        cases h
      | ok period =>
        rw [hrepetition, hperiod] at h
        simp only [Except.bind] at h
        split at h
        · cases h
        next hzero =>
          cases h
          exact ⟨count, rest, htext, hcount, parseCount_eq_ok_iff.mp hrepetition, hperiod,
            fun heq : period = ⟨0⟩ => hzero (by rw [heq]; rfl)⟩
  · rintro ⟨count, rest, htext, hcount, htaken, hperiod, hne⟩
    have hzero : cycle.period.isZero = false := by
      rw [Duration.isZero, beq_eq_false_iff_ne]
      exact fun hnanos => hne (congrArg Duration.mk hnanos)
    rw [parse_split htext hcount, parseCount_eq_ok_iff.mpr htaken, hperiod]
    simp [Except.bind, hzero]

/-- There is no slash in a count. -/
theorem Taken.no_slash {count : List Char} {repetition : Repetition}
    (h : Taken count repetition) : '/' ∉ count := by
  intro hmem
  cases repetition with
  | once => exact not_taken_once h
  | finite n =>
    obtain ⟨front, back, rfl⟩ := List.append_of_mem hmem
    cases Decimal.isDigit_of_unsigned? (taken_finite_iff.mp h).1 (.inl (by decide))
  | infinite =>
    rw [taken_infinite_iff.mp h] at hmem
    cases hmem

/-- A count with a character that is no digit is refused, a `+` in front of it apart. -/
theorem parseCount_refused {text : String} {front back : List Char} {c : Char}
    (hdigit : c.isDigit = false) (hc : c ≠ '+' ∨ front ≠ []) :
    parseCount text (front ++ c :: back) = .error (.invalidCycle text) := by
  have hunread : Decimal.unsigned? maxWord32 (front ++ c :: back) = none := by
    refine Option.eq_none_iff_forall_ne_some.mpr fun n hread => ?_
    rw [Decimal.isDigit_of_unsigned? hread hc] at hdigit
    cases hdigit
  rw [parseCount, if_neg (by simp), hunread]

/-- **A text is read as an interval exactly if it is an `R`, a count, a slash and a duration that
is not zero.  A count is a numeral from 1 to 32 bits or nothing; one `+` in front of the numeral is
taken too, and any other character makes the text an invalid interval.** -/
theorem parse_interval_exact (text : String) :
    (∀ cycle, parse text = .ok cycle ↔
      ∃ count rest, text.toList = 'R' :: count ++ '/' :: rest ∧
        (Counts count cycle.repetition ∨
          ∃ digits, digits ≠ [] ∧ count = '+' :: digits ∧ Counts digits cycle.repetition) ∧
        parseDuration (String.ofList rest) = .ok cycle.period ∧ cycle.period ≠ ⟨0⟩) ∧
    ∀ front c back rest, text.toList = 'R' :: (front ++ c :: back) ++ '/' :: rest →
      '/' ∉ front ++ c :: back → c.isDigit = false → (c ≠ '+' ∨ front ≠ []) →
      parse text = .error (.invalidCycle text) := by
  constructor
  · intro cycle
    rw [parse_eq_ok_iff]
    constructor
    · rintro ⟨count, rest, htext, -, htaken, hperiod, hne⟩
      exact ⟨count, rest, htext, htaken, hperiod, hne⟩
    · rintro ⟨count, rest, htext, htaken, hperiod, hne⟩
      exact ⟨count, rest, htext, Taken.no_slash htaken, htaken, hperiod, hne⟩
  · intro front c back rest htext hslash hdigit hc
    rw [parse_split htext hslash, parseCount_refused hdigit hc]
    rfl

/-- A sign in front of the count is taken, although no count has one. -/
theorem parse_signed_count : parse "R+2/PT1S" = .ok ⟨.finite 2, ⟨1000000000⟩⟩ ∧
    ¬∃ count rest repetition, "R+2/PT1S".toList = 'R' :: count ++ '/' :: rest ∧
      Counts count repetition := by
  refine ⟨by decide, ?_⟩
  rintro ⟨count, rest, repetition, htext, hcounts⟩
  have hplus : "+2/PT1S".toList = count ++ '/' :: rest := by
    simpa using htext
  cases hcounts with
  | endless => cases hplus
  | numeral hne hdigits =>
    obtain ⟨first, digits, rfl⟩ := List.exists_cons_of_ne_nil hne
    obtain rfl : '+' = first := (List.cons.inj hplus).1
    cases hdigits '+' List.mem_cons_self

/-- With a sign, and with a letter. -/
theorem parse_signed_and_lettered :
    parse "R+3/PT1S" = .ok ⟨.finite 3, ⟨1000000000⟩⟩ ∧
      parse "R1x/PT1S" = .error (.invalidCycle "R1x/PT1S") := by
  constructor
  · have hcount : Counts ['3'] (.finite 3) := .numeral (by decide)
      (List.all_eq_true.mp (by decide)) (by decide) (by decide)
    exact ((parse_interval_exact _).1 _).mpr ⟨['+', '3'], "PT1S".toList, by decide,
      .inr ⟨['3'], by decide, rfl, hcount⟩, by decide, by decide⟩
  · exact (parse_interval_exact _).2 ['1'] 'x' [] "PT1S".toList (by decide) (by decide) (by decide)
      (.inl (by decide))

/-! ### Reading back -/

theorem parseDuration_text {d : Duration} (h : d.millis < wordCount 64) :
    parseDuration (IsoDuration.text d) = .ok (Duration.ofMillis d.millis) :=
  parseDuration_eq_ok_iff.mpr (IsoDuration.parse_text h)

/-- A duration that was read is a whole number of milliseconds of 64 bits. -/
theorem exists_millis_of_parseDuration {text : String} {d : Duration}
    (h : parseDuration text = .ok d) : ∃ millis < wordCount 64, d = Duration.ofMillis millis := by
  obtain ⟨s, -, hfits, rfl⟩ := IsoDuration.parseChars_eq_ok_iff.mp (parseDuration_eq_ok_iff.mp h)
  exact ⟨s.millis, Nat.lt_of_le_pred (by decide) hfits, rfl⟩

/-- A count in writing, if the timer repeats at all. -/
theorem taken_written {count : List Char} {repetition : Repetition} (h : Taken count repetition)
    (period : Duration) : ∃ plain, Taken plain repetition ∧
      (TimerCycle.mk repetition period).text.toList =
        'R' :: plain ++ '/' :: (IsoDuration.text period).toList := by
  cases repetition with
  | once => exact absurd h not_taken_once
  | finite n =>
    obtain ⟨hread, hpos⟩ := taken_finite_iff.mp h
    have hplain : Decimal.digitsUpTo? maxWord32 (Decimal.digits n) = some n :=
      Decimal.digitsUpTo?_eq_some_iff.mpr ⟨Decimal.digits_ne_nil n,
        fun _ => Decimal.isDigit_of_mem_digits, Decimal.value_digits n,
        Decimal.le_of_unsigned? hread⟩
    refine ⟨Decimal.digits n, .inl (counts_finite_iff.mpr ⟨hplain, hpos⟩), ?_⟩
    simp [TimerCycle.text, Decimal.text]
  | infinite =>
    refine ⟨[], .inl .endless, ?_⟩
    simp [TimerCycle.text]

/-- **An interval or a duration that is written is read back.** -/
theorem written_read_back :
    (∀ d : Duration, d.millis < wordCount 64 →
      parseDuration (IsoDuration.text d) = .ok (Duration.ofMillis d.millis)) ∧
    (∀ m n, m < wordCount 64 → n < wordCount 64 →
      IsoDuration.text (Duration.ofMillis m) = IsoDuration.text (Duration.ofMillis n) → m = n) ∧
    ∀ text cycle, parse text = .ok cycle → parse cycle.text = .ok cycle := by
  refine ⟨fun d => parseDuration_text, ?_, ?_⟩
  · intro m n hm hn heq
    have hread : ∀ k, k < wordCount 64 →
        parseDuration (IsoDuration.text (.ofMillis k)) = .ok (.ofMillis k) := fun k hk => by
      simpa using parseDuration_text (d := .ofMillis k) (by simpa using hk)
    have hsame := (hread m hm).symm.trans ((congrArg parseDuration heq).trans (hread n hn))
    simpa using congrArg Duration.millis (Except.ok.inj hsame)
  · intro text cycle hparse
    obtain ⟨count, rest, -, -, htaken, hperiod, hne⟩ := parse_eq_ok_iff.mp hparse
    obtain ⟨millis, hlt, heq⟩ := exists_millis_of_parseDuration hperiod
    obtain ⟨plain, hplain, htext⟩ := taken_written htaken cycle.period
    have hback : parseDuration (IsoDuration.text cycle.period) = .ok cycle.period := by
      rw [heq, parseDuration_text (by simpa using hlt), Duration.millis_ofMillis]
    exact parse_eq_ok_iff.mpr ⟨plain, (IsoDuration.text cycle.period).toList, htext,
      hplain.no_slash, hplain, by rwa [String.ofList_toList], hne⟩

/-- At the longest duration, and with another spelling than the one that is written. -/
theorem longest_and_respelled_read_back :
    parseDuration (IsoDuration.text (.ofMillis maxWord64)) = .ok (.ofMillis maxWord64) ∧
      parse "R+3/PT90.50S" = .ok ⟨.finite 3, ⟨90500000000⟩⟩ ∧
      parse (TimerCycle.text ⟨.finite 3, ⟨90500000000⟩⟩) = .ok ⟨.finite 3, ⟨90500000000⟩⟩ := by
  refine ⟨?_, by decide, written_read_back.2.2 "R+3/PT90.50S" _ (by decide)⟩
  have hlongest := written_read_back.1 (.ofMillis maxWord64) (by decide)
  rwa [Duration.millis_ofMillis] at hlongest

end TimerCycle

end Workflow
