/-
Durations in writing: the grammar, and that the reader takes exactly what it generates.

A spelling is a list of components in the order weeks, days, hours, minutes, seconds, each at most
once, with a `T` in front of the components of the time of day.  The reader goes through a text
once, and two facts about it carry the rest.  A designator is taken exactly if it ends a component
that may stand there, and then the total has grown by what the component is worth.  And at every
point that the reader comes to, what was read is the writing of some components, their worth is the
total, and the total fits into 64 bits.
-/
import Mathlib.Algebra.GroupWithZero.Nat
import Mathlib.Data.List.Induction
import Mathlib.Data.Option.Basic
import Workflow.Proofs.Text.Decimal
import Workflow.Time.IsoDuration

namespace Workflow.IsoDuration

/-! ### The grammar -/

/-- What a component counts. -/
inductive Measure where
  | weeks
  | days
  | hours
  | minutes
  | seconds
deriving DecidableEq

namespace Measure

/-- The letter behind the number. -/
def designator : Measure → Char
  | weeks => 'W'
  | days => 'D'
  | hours => 'H'
  | minutes => 'M'
  | seconds => 'S'

/-- Milliseconds in one unit. -/
def unit : Measure → Nat
  | weeks => 604800000
  | days => 86400000
  | hours => 3600000
  | minutes => 60000
  | seconds => 1000

/-- Whether the component stands after the `T`. -/
def inTime : Measure → Bool
  | weeks | days => false
  | hours | minutes | seconds => true

/-- The place in the order of components, from 1. -/
def place : Measure → Nat
  | weeks => 1
  | days => 2
  | hours => 3
  | minutes => 4
  | seconds => secondsRank

end Measure

/-- The milliseconds of a fraction of a second, of which the first three digits count. -/
def thousandths (fraction : List Char) : Nat :=
  Decimal.value (fraction.take 3) * 10 ^ (3 - fraction.length)

/-- A component: a numeral of one or more digits, and for seconds a fraction or none. -/
structure Part where
  /-- What is counted. -/
  measure : Measure
  /-- The numeral, up to the point if there is one. -/
  whole : List Char
  /-- What stands between the point and the designator. -/
  fraction : Option (List Char)
  whole_ne_nil : whole ≠ []
  whole_digits : ∀ c ∈ whole, c.isDigit = true
  fraction_digits : ∀ digits ∈ fraction, ∀ c ∈ digits, c.isDigit = true
  fraction_seconds : fraction ≠ none → measure = .seconds

namespace Part

/-- The component in front of its designator. -/
def number (p : Part) : List Char := p.whole ++ p.fraction.elim [] ('.' :: ·)

/-- The component in writing. -/
def chars (p : Part) : List Char := p.number ++ [p.measure.designator]

/-- The milliseconds that the component is worth. -/
def millis (p : Part) : Nat :=
  Decimal.value p.whole * p.measure.unit + p.fraction.elim 0 thousandths

end Part

/-- The milliseconds that components are worth together. -/
def total (parts : List Part) : Nat := (parts.map Part.millis).sum

/-- Components in writing; those of the time of day stand behind a `T`, if one is written. -/
def written (parts : List Part) (marked : Bool) : List Char :=
  (parts.filter fun p => !p.measure.inTime).flatMap Part.chars ++
    if marked then 'T' :: (parts.filter fun p => p.measure.inTime).flatMap Part.chars else []

/-- Components in their order, each at most once. -/
def Ascending (parts : List Part) : Prop :=
  parts.Pairwise fun p q => p.measure.place < q.measure.place

instance (parts : List Part) : Decidable (Ascending parts) :=
  inferInstanceAs (Decidable (parts.Pairwise _))

/-- A duration in writing: at least one component, and a `T` exactly if one of them needs it. -/
structure Spelling where
  parts : List Part
  parts_ne_nil : parts ≠ []
  ascending : Ascending parts

namespace Spelling

/-- The characters of a spelling. -/
def chars (s : Spelling) : List Char :=
  'P' :: written s.parts (s.parts.any fun p => p.measure.inTime)

/-- The milliseconds that a spelling stands for. -/
def millis (s : Spelling) : Nat := total s.parts

end Spelling

/-! ### Numerals -/

theorem fitting?_eq_some_iff {n k : Nat} : fitting? n = some k ↔ n = k ∧ k ≤ maxWord64 := by
  simp only [fitting?, Option.ite_none_right_eq_some, Option.some.injEq]
  constructor
  · rintro ⟨hle, rfl⟩
    exact ⟨rfl, hle⟩
  · rintro ⟨rfl, hle⟩
    exact ⟨hle, rfl⟩

theorem fractionMillis_eq (fraction : List Char) :
    fractionMillis fraction = thousandths fraction := by
  have hpad : (fraction ++ List.replicate 3 '0').take 3 =
      fraction.take 3 ++ List.replicate (3 - fraction.length) '0' := by
    rw [List.take_append, List.take_replicate]
    congr 2
    omega
  show Decimal.value ((fraction ++ List.replicate 3 '0').take 3) = _
  rw [hpad, Decimal.value_append_zeros, thousandths]

/-- A product that fits has factors that fit, so the limit on the numeral adds nothing. -/
theorem wholeMillis?_eq_some_iff {unit n : Nat} (hunit : 0 < unit) {number : List Char} :
    wholeMillis? unit number = some n ↔
      number ≠ [] ∧ (∀ c ∈ number, c.isDigit = true) ∧
        Decimal.value number * unit = n ∧ n ≤ maxWord64 := by
  simp only [wholeMillis?, Option.bind_eq_some_iff, Decimal.digitsUpTo?_eq_some_iff,
    fitting?_eq_some_iff]
  constructor
  · rintro ⟨value, ⟨hne, hall, rfl, -⟩, heq, hle⟩
    exact ⟨hne, hall, heq, hle⟩
  · rintro ⟨hne, hall, heq, hle⟩
    have hfactor : Decimal.value number ≤ Decimal.value number * unit :=
      Nat.le_mul_of_pos_right _ hunit
    exact ⟨_, ⟨hne, hall, rfl, by omega⟩, heq, hle⟩

/-- Seconds with a numeral, which ends at the first point, and what follows the point. -/
theorem secondsMillis?_split {number whole fraction : List Char}
    (htake : number.takeWhile (· ≠ '.') = whole)
    (hdrop : (number.dropWhile (· ≠ '.')).drop 1 = fraction) {n : Nat} :
    secondsMillis? number = some n ↔
      whole ≠ [] ∧ (∀ c ∈ whole, c.isDigit = true) ∧ '.' ∉ fraction ∧
        Decimal.value whole * 1000 + thousandths fraction = n ∧ n ≤ maxWord64 := by
  simp only [secondsMillis?, htake, hdrop, bind, Option.bind_eq_some_iff, Option.guard_eq_some',
    wholeMillis?_eq_some_iff (show 0 < 1000 by decide), fitting?_eq_some_iff, fractionMillis_eq]
  constructor
  · rintro ⟨-, ⟨hne, hpoint⟩, millis, ⟨-, hdigits, rfl, -⟩, heq, hle⟩
    exact ⟨hne, hdigits, hpoint, heq, hle⟩
  · rintro ⟨hne, hdigits, hpoint, heq, hle⟩
    exact ⟨(), ⟨hne, hpoint⟩, _, ⟨hne, hdigits, rfl, by omega⟩, heq, hle⟩

/-- Seconds without a point are a numeral and nothing else. -/
theorem secondsMillis?_whole {whole : List Char} (h : '.' ∉ whole) {n : Nat} :
    secondsMillis? whole = some n ↔
      whole ≠ [] ∧ (∀ c ∈ whole, c.isDigit = true) ∧ Decimal.value whole * 1000 = n ∧
        n ≤ maxWord64 := by
  obtain ⟨htake, hdrop⟩ := split_of_not_mem h
  have hnone : thousandths [] = 0 := by decide
  simp [secondsMillis?_split htake (congrArg (List.drop 1) hdrop), hnone]

/-- Seconds are split at their first point. -/
theorem secondsMillis?_pointed {whole : List Char} (h : '.' ∉ whole) {fraction : List Char}
    {n : Nat} :
    secondsMillis? (whole ++ '.' :: fraction) = some n ↔
      whole ≠ [] ∧ (∀ c ∈ whole, c.isDigit = true) ∧ '.' ∉ fraction ∧
        Decimal.value whole * 1000 + thousandths fraction = n ∧ n ≤ maxWord64 := by
  obtain ⟨htake, hdrop⟩ := split_at_first h fraction
  exact secondsMillis?_split htake (congrArg (List.drop 1) hdrop)

/-- What the reader makes of the number in front of a designator. -/
def amount? (m : Measure) (number : List Char) : Option Nat :=
  if m.place = secondsRank then secondsMillis? number else wholeMillis? m.unit number

theorem amount?_seconds (number : List Char) :
    amount? .seconds number = secondsMillis? number := rfl

theorem amount?_of_ne {m : Measure} (h : m ≠ .seconds) (number : List Char) :
    amount? m number = wholeMillis? m.unit number := by
  cases m with
  | seconds => exact absurd rfl h
  | _ => rfl

theorem Measure.unit_pos (m : Measure) : 0 < m.unit := by
  cases m <;> decide

/-- A number that was read, of digits and points. -/
def Numeric (number : List Char) : Prop := ∀ c ∈ number, c.isDigit = true ∨ c = '.'

theorem not_mem_of_digits {digits : List Char} (h : ∀ c ∈ digits, c.isDigit = true) :
    '.' ∉ digits := fun hmem => by
  cases h _ hmem

theorem digits_of_not_mem {number : List Char} (h : Numeric number) (hpoint : '.' ∉ number) :
    ∀ c ∈ number, c.isDigit = true :=
  fun c hc => (h c hc).resolve_right fun heq => hpoint (heq ▸ hc)

theorem Part.numeric (p : Part) : Numeric p.number := by
  intro c hc
  rcases List.mem_append.mp hc with hwhole | hfraction
  · exact .inl (p.whole_digits c hwhole)
  · cases hf : p.fraction with
    | none =>
      rw [hf] at hfraction
      cases hfraction
    | some digits =>
      rw [hf] at hfraction
      rcases List.mem_cons.mp hfraction with rfl | hmem
      · exact .inr rfl
      · exact .inl (p.fraction_digits digits hf c hmem)

/-- The number of a component counts for what the component is worth. -/
theorem amount?_number (p : Part) (hle : p.millis ≤ maxWord64) :
    amount? p.measure p.number = some p.millis := by
  obtain ⟨measure, whole, fraction, hne, hwhole, hfraction, hseconds⟩ := p
  have hpoint := not_mem_of_digits hwhole
  cases fraction with
  | none =>
    simp only [Part.number, Part.millis, Option.elim_none, List.append_nil, Nat.add_zero] at hle ⊢
    by_cases hmeasure : measure = .seconds
    · subst hmeasure
      exact (secondsMillis?_whole hpoint).mpr ⟨hne, hwhole, by rw [Measure.unit], hle⟩
    · rw [amount?_of_ne hmeasure]
      exact (wholeMillis?_eq_some_iff measure.unit_pos).mpr ⟨hne, hwhole, rfl, hle⟩
  | some digits =>
    obtain rfl : measure = .seconds := hseconds (by simp)
    have hdigits := hfraction digits rfl
    exact (secondsMillis?_pointed hpoint).mpr
      ⟨hne, hwhole, not_mem_of_digits hdigits, rfl, hle⟩

/-- A number that counts is the number of a component. -/
theorem exists_part_of_amount? {m : Measure} {number : List Char} (hnumber : Numeric number)
    {n : Nat} (h : amount? m number = some n) :
    ∃ p : Part, p.measure = m ∧ p.number = number ∧ p.millis = n ∧ n ≤ maxWord64 := by
  by_cases hmeasure : m = .seconds
  · subst hmeasure
    rw [amount?_seconds] at h
    by_cases hpoint : '.' ∈ number
    · obtain ⟨whole, digits, rfl, hwhole⟩ := List.eq_append_cons_of_mem hpoint
      obtain ⟨hne, hwhole, hdigits, heq, hle⟩ := (secondsMillis?_pointed hwhole).mp h
      have hnumeric : Numeric digits := fun c hc => hnumber c (by simp [hc])
      exact ⟨⟨.seconds, whole, some digits, hne, hwhole,
        by rintro _ ⟨⟩; exact digits_of_not_mem hnumeric hdigits, fun _ => rfl⟩,
        rfl, rfl, heq, hle⟩
    · obtain ⟨hne, hwhole, heq, hle⟩ := (secondsMillis?_whole hpoint).mp h
      exact ⟨⟨.seconds, number, none, hne, hwhole, by rintro _ ⟨⟩, fun h => absurd rfl h⟩,
        rfl, List.append_nil _, by simpa [Part.millis, Measure.unit] using heq, hle⟩
  · rw [amount?_of_ne hmeasure] at h
    obtain ⟨hne, hwhole, heq, hle⟩ := (wholeMillis?_eq_some_iff m.unit_pos).mp h
    exact ⟨⟨m, number, none, hne, hwhole, by rintro _ ⟨⟩, fun h => absurd rfl h⟩,
      rfl, List.append_nil _, heq, hle⟩

/-! ### One character -/

/-- The letters that end a component, before and after the `T`. -/
theorem component?_eq_ok_iff {inTime : Bool} {c : Char} {component : Component} :
    component? inTime c = .ok component ↔
      ∃ m : Measure, m.inTime = inTime ∧ m.designator = c ∧ component = ⟨m.place, m.unit⟩ := by
  constructor
  · intro h
    unfold component? at h
    split at h <;> cases h
    · exact ⟨.weeks, rfl, rfl, rfl⟩
    · exact ⟨.days, rfl, rfl, rfl⟩
    · exact ⟨.hours, rfl, rfl, rfl⟩
    · exact ⟨.minutes, rfl, rfl, rfl⟩
    · exact ⟨.seconds, rfl, rfl, rfl⟩
  · rintro ⟨m, rfl, rfl, rfl⟩
    cases m <;> rfl

/-- The reading after a component. -/
def Reading.after (r : Reading) (p : Part) : Reading :=
  ⟨[], r.inTime, p.measure.place, r.millis + p.millis, r.hasTime || r.inTime⟩

/-- A designator is taken exactly if it ends a component that may stand there. -/
theorem Reading.close_eq_ok_iff {r r' : Reading} {c : Char} (hnumber : Numeric r.number) :
    r.close c = .ok r' ↔
      ∃ p : Part, p.number = r.number ∧ p.measure.designator = c ∧ p.measure.inTime = r.inTime ∧
        r.rank < p.measure.place ∧ r.millis + p.millis ≤ maxWord64 ∧ r' = r.after p := by
  constructor
  · intro h
    by_cases hne : r.number = []
    · rw [Reading.close, if_pos hne] at h
      cases h
    simp only [Reading.close, if_neg hne, bind, Except.bind] at h
    split at h
    · cases h
    next component hcomponent =>
      obtain ⟨m, htime, hdesignator, rfl⟩ := component?_eq_ok_iff.mp hcomponent
      by_cases hrank : m.place ≤ r.rank
      · rw [if_pos hrank] at h
        cases h
      rw [if_neg hrank] at h
      dsimp only at h
      split at h
      · cases h
      next total htotal =>
        obtain ⟨n, hn, hfits⟩ := Option.bind_eq_some_iff.mp htotal
        obtain ⟨rfl, hle⟩ := fitting?_eq_some_iff.mp hfits
        obtain ⟨p, rfl, hp, rfl, -⟩ := exists_part_of_amount? hnumber hn
        cases h
        exact ⟨p, hp, hdesignator, htime, Nat.not_le.mp hrank, hle, rfl⟩
  · rintro ⟨p, hp, rfl, htime, hrank, hfits, rfl⟩
    have hne : r.number ≠ [] := by
      rw [← hp, Part.number]
      exact List.append_ne_nil_of_left_ne_nil p.whole_ne_nil _
    have hcomponent : component? r.inTime p.measure.designator =
        .ok ⟨p.measure.place, p.measure.unit⟩ :=
      component?_eq_ok_iff.mpr ⟨p.measure, htime, rfl, rfl⟩
    have hamount := amount?_number p (by omega)
    rw [hp, amount?] at hamount
    have hfitting : fitting? (r.millis + p.millis) = some (r.millis + p.millis) :=
      fitting?_eq_some_iff.mpr ⟨rfl, hfits⟩
    simp only [Reading.close, bind, Except.bind, hcomponent, hamount, Option.bind_some, hfitting,
      if_neg hne, if_neg (Nat.not_le.mpr hrank)]
    rfl

theorem Measure.not_numeric (m : Measure) :
    ¬(m.designator.isDigit = true ∨ m.designator = '.') := by
  cases m <;> decide

/-- Behind a number every letter is taken for a designator. -/
theorem Reading.step_eq_close {r : Reading} {c : Char} (hc : ¬(c.isDigit = true ∨ c = '.'))
    (hmark : ¬(c = 'T' ∧ r.inTime = false ∧ r.number = [])) : r.step c = r.close c := by
  rw [Reading.step, if_neg hc, if_neg hmark]

/-- Digits and points are kept until their designator comes. -/
theorem foldlM_numeric {number : List Char} (h : Numeric number) (r : Reading) :
    number.foldlM Reading.step r = .ok { r with number := r.number ++ number } := by
  induction number generalizing r with
  | nil => simp [pure, Except.pure]
  | cons c rest ih =>
    have hstep : r.step c = .ok { r with number := r.number ++ [c] } :=
      if_pos (h c List.mem_cons_self)
    rw [List.foldlM_cons, hstep]
    show rest.foldlM Reading.step _ = _
    rw [ih fun d hd => h d (List.mem_cons_of_mem c hd)]
    simp

/-- A component that may stand next is read. -/
theorem foldlM_part {r : Reading} {p : Part} (hnumber : r.number = [])
    (htime : p.measure.inTime = r.inTime) (hrank : r.rank < p.measure.place)
    (hfits : r.millis + p.millis ≤ maxWord64) :
    p.chars.foldlM Reading.step r = .ok (r.after p) := by
  have hne : p.number ≠ [] := List.append_ne_nil_of_left_ne_nil p.whole_ne_nil _
  have hstep : Reading.step { r with number := p.number } p.measure.designator =
      .ok (r.after p) := by
    rw [Reading.step_eq_close p.measure.not_numeric fun h => hne h.2.2]
    exact (Reading.close_eq_ok_iff p.numeric).mpr ⟨p, rfl, rfl, htime, hrank, hfits, rfl⟩
  rw [Part.chars, List.foldlM_append, foldlM_numeric p.numeric, hnumber, List.nil_append]
  show [p.measure.designator].foldlM Reading.step _ = _
  rw [List.foldlM_cons, hstep]
  rfl

/-! ### A text up to a point -/

/-- What the reader holds after components, the `T` if it has come, and the number behind them. -/
def Reading.of (parts : List Part) (marked : Bool) (number : List Char) : Reading :=
  ⟨number, marked, parts.getLast?.elim 0 fun p => p.measure.place, total parts,
    marked && parts.any fun p => p.measure.inTime⟩

/-- Components, a `T` or none and a number that a text may begin with. -/
structure Begins (parts : List Part) (marked : Bool) (number : List Char) : Prop where
  ascending : Ascending parts
  unmarked : marked = false → ∀ p ∈ parts, p.measure.inTime = false
  fits : total parts ≤ maxWord64
  numeric : Numeric number

theorem total_append (parts rest : List Part) :
    total (parts ++ rest) = total parts + total rest := by
  simp [total]

@[simp] theorem total_singleton (p : Part) : total [p] = p.millis := by
  simp [total]

theorem written_append (parts : List Part) (p : Part) :
    written (parts ++ [p]) p.measure.inTime = written parts p.measure.inTime ++ p.chars := by
  cases h : p.measure.inTime <;> simp [written, h]

theorem written_mark {parts : List Part} (h : ∀ p ∈ parts, p.measure.inTime = false) :
    written parts true = written parts false ++ ['T'] := by
  have hnone : parts.filter (fun p => p.measure.inTime) = [] :=
    List.filter_eq_nil_iff.mpr fun p hp => by simp [h p hp]
  simp [written, hnone]

theorem of_append (parts : List Part) (p : Part) (number : List Char) :
    Reading.of (parts ++ [p]) p.measure.inTime [] =
      (Reading.of parts p.measure.inTime number).after p := by
  simp only [Reading.of, Reading.after, total_append, total_singleton]
  cases h : p.measure.inTime <;> simp [h]

theorem of_mark {parts : List Part} (h : ∀ p ∈ parts, p.measure.inTime = false) :
    Reading.of parts true [] = { Reading.of parts false [] with inTime := true } := by
  simp only [Reading.of, Bool.true_and, Bool.false_and, Reading.mk.injEq, true_and]
  exact List.any_eq_false.mpr fun p hp => by simp [h p hp]

/-- The components so far stand before what may come after the last of them. -/
theorem Ascending.le_rank {parts : List Part} (h : Ascending parts) {p : Part} (hp : p ∈ parts) :
    p.measure.place ≤ parts.getLast?.elim 0 fun p => p.measure.place := by
  induction parts using List.reverseRecOn with
  | nil => cases hp
  | append_singleton front last _ =>
    rw [List.getLast?_concat, Option.elim_some]
    rcases List.mem_append.mp hp with hfront | hlast
    · exact Nat.le_of_lt ((List.pairwise_append.mp h).2.2 p hfront last (by simp))
    · exact Nat.le_of_eq (congrArg (fun p => p.measure.place) (List.mem_singleton.mp hlast))

theorem ascending_append {parts : List Part} {p : Part} :
    Ascending (parts ++ [p]) ↔
      Ascending parts ∧ ∀ q ∈ parts, q.measure.place < p.measure.place := by
  simp [Ascending, List.pairwise_append]

/-- A component after the `T` is followed by none before it. -/
theorem Measure.inTime_of_place_lt {m n : Measure} (h : m.place < n.place)
    (hn : n.inTime = false) : m.inTime = false := by
  cases n <;> cases hn <;> cases m <;> first | rfl | exact absurd h (by decide)

/-- The last component stands behind all the others. -/
theorem Ascending.rank_lt {parts : List Part} {p : Part} (h : Ascending (parts ++ [p])) :
    (Reading.of parts p.measure.inTime []).rank < p.measure.place := by
  obtain ⟨-, hbefore⟩ := ascending_append.mp h
  show (parts.getLast?.elim 0 fun p => p.measure.place) < _
  cases hlast : parts.getLast? with
  | none => cases hm : p.measure <;> decide
  | some last => exact hbefore last (List.mem_of_getLast? hlast)

/-- A character that is taken makes a longer beginning of a duration. -/
theorem Begins.step {parts : List Part} {marked : Bool} {number : List Char}
    (h : Begins parts marked number) {c : Char} {r : Reading}
    (hstep : (Reading.of parts marked number).step c = .ok r) :
    ∃ parts' marked' number', Begins parts' marked' number' ∧
      written parts marked ++ number ++ [c] = written parts' marked' ++ number' ∧
        r = .of parts' marked' number' := by
  by_cases hc : c.isDigit = true ∨ c = '.'
  · -- a digit or a point
    rw [Reading.step, if_pos hc] at hstep
    cases hstep
    refine ⟨parts, marked, number ++ [c], ⟨h.ascending, h.unmarked, h.fits, ?_⟩, by simp, rfl⟩
    intro d hd
    rcases List.mem_append.mp hd with hd | hd
    · exact h.numeric d hd
    · rwa [List.mem_singleton.mp hd]
  by_cases hmark : c = 'T' ∧ marked = false ∧ number = []
  · -- the `T`
    obtain ⟨rfl, rfl, rfl⟩ := hmark
    cases hstep
    have hdates := h.unmarked rfl
    exact ⟨parts, true, [], ⟨h.ascending, by simp, h.fits, h.numeric⟩,
      by simp [written_mark hdates], (of_mark hdates).symm⟩
  · -- a designator
    rw [Reading.step_eq_close hc hmark] at hstep
    obtain ⟨p, hnumber, rfl, htime, hrank, hfits, rfl⟩ :=
      (Reading.close_eq_ok_iff h.numeric).mp hstep
    obtain rfl : p.number = number := hnumber
    obtain rfl : p.measure.inTime = marked := htime
    refine ⟨parts ++ [p], p.measure.inTime, [], ⟨?_, ?_, ?_, by simp [Numeric]⟩, ?_,
      (of_append parts p p.number).symm⟩
    · exact ascending_append.mpr ⟨h.ascending, fun q hq =>
        Nat.lt_of_le_of_lt (h.ascending.le_rank hq) hrank⟩
    · intro hdate q hq
      rcases List.mem_append.mp hq with hq | hq
      · exact h.unmarked hdate q hq
      · rwa [List.mem_singleton.mp hq]
    · rw [total_append, total_singleton]
      exact hfits
    · rw [List.append_nil, written_append, Part.chars, List.append_assoc]

/-- A longer text is read if what comes before its last character is. -/
theorem foldlM_concat_eq_ok_iff {front : List Char} {c : Char} {r r' : Reading} :
    (front ++ [c]).foldlM Reading.step r = .ok r' ↔
      ∃ before, front.foldlM Reading.step r = .ok before ∧ before.step c = .ok r' := by
  rw [List.foldlM_append]
  cases front.foldlM Reading.step r with
  | error e => simp [bind, Except.bind]
  | ok before =>
    show [c].foldlM Reading.step before = _ ↔ _
    rw [List.foldlM_cons]
    cases hstep : before.step c <;> simp [hstep, bind, Except.bind, pure, Except.pure]

/-- **What was read up to any point is the beginning of a duration, and the total is its worth.** -/
theorem begins_of_ok {front : List Char} {r : Reading}
    (h : front.foldlM Reading.step {} = .ok r) :
    ∃ parts marked number, Begins parts marked number ∧
      front = written parts marked ++ number ∧ r = .of parts marked number := by
  induction front using List.reverseRecOn generalizing r with
  | nil =>
    cases h
    exact ⟨[], false, [], ⟨.nil, by simp, Nat.zero_le _, by simp [Numeric]⟩, rfl, rfl⟩
  | append_singleton front c ih =>
    obtain ⟨before, hfront, hstep⟩ := foldlM_concat_eq_ok_iff.mp h
    obtain ⟨parts, marked, number, hbegins, rfl, rfl⟩ := ih hfront
    exact hbegins.step hstep

/-- Components in writing are read. -/
theorem foldlM_written {parts : List Part} {marked : Bool} (h : Begins parts marked []) :
    (written parts marked).foldlM Reading.step {} = .ok (.of parts marked []) := by
  induction parts using List.reverseRecOn generalizing marked with
  | nil => cases marked <;> rfl
  | append_singleton front p ih =>
    obtain ⟨hascending, hbefore⟩ := ascending_append.mp h.ascending
    have hfits := h.fits
    rw [total_append, total_singleton] at hfits
    have hdates : p.measure.inTime = false → ∀ q ∈ front, q.measure.inTime = false :=
      fun hdate q hq => Measure.inTime_of_place_lt (hbefore q hq) hdate
    -- up to the last component, with the `T` if the component needs it
    have hread : (written (front ++ [p]) p.measure.inTime).foldlM Reading.step {} =
        .ok (.of (front ++ [p]) p.measure.inTime []) := by
      rw [written_append, List.foldlM_append,
        ih ⟨hascending, hdates, by omega, h.numeric⟩, of_append front p []]
      exact foldlM_part rfl rfl h.ascending.rank_lt hfits
    cases hp : p.measure.inTime with
    | true =>
      obtain rfl : marked = true := by
        cases hmarked : marked with
        | true => rfl
        | false =>
          have hdate := h.unmarked hmarked p (by simp)
          rw [hp] at hdate
          cases hdate
      rwa [hp] at hread
    | false =>
      rw [hp] at hread
      cases marked with
      | false => exact hread
      | true =>
        have hall : ∀ q ∈ front ++ [p], q.measure.inTime = false := by
          intro q hq
          rcases List.mem_append.mp hq with hq | hq
          · exact hdates hp q hq
          · rwa [List.mem_singleton.mp hq]
        rw [written_mark hall, foldlM_concat_eq_ok_iff]
        exact ⟨_, hread, congrArg Except.ok (of_mark hall).symm⟩

/-! ### The numbers in a reading -/

/-- Each component is worth at most the total. -/
theorem millis_le_total {parts : List Part} {p : Part} (hp : p ∈ parts) :
    p.millis ≤ total parts := by
  obtain ⟨front, back, rfl⟩ := List.append_of_mem hp
  rw [total_append, show p :: back = [p] ++ back from rfl, total_append, total_singleton]
  omega

/-- The number of a component and its product with the unit are at most what it is worth. -/
theorem Part.factors_le (p : Part) :
    Decimal.value p.whole ≤ Decimal.value p.whole * p.measure.unit ∧
      Decimal.value p.whole * p.measure.unit ≤ p.millis :=
  ⟨Nat.le_mul_of_pos_right _ p.measure.unit_pos, Nat.le_add_right _ _⟩

/-- There are no more components than places. -/
theorem Ascending.length_le {parts : List Part} (h : Ascending parts) : parts.length ≤ 5 := by
  have hrank : parts.length ≤ parts.getLast?.elim 0 fun p => p.measure.place := by
    induction parts using List.reverseRecOn with
    | nil => exact Nat.le_refl 0
    | append_singleton front last ih =>
      have hlast : (front.getLast?.elim 0 fun p => p.measure.place) < last.measure.place :=
        h.rank_lt
      have hfront := ih (ascending_append.mp h).1
      rw [List.getLast?_concat, Option.elim_some, List.length_append, List.length_singleton]
      omega
  cases hlast : parts.getLast? with
  | none =>
    rw [List.getLast?_eq_none_iff.mp hlast]
    exact Nat.zero_le 5
  | some last =>
    rw [hlast, Option.elim_some] at hrank
    exact Nat.le_trans hrank (by cases last.measure <;> decide)

/-! ### The end of the text -/

theorem Measure.place_pos (m : Measure) : 0 < m.place := by
  cases m <;> decide

theorem Reading.finish_eq_ok_iff {r : Reading} {d : Duration} :
    r.finish = .ok d ↔
      r.number = [] ∧ r.rank ≠ 0 ∧ (r.inTime = true → r.hasTime = true) ∧
        d = Duration.ofMillis r.millis := by
  unfold Reading.finish
  split
  next hbad =>
    simp only [reduceCtorEq, false_iff]
    rintro ⟨hnumber, hrank, htime, -⟩
    rcases hbad with h | h | ⟨h, hnone⟩
    · exact h hnumber
    · exact hrank h
    · rw [htime h] at hnone
      cases hnone
  next hgood =>
    simp only [not_or, not_and, Bool.not_eq_false, Decidable.not_not] at hgood
    simp only [Except.ok.injEq]
    exact ⟨fun heq => ⟨hgood.1, hgood.2.1, hgood.2.2, heq.symm⟩, fun h => h.2.2.2.symm⟩

theorem Reading.rank_of_eq_zero_iff {parts : List Part} {marked : Bool} {number : List Char} :
    (Reading.of parts marked number).rank = 0 ↔ parts = [] := by
  show (parts.getLast?.elim 0 fun p => p.measure.place) = 0 ↔ _
  cases hlast : parts.getLast? with
  | none => simpa using hlast
  | some last =>
    have hne : parts ≠ [] := List.ne_nil_of_mem (List.mem_of_getLast? hlast)
    simp [hne, Nat.ne_of_gt last.measure.place_pos]

/-- A text may end behind a component, and a `T` must have been needed. -/
theorem Reading.finish_of_eq_ok_iff {parts : List Part} {marked : Bool} {number : List Char}
    {d : Duration} :
    (Reading.of parts marked number).finish = .ok d ↔
      number = [] ∧ parts ≠ [] ∧ (marked = true → (parts.any fun p => p.measure.inTime) = true) ∧
        d = Duration.ofMillis (total parts) := by
  rw [Reading.finish_eq_ok_iff, Ne, Reading.rank_of_eq_zero_iff]
  simp only [Reading.of]
  cases marked <;> simp

/-- A text that begins with another letter is not a duration. -/
theorem parseChars_eq_ok_iff_body {text : List Char} {d : Duration} :
    parseChars text = .ok d ↔
      ∃ body r, text = 'P' :: body ∧ body.foldlM Reading.step {} = .ok r ∧ r.finish = .ok d := by
  unfold parseChars
  split
  next body =>
    cases hread : body.foldlM Reading.step {} with
    | error e => simp [hread, Except.bind]
    | ok r => simp [hread, Except.bind]
  next htext =>
    simp only [reduceCtorEq, false_iff]
    rintro ⟨body, r, rfl, -⟩
    exact htext body rfl

/-- **A text is read as a duration exactly if it is one in writing whose total fits.** -/
theorem parseChars_eq_ok_iff {text : List Char} {d : Duration} :
    parseChars text = .ok d ↔
      ∃ s : Spelling, text = s.chars ∧ s.millis ≤ maxWord64 ∧ d = Duration.ofMillis s.millis := by
  rw [parseChars_eq_ok_iff_body]
  constructor
  · rintro ⟨body, r, rfl, hread, hfinish⟩
    obtain ⟨parts, marked, number, hbegins, rfl, rfl⟩ := begins_of_ok hread
    obtain ⟨rfl, hne, hmark, rfl⟩ := Reading.finish_of_eq_ok_iff.mp hfinish
    have hmarked : marked = parts.any fun p => p.measure.inTime := by
      cases marked with
      | true => exact (hmark rfl).symm
      | false =>
        exact (List.any_eq_false.mpr fun p hp => by simp [hbegins.unmarked rfl p hp]).symm
    refine ⟨⟨parts, hne, hbegins.ascending⟩, ?_, hbegins.fits, rfl⟩
    rw [Spelling.chars, ← hmarked, List.append_nil]
  · rintro ⟨s, rfl, hfits, rfl⟩
    have hbegins : Begins s.parts (s.parts.any fun p => p.measure.inTime) [] :=
      ⟨s.ascending, fun h p hp => by simpa using List.any_eq_false.mp h p hp, hfits,
        by simp [Numeric]⟩
    exact ⟨_, _, rfl, foldlM_written hbegins,
      Reading.finish_of_eq_ok_iff.mpr ⟨rfl, s.parts_ne_nil, id, rfl⟩⟩

end Workflow.IsoDuration
