/-
Decimal numerals that are written are read.

A numeral with zeros in front is a run of digits whose value is the number, and it has the width
that was asked for if the number has room in it.  So a reader that takes digits while there are any,
or a certain number of them, gets the number back and stops where the numeral ends.
-/
import Mathlib.Algebra.Group.Nat.Defs
import Workflow.Text.Decimal

namespace Workflow

/-- A reader goes on with what was read first. -/
theorem read_then {α β : Type} {first : Option α} {rest : α → Option β} {x : α} {y : β}
    (hfirst : first = some x) (hrest : rest x = some y) : (first >>= rest) = some y :=
  Option.bind_eq_some_iff.mpr ⟨x, hfirst, hrest⟩

/-- A text without a character is all that stands in front of the character. -/
theorem split_of_not_mem {mark : Char} {text : List Char} (h : mark ∉ text) :
    text.takeWhile (· ≠ mark) = text ∧ text.dropWhile (· ≠ mark) = [] := by
  have hall : ∀ c ∈ text, decide (c ≠ mark) = true :=
    fun _ hc => decide_eq_true fun heq => h (heq ▸ hc)
  constructor
  · have htake : (text ++ []).takeWhile (· ≠ mark) = text ++ [] :=
      List.takeWhile_append_of_pos hall
    rwa [List.append_nil] at htake
  · have hdrop : (text ++ []).dropWhile (· ≠ mark) = [] := List.dropWhile_append_of_pos hall
    rwa [List.append_nil] at hdrop

/-- A text is split at the first place of a character. -/
theorem split_at_first {mark : Char} {front : List Char} (h : mark ∉ front) (rest : List Char) :
    (front ++ mark :: rest).takeWhile (· ≠ mark) = front ∧
      (front ++ mark :: rest).dropWhile (· ≠ mark) = mark :: rest := by
  have hall : ∀ c ∈ front, decide (c ≠ mark) = true :=
    fun _ hc => decide_eq_true fun heq => h (heq ▸ hc)
  rw [List.takeWhile_append_of_pos hall, List.dropWhile_append_of_pos hall]
  simp

namespace Decimal

theorem value_eq_ofDigitChars (text : List Char) : value text = Nat.ofDigitChars 10 text 0 :=
  Nat.ofDigitChars_eq_foldl.symm

theorem value_padded (width n : Nat) : value (padded width n) = n := by
  rw [value_eq_ofDigitChars]
  show Nat.ofDigitChars 10 (List.replicate _ '0' ++ Nat.toDigits 10 n) 0 = n
  rw [Nat.ofDigitChars_append, Nat.ofDigitChars_replicate_zero, Nat.mul_zero,
    Nat.ofDigitChars_ten_toDigits]

theorem isDigit_of_mem_padded {width n : Nat} {c : Char} (h : c ∈ padded width n) :
    c.isDigit = true := by
  rcases List.mem_append.mp h with hzero | hdigit
  · rw [List.eq_of_mem_replicate hzero]
    decide
  · exact Nat.isDigit_of_mem_toDigits (by decide) (by decide) hdigit

theorem padded_ne_nil (width n : Nat) : padded width n ≠ [] := by
  show List.replicate _ '0' ++ Nat.toDigits 10 n ≠ []
  exact List.append_ne_nil_of_right_ne_nil _ Nat.toDigits_ne_nil

theorem padded_zero (n : Nat) : padded 0 n = digits n := by
  simp [padded]

theorem value_digits (n : Nat) : value (digits n) = n :=
  padded_zero n ▸ value_padded 0 n

theorem isDigit_of_mem_digits {n : Nat} {c : Char} (h : c ∈ digits n) : c.isDigit = true :=
  isDigit_of_mem_padded (padded_zero n ▸ h)

theorem digits_ne_nil (n : Nat) : digits n ≠ [] :=
  padded_zero n ▸ padded_ne_nil 0 n

/-- A numeral begins with a digit. -/
theorem exists_padded_eq_cons (width n : Nat) :
    ∃ first digits, padded width n = first :: digits ∧ first.isDigit = true := by
  obtain ⟨first, digits, hpadded⟩ := List.exists_cons_of_ne_nil (padded_ne_nil width n)
  have hmem : first ∈ padded width n := by
    rw [hpadded]
    exact List.mem_cons_self
  exact ⟨first, digits, hpadded, isDigit_of_mem_padded hmem⟩

/-- A number that has room in a width is written with that width. -/
theorem length_padded {width n : Nat} (hpos : 0 < width) (hlt : n < 10 ^ width) :
    (padded width n).length = width := by
  have hle : (Nat.toDigits 10 n).length ≤ width :=
    (Nat.length_toDigits_le_iff (by decide) hpos).mpr hlt
  show (List.replicate (width - (Nat.toDigits 10 n).length) '0' ++ Nat.toDigits 10 n).length = width
  rw [List.length_append, List.length_replicate, Nat.sub_add_cancel hle]

/-- Zeros behind a numeral multiply it by ten each. -/
theorem value_append_zeros (text : List Char) (k : Nat) :
    value (text ++ List.replicate k '0') = value text * 10 ^ k := by
  rw [value_eq_ofDigitChars, value_eq_ofDigitChars, Nat.ofDigitChars_append,
    Nat.ofDigitChars_replicate_zero, Nat.mul_comm]

/-- A reader with a limit takes the numerals up to the limit, and nothing else. -/
theorem digitsUpTo?_eq_some_iff {limit n : Nat} {text : List Char} :
    digitsUpTo? limit text = some n ↔
      text ≠ [] ∧ (∀ c ∈ text, c.isDigit = true) ∧ value text = n ∧ n ≤ limit := by
  simp only [digitsUpTo?, digits?, Option.filter_eq_some_iff, decide_eq_true_eq,
    Option.ite_none_right_eq_some, List.all_eq_true, Option.some.injEq]
  exact ⟨fun ⟨⟨⟨hne, hall⟩, heq⟩, hle⟩ => ⟨hne, hall, heq, hle⟩,
    fun ⟨hne, hall, heq, hle⟩ => ⟨⟨⟨hne, hall⟩, heq⟩, hle⟩⟩

/-- A reader of unsigned numbers takes a numeral, with a `+` in front or none. -/
theorem unsigned?_eq_some_iff {limit n : Nat} {text : List Char} :
    unsigned? limit text = some n ↔
      digitsUpTo? limit text = some n ∨
        ∃ digits, text = '+' :: digits ∧ digitsUpTo? limit digits = some n := by
  unfold unsigned?
  split
  next rest =>
    have hplus : digitsUpTo? limit ('+' :: rest) ≠ some n := fun h => by
      cases (digitsUpTo?_eq_some_iff.mp h).2.1 '+' List.mem_cons_self
    simp [hplus]
  next hother =>
    refine ⟨.inl, ?_⟩
    rintro (h | ⟨digits, rfl, -⟩)
    · exact h
    · exact absurd rfl (hother digits)

theorem le_of_unsigned? {limit n : Nat} {text : List Char} (h : unsigned? limit text = some n) :
    n ≤ limit := by
  rcases unsigned?_eq_some_iff.mp h with hread | ⟨_, -, hread⟩ <;>
    exact (digitsUpTo?_eq_some_iff.mp hread).2.2.2

/-- What is read as an unsigned number is digits, and perhaps a `+` in front of them. -/
theorem isDigit_of_unsigned? {limit n : Nat} {front back : List Char} {c : Char}
    (h : unsigned? limit (front ++ c :: back) = some n) (hc : c ≠ '+' ∨ front ≠ []) :
    c.isDigit = true := by
  rcases unsigned?_eq_some_iff.mp h with hread | ⟨digits, heq, hread⟩
  · exact (digitsUpTo?_eq_some_iff.mp hread).2.1 c (by simp)
  · have hdigits := (digitsUpTo?_eq_some_iff.mp hread).2.1
    cases front with
    | nil =>
      cases heq
      simp at hc
    | cons first front =>
      cases heq
      exact hdigits c (by simp)

/-! ### Where a numeral ends -/

/-- What follows a numeral does not go on with a digit. -/
def Ends (rest : List Char) : Prop := ∀ c ∈ rest.head?, c.isDigit = false

theorem ends_nil : Ends [] := fun _ h => by cases h

theorem ends_cons {c : Char} {rest : List Char} (h : c.isDigit = false) : Ends (c :: rest) := by
  rintro _ ⟨⟩
  exact h

theorem takeWhile_padded (width n : Nat) {rest : List Char} (hends : Ends rest) :
    (padded width n ++ rest).takeWhile Char.isDigit = padded width n := by
  rw [List.takeWhile_append_of_pos fun c hc => isDigit_of_mem_padded hc]
  cases rest with
  | nil => simp
  | cons c rest => simp [hends c rfl]

theorem dropWhile_padded (width n : Nat) {rest : List Char} (hends : Ends rest) :
    (padded width n ++ rest).dropWhile Char.isDigit = rest := by
  rw [List.dropWhile_append_of_pos fun c hc => isDigit_of_mem_padded hc]
  cases rest with
  | nil => simp
  | cons c rest => simp [hends c rfl]

end Decimal

end Workflow
