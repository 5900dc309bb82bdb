/-
What a sorted collection asks of its keys: a strict total order that can be decided.

Only three laws are needed: nothing precedes itself, precedence is transitive, and of two
different keys one precedes the other.  They are what makes the sorted form of a finite set of
keys unique, so two collections with the same contents are equal.
-/

namespace Workflow

/-- The relation `<` is a strict total order. -/
class StrictOrder (κ : Type) [LT κ] : Prop where
  /-- Nothing precedes itself. -/
  irrefl : ∀ a : κ, ¬ a < a
  /-- Precedence is transitive. -/
  trans : ∀ {a b c : κ}, a < b → b < c → a < c
  /-- Of two different keys one precedes the other. -/
  connected : ∀ a b : κ, a < b ∨ a = b ∨ b < a

namespace StrictOrder

variable {κ : Type} [LT κ] [StrictOrder κ]

theorem ne_of_lt {a b : κ} (h : a < b) : a ≠ b := fun e => irrefl b (e ▸ h)

theorem asymm {a b : κ} (h : a < b) : ¬ b < a := fun h' => irrefl a (trans h h')

/-- A key that neither precedes nor equals another one follows it. -/
theorem lt_of_not_lt {a b : κ} (h : ¬ a < b) (hne : a ≠ b) : b < a := by
  rcases connected a b with h' | h' | h'
  · exact absurd h' h
  · exact absurd h' hne
  · exact h'

end StrictOrder

instance : StrictOrder Nat where
  irrefl := Nat.lt_irrefl
  trans := Nat.lt_trans
  connected := Nat.lt_trichotomy

instance : StrictOrder Int where
  irrefl := Int.lt_irrefl
  trans := Int.lt_trans
  connected := Int.lt_trichotomy

instance : StrictOrder String where
  irrefl := String.lt_irrefl
  trans := String.lt_trans
  connected a b := by
    rcases String.le_total a b with h | h
    · by_cases hba : b ≤ a
      · exact Or.inr (Or.inl (String.le_antisymm h hba))
      · exact Or.inl (String.not_le.1 hba)
    · by_cases hab : a ≤ b
      · exact Or.inr (Or.inl (String.le_antisymm hab h))
      · exact Or.inr (Or.inr (String.not_le.1 hab))

end Workflow
