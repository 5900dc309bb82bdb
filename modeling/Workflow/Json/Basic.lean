/-
JSON values.

A number is an exact integer or one of double precision, never both, so 1 and 1.0 differ.  The
members of an object are a list, of which the first with a name counts.  Equality of values is
decidable; it tells the two zeros apart, which `plainZeros` undoes.
-/
import Workflow.Number.Binary64

namespace Workflow

/-- A JSON value. -/
inductive Json where
  /-- The null value. -/
  | null
  /-- A truth value. -/
  | bool (value : Bool)
  /-- A number without a fraction. -/
  | int (value : Int)
  /-- A number with a fraction, or beyond the range of integers. -/
  | real (value : Binary64)
  /-- A text. -/
  | str (text : String)
  /-- A list of values. -/
  | arr (items : List Json)
  /-- Named values. -/
  | obj (members : List (String × Json))
deriving Inhabited

namespace Json

mutual

/-- Whether two values are the same. -/
def same : Json → Json → Bool
  | .null, .null => true
  | .bool a, .bool b => a == b
  | .int a, .int b => a == b
  | .real a, .real b => a == b
  | .str a, .str b => a == b
  | .arr xs, .arr ys => sameItems xs ys
  | .obj xs, .obj ys => sameMembers xs ys
  | _, _ => false

/-- Whether two lists of values are the same. -/
def sameItems : List Json → List Json → Bool
  | [], [] => true
  | x :: xs, y :: ys => same x y && sameItems xs ys
  | _, _ => false

/-- Whether two lists of members are the same. -/
def sameMembers : List (String × Json) → List (String × Json) → Bool
  | [], [] => true
  | (k, x) :: xs, (l, y) :: ys => k == l && same x y && sameMembers xs ys
  | _, _ => false

end

mutual

theorem same_self : ∀ a, same a a = true
  | .null => by simp [same]
  | .bool _ => by simp [same]
  | .int _ => by simp [same]
  | .real _ => by simp [same]
  | .str _ => by simp [same]
  | .arr xs => by simp [same, sameItems_self xs]
  | .obj xs => by simp [same, sameMembers_self xs]

theorem sameItems_self : ∀ xs, sameItems xs xs = true
  | [] => by simp [sameItems]
  | x :: xs => by simp [sameItems, same_self x, sameItems_self xs]

theorem sameMembers_self : ∀ xs, sameMembers xs xs = true
  | [] => by simp [sameMembers]
  | (k, x) :: xs => by simp [sameMembers, same_self x, sameMembers_self xs]

end

mutual

theorem eq_of_same : ∀ a b, same a b = true → a = b := by
  intro a b h
  cases a <;> cases b <;> simp_all [same]
  · exact eq_of_sameItems _ _ h
  · exact eq_of_sameMembers _ _ h

theorem eq_of_sameItems : ∀ xs ys, sameItems xs ys = true → xs = ys := by
  intro xs ys h
  cases xs <;> cases ys <;> simp_all [sameItems]
  exact ⟨eq_of_same _ _ h.1, eq_of_sameItems _ _ h.2⟩

theorem eq_of_sameMembers : ∀ xs ys, sameMembers xs ys = true → xs = ys := by
  intro xs ys h
  rcases xs with _ | ⟨⟨k, x⟩, xs⟩ <;> rcases ys with _ | ⟨⟨l, y⟩, ys⟩ <;> simp_all [sameMembers]
  exact ⟨eq_of_same _ _ h.1.2, eq_of_sameMembers _ _ h.2⟩

end

instance : DecidableEq Json := fun a b =>
  decidable_of_iff (same a b = true) ⟨eq_of_same a b, fun h => h ▸ same_self a⟩

/-- The value of a member; only an object has members. -/
def member? (json : Json) (name : String) : Option Json :=
  match json with
  | .obj members => members.lookup name
  | _ => none

mutual

/-- The value with plain zeros in place of those with a minus sign. -/
def plainZeros : Json → Json
  | .real value => .real value.plainZero
  | .arr items => .arr (plainZerosItems items)
  | .obj members => .obj (plainZerosMembers members)
  | json => json

/-- The values with plain zeros. -/
def plainZerosItems : List Json → List Json
  | [] => []
  | x :: xs => plainZeros x :: plainZerosItems xs

/-- The members with plain zeros. -/
def plainZerosMembers : List (String × Json) → List (String × Json)
  | [] => []
  | (name, x) :: xs => (name, plainZeros x) :: plainZerosMembers xs

end

/--
Puts a member into a list in ascending order of names, in place of the one with its name if there
is one.
-/
def putMember {α : Type} (name : String) (value : α) : List (String × α) → List (String × α)
  | [] => [(name, value)]
  | other :: rest =>
      if name < other.1 then (name, value) :: other :: rest
      else if name = other.1 then (name, value) :: rest
      else other :: putMember name value rest

end Json

end Workflow
