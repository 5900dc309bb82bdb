/-
Finite sets kept as an ascending list without repetitions.

Membership is the view: insertion and removal are described by what they do to it, and two sets
with the same members are equal (`SortedSet.ext_mem`).
-/
import Workflow.Sorted.Order

namespace Workflow

/-- A finite set whose members are kept in ascending order. -/
structure SortedSet (κ : Type) [LT κ] where
  /-- The members, in ascending order. -/
  members : List κ
  /-- The members ascend strictly, so none occurs twice. -/
  ascending : members.Pairwise (· < ·)

namespace SortedSet

variable {κ : Type} [LT κ]

/-- The set without members. -/
def empty : SortedSet κ := ⟨[], List.Pairwise.nil⟩

instance : Inhabited (SortedSet κ) := ⟨empty⟩

instance : Membership κ (SortedSet κ) := ⟨fun s k => k ∈ s.members⟩

/-- The members in ascending order. -/
def toList (s : SortedSet κ) : List κ := s.members

/-- How many members there are. -/
def size (s : SortedSet κ) : Nat := s.members.length

theorem mem_iff (s : SortedSet κ) (k : κ) : k ∈ s ↔ k ∈ s.toList := Iff.rfl

@[simp] theorem not_mem_empty (k : κ) : ¬ k ∈ (empty : SortedSet κ) := List.not_mem_nil

section Decidable

variable [DecidableEq κ]

instance (k : κ) (s : SortedSet κ) : Decidable (k ∈ s) :=
  inferInstanceAs (Decidable (k ∈ s.members))

/-- Whether `k` is a member. -/
def contains (s : SortedSet κ) (k : κ) : Bool := decide (k ∈ s)

/-- Removes `k`. -/
def erase (s : SortedSet κ) (k : κ) : SortedSet κ :=
  ⟨s.members.filter (fun x => decide (x ≠ k)), s.ascending.filter _⟩

@[simp] theorem mem_erase (s : SortedSet κ) (k k' : κ) : k' ∈ s.erase k ↔ k' ∈ s ∧ k' ≠ k := by
  simp [mem_iff, toList, erase]

end Decidable

/-- Keeps the members that satisfy `keep`. -/
def filter (s : SortedSet κ) (keep : κ → Bool) : SortedSet κ :=
  ⟨s.members.filter keep, s.ascending.filter _⟩

@[simp] theorem mem_filter (s : SortedSet κ) (keep : κ → Bool) (k : κ) :
    k ∈ s.filter keep ↔ k ∈ s ∧ keep k = true := by
  simp [mem_iff, toList, filter]

section Insert

variable [DecidableEq κ] [DecidableLT κ]

/-- Puts a member at its place in an ascending list that may hold it already. -/
def place (k : κ) : List κ → List κ
  | [] => [k]
  | x :: rest =>
      if k < x then k :: x :: rest
      else if x = k then x :: rest
      else x :: place k rest

theorem mem_place {k k' : κ} : ∀ {l : List κ}, k' ∈ place k l ↔ k' = k ∨ k' ∈ l
  | [] => by simp [place]
  | x :: rest => by
      simp only [place]
      split
      · simp
      · split
        · rename_i heq
          subst heq
          simp
        · simp [mem_place (l := rest), or_left_comm]

theorem place_ascending [StrictOrder κ] (k : κ) :
    ∀ {l : List κ}, l.Pairwise (· < ·) → (place k l).Pairwise (· < ·)
  | [], _ => List.pairwise_singleton ..
  | x :: rest, h => by
      have hc := List.pairwise_cons.1 h
      simp only [place]
      split
      · rename_i hlt
        refine List.pairwise_cons.2 ⟨fun y hy => ?_, h⟩
        rcases List.mem_cons.1 hy with rfl | hy
        · exact hlt
        · exact StrictOrder.trans hlt (hc.1 y hy)
      · rename_i hnlt
        split
        · exact h
        · rename_i hne
          refine List.pairwise_cons.2 ⟨fun y hy => ?_, place_ascending k hc.2⟩
          rcases mem_place.1 hy with rfl | hy
          · exact StrictOrder.lt_of_not_lt hnlt (Ne.symm hne)
          · exact hc.1 y hy

variable [StrictOrder κ]

/-- Adds `k`. -/
def insert (s : SortedSet κ) (k : κ) : SortedSet κ :=
  ⟨place k s.members, place_ascending k s.ascending⟩

@[simp] theorem mem_insert (s : SortedSet κ) (k k' : κ) : k' ∈ s.insert k ↔ k' = k ∨ k' ∈ s :=
  mem_place

end Insert

/-- What is taken from the front below a limit are all the members below it. -/
theorem mem_takeWhile_iff (s : SortedSet κ) {below : κ → Bool}
    (hbelow : ∀ a b : κ, a < b → below b = true → below a = true) (k : κ) :
    k ∈ s.toList.takeWhile below ↔ k ∈ s ∧ below k = true := by
  obtain ⟨l, hl⟩ := s
  show k ∈ l.takeWhile below ↔ k ∈ l ∧ below k = true
  induction l with
  | nil => simp
  | cons x rest ih =>
      rw [List.pairwise_cons] at hl
      by_cases hx : below x = true
      · rw [List.takeWhile_cons_of_pos hx, List.mem_cons, List.mem_cons, ih hl.2, or_and_right]
        exact or_congr_left ⟨fun heq => ⟨heq, heq ▸ hx⟩, And.left⟩
      · rw [List.takeWhile_cons_of_neg hx]
        refine ⟨fun h => absurd h List.not_mem_nil, fun ⟨hmem, hk⟩ => ?_⟩
        -- The others come after the first one, so none of them is below the limit either.
        rcases List.mem_cons.1 hmem with rfl | hmem
        · exact absurd hk hx
        · exact absurd (hbelow x k (hl.1 k hmem) hk) hx

/-- Two sets with the same members are the same set. -/
theorem ext_mem [StrictOrder κ] {s t : SortedSet κ} (h : ∀ k, k ∈ s ↔ k ∈ t) : s = t := by
  obtain ⟨l, hl⟩ := s
  obtain ⟨l', hl'⟩ := t
  suffices l = l' by subst this; rfl
  replace h : ∀ k, k ∈ l ↔ k ∈ l' := h
  induction l generalizing l' with
  | nil =>
      cases l' with
      | nil => rfl
      | cons x rest => exact absurd ((h x).2 List.mem_cons_self) List.not_mem_nil
  | cons x rest ih =>
      cases l' with
      | nil => exact absurd ((h x).1 List.mem_cons_self) List.not_mem_nil
      | cons y rest' =>
          rw [List.pairwise_cons] at hl hl'
          have hxy : x = y := by
            rcases StrictOrder.connected x y with hlt | heq | hlt
            · rcases List.mem_cons.1 ((h x).1 List.mem_cons_self) with e | hx
              · exact e
              · exact absurd (hl'.1 x hx) (StrictOrder.asymm hlt)
            · exact heq
            · rcases List.mem_cons.1 ((h y).2 List.mem_cons_self) with e | hy
              · exact e.symm
              · exact absurd (hl.1 y hy) (StrictOrder.asymm hlt)
          subst hxy
          have hrest : rest = rest' := by
            refine ih hl.2 rest' hl'.2 fun k => ⟨fun hk => ?_, fun hk => ?_⟩
            · rcases List.mem_cons.1 ((h k).1 (List.mem_cons_of_mem _ hk)) with rfl | hk'
              · exact absurd (hl.1 k hk) (StrictOrder.irrefl k)
              · exact hk'
            · rcases List.mem_cons.1 ((h k).2 (List.mem_cons_of_mem _ hk)) with rfl | hk'
              · exact absurd (hl'.1 k hk) (StrictOrder.irrefl k)
              · exact hk'
          rw [hrest]

end SortedSet

end Workflow
