/-
Finite maps kept as a list of entries in ascending key order.

A map carries the proof that its keys ascend strictly, so a map has exactly one form: two maps
that answer every lookup alike are equal (`SortedMap.ext_get?`).  `get?` is the view that every
operation is described through; after the lemmas below nobody needs to look at the list again,
except to read the entries in key order with `toList`.
-/
import Workflow.Sorted.Order

namespace Workflow

/-- A finite map whose entries are kept in ascending key order. -/
structure SortedMap (κ α : Type) [LT κ] where
  /-- The entries, in ascending key order. -/
  entries : List (κ × α)
  /-- Keys ascend strictly, so no key occurs twice. -/
  ascending : entries.Pairwise (fun a b => a.1 < b.1)

namespace SortedMap

variable {κ α : Type}

section Association

variable [DecidableEq κ]

/-- The value of the first entry with the key `k`. -/
def lookup (k : κ) : List (κ × α) → Option α
  | [] => none
  | e :: rest => if e.1 = k then some e.2 else lookup k rest

theorem mem_of_lookup {k : κ} {v : α} : ∀ {l : List (κ × α)}, lookup k l = some v → (k, v) ∈ l
  | [], h => by simp [lookup] at h
  | e :: rest, h => by
      by_cases he : e.1 = k
      · simp only [lookup, if_pos he, Option.some.injEq] at h
        subst he h
        exact List.mem_cons_self
      · simp only [lookup, if_neg he] at h
        exact List.mem_cons_of_mem _ (mem_of_lookup h)

end Association

variable [LT κ]

/-- The map without entries. -/
def empty : SortedMap κ α := ⟨[], List.Pairwise.nil⟩

instance : Inhabited (SortedMap κ α) := ⟨empty⟩

/-- The entries in ascending key order. -/
def toList (m : SortedMap κ α) : List (κ × α) := m.entries

/-- The keys in ascending order. -/
def keys (m : SortedMap κ α) : List κ := m.entries.map Prod.fst

/-- The values, in the order of their keys. -/
def values (m : SortedMap κ α) : List α := m.entries.map Prod.snd

/-- How many entries there are. -/
def size (m : SortedMap κ α) : Nat := m.entries.length

/-- Whether there is no entry. -/
def isEmpty (m : SortedMap κ α) : Bool := m.entries.isEmpty

section Lookup

variable [DecidableEq κ]

/-- The value under the key `k`, if there is one. -/
def get? (m : SortedMap κ α) (k : κ) : Option α := lookup k m.entries

/-- Whether the key `k` has an entry. -/
def contains (m : SortedMap κ α) (k : κ) : Bool := (m.get? k).isSome

theorem lookup_of_mem [StrictOrder κ] {k : κ} {v : α} :
    ∀ {l : List (κ × α)}, l.Pairwise (fun a b => a.1 < b.1) → (k, v) ∈ l → lookup k l = some v
  | [], _, h => absurd h List.not_mem_nil
  | e :: rest, hp, h => by
      rw [List.pairwise_cons] at hp
      rcases List.mem_cons.1 h with rfl | h'
      · simp [lookup]
      · have hlt := hp.1 _ h'
        have hne : e.1 ≠ k := StrictOrder.ne_of_lt hlt
        simp only [lookup, if_neg hne]
        exact lookup_of_mem hp.2 h'

/-- An entry is in the list exactly when its key is looked up to its value. -/
theorem mem_toList_iff [StrictOrder κ] (m : SortedMap κ α) (k : κ) (v : α) :
    (k, v) ∈ m.toList ↔ m.get? k = some v :=
  ⟨lookup_of_mem m.ascending, mem_of_lookup⟩

@[simp] theorem get?_empty (k : κ) : (empty : SortedMap κ α).get? k = none := rfl

/-- The first key of a sorted list is not among the later ones. -/
private theorem lookup_none_of_lt [StrictOrder κ] {k : κ} :
    ∀ {l : List (κ × α)}, (∀ e ∈ l, k < e.1) → lookup k l = none
  | [], _ => rfl
  | e :: rest, h => by
      have hne : e.1 ≠ k := (StrictOrder.ne_of_lt (h e List.mem_cons_self)).symm
      simp only [lookup, if_neg hne]
      exact lookup_none_of_lt fun e' he' => h e' (List.mem_cons_of_mem _ he')

/-- Two maps that answer every lookup alike are the same map. -/
theorem ext_get? [StrictOrder κ] {m n : SortedMap κ α} (h : ∀ k, m.get? k = n.get? k) : m = n := by
  obtain ⟨l, hl⟩ := m
  obtain ⟨l', hl'⟩ := n
  suffices l = l' by subst this; rfl
  simp only [get?] at h
  induction l generalizing l' with
  | nil =>
      cases l' with
      | nil => rfl
      | cons e rest =>
          have := h e.1
          simp [lookup] at this
  | cons e rest ih =>
      cases l' with
      | nil =>
          have := h e.1
          simp [lookup] at this
      | cons e' rest' =>
          rw [List.pairwise_cons] at hl hl'
          have hkey : e.1 = e'.1 := by
            rcases StrictOrder.connected e.1 e'.1 with hlt | heq | hlt
            · have h1 := h e.1
              have h2 : lookup e.1 (e' :: rest') = none := by
                refine lookup_none_of_lt fun x hx => ?_
                rcases List.mem_cons.1 hx with rfl | hx
                · exact hlt
                · exact StrictOrder.trans hlt (hl'.1 x hx)
              rw [h2] at h1
              simp [lookup] at h1
            · exact heq
            · have h1 := h e'.1
              have h2 : lookup e'.1 (e :: rest) = none := by
                refine lookup_none_of_lt fun x hx => ?_
                rcases List.mem_cons.1 hx with rfl | hx
                · exact hlt
                · exact StrictOrder.trans hlt (hl.1 x hx)
              rw [h2] at h1
              simp [lookup] at h1
          have hval : e.2 = e'.2 := by
            have h1 := h e.1
            simpa [lookup, hkey] using h1
          have hrest : rest = rest' := by
            refine ih hl.2 rest' hl'.2 fun k => ?_
            by_cases hk : e.1 = k
            · have h1 : lookup k rest = none := lookup_none_of_lt (hk ▸ hl.1)
              have h2 : lookup k rest' = none := lookup_none_of_lt (hk ▸ hkey ▸ hl'.1)
              rw [h1, h2]
            · have h1 := h k
              simpa [lookup, hk, hkey ▸ hk] using h1
          rw [hrest, Prod.ext hkey hval]

end Lookup

section Update

variable [DecidableEq κ]

/-- Removes the entry of the key `k`. -/
def erase (m : SortedMap κ α) (k : κ) : SortedMap κ α :=
  ⟨m.entries.filter (fun e => decide (e.1 ≠ k)), m.ascending.filter _⟩

/-- Replaces the value under the key `k` by its image. -/
def modify (m : SortedMap κ α) (k : κ) (f : α → α) : SortedMap κ α :=
  ⟨m.entries.map (fun e => if e.1 = k then (e.1, f e.2) else e), by
    rw [List.pairwise_map]
    refine m.ascending.imp fun {a b} h => ?_
    by_cases ha : a.1 = k <;> by_cases hb : b.1 = k <;> simpa [ha, hb] using h⟩

theorem get?_erase (m : SortedMap κ α) (k k' : κ) :
    (m.erase k).get? k' = if k' = k then none else m.get? k' := by
  obtain ⟨l, hl⟩ := m
  simp only [get?, erase]
  clear hl
  induction l with
  | nil => simp [lookup]
  | cons e rest ih =>
      by_cases hek : e.1 = k
      · simp only [List.filter_cons, hek, ne_eq, not_true_eq_false, decide_false,
          Bool.false_eq_true, if_false, ih, lookup]
        by_cases hk : k' = k
        · simp [hk]
        · simp [hk, Ne.symm hk]
      · simp only [List.filter_cons, ne_eq, hek, not_false_eq_true, decide_true, if_true,
          lookup, ih]
        by_cases hk : e.1 = k'
        · simp [hk, hk ▸ hek]
        · simp [hk]

theorem get?_modify (m : SortedMap κ α) (k k' : κ) (f : α → α) :
    (m.modify k f).get? k' = if k' = k then (m.get? k').map f else m.get? k' := by
  obtain ⟨l, hl⟩ := m
  simp only [get?, modify]
  clear hl
  induction l with
  | nil => simp [lookup]
  | cons e rest ih =>
      by_cases hek : e.1 = k
      · by_cases hk : e.1 = k'
        · have hkk : k' = k := hk.symm.trans hek
          simp [lookup, hkk, hek]
        · have hkk : k' ≠ k := fun hkk => hk (hek.trans hkk.symm)
          simp [lookup, hek, ih, hkk, Ne.symm hkk]
      · by_cases hk : e.1 = k'
        · have hkk : k' ≠ k := fun hkk => hek (hk.trans hkk)
          simp [lookup, hk, hkk]
        · simp [lookup, hek, hk, ih]

variable [DecidableLT κ]

/-- Puts an entry at its place in an ascending list, replacing the entry with the same key. -/
def place (k : κ) (v : α) : List (κ × α) → List (κ × α)
  | [] => [(k, v)]
  | e :: rest =>
      if k < e.1 then (k, v) :: e :: rest
      else if e.1 = k then (k, v) :: rest
      else e :: place k v rest

theorem mem_place {k : κ} {v : α} {e : κ × α} :
    ∀ {l : List (κ × α)}, e ∈ place k v l → e = (k, v) ∨ e ∈ l
  | [], h => Or.inl (List.mem_singleton.1 h)
  | x :: rest, h => by
      simp only [place] at h
      split at h
      · exact (List.mem_cons.1 h).imp id id
      · split at h
        · exact (List.mem_cons.1 h).imp id (List.mem_cons_of_mem _)
        · rcases List.mem_cons.1 h with rfl | h
          · exact Or.inr List.mem_cons_self
          · exact (mem_place h).imp id (List.mem_cons_of_mem _)

theorem place_ascending [StrictOrder κ] (k : κ) (v : α) :
    ∀ {l : List (κ × α)}, l.Pairwise (fun a b => a.1 < b.1) →
      (place k v l).Pairwise (fun a b => a.1 < b.1)
  | [], _ => List.pairwise_singleton ..
  | x :: rest, h => by
      have hc := List.pairwise_cons.1 h
      simp only [place]
      split
      · rename_i hlt
        refine List.pairwise_cons.2 ⟨fun e he => ?_, h⟩
        rcases List.mem_cons.1 he with rfl | he
        · exact hlt
        · exact StrictOrder.trans hlt (hc.1 e he)
      · rename_i hnlt
        split
        · rename_i heq
          exact List.pairwise_cons.2 ⟨fun e he => heq ▸ hc.1 e he, hc.2⟩
        · rename_i hne
          refine List.pairwise_cons.2 ⟨fun e he => ?_, place_ascending k v hc.2⟩
          rcases mem_place he with rfl | he
          · exact StrictOrder.lt_of_not_lt hnlt (Ne.symm hne)
          · exact hc.1 e he

/-- Sets the value under the key `k`. -/
def insert [StrictOrder κ] (m : SortedMap κ α) (k : κ) (v : α) : SortedMap κ α :=
  ⟨place k v m.entries, place_ascending k v m.ascending⟩

theorem get?_insert [StrictOrder κ] (m : SortedMap κ α) (k k' : κ) (v : α) :
    (m.insert k v).get? k' = if k' = k then some v else m.get? k' := by
  obtain ⟨l, hl⟩ := m
  simp only [get?, insert]
  clear hl
  induction l with
  | nil => by_cases hk : k' = k <;> simp [place, lookup, hk, Ne.symm]
  | cons e rest ih =>
      simp only [place]
      split
      · by_cases hk : k' = k
        · simp [lookup, hk]
        · simp [lookup, hk, Ne.symm hk]
      · split
        · rename_i heq
          by_cases hk : k' = k
          · simp [lookup, hk]
          · simp [lookup, hk, Ne.symm hk, heq]
        · rename_i hne
          by_cases hk : k' = k
          · subst hk
            simp [lookup, hne, ih]
          · simp [lookup, hk, ih]

end Update

end SortedMap

end Workflow
