/-
The agenda and its index of slots.

`Indexed` says that the index holds exactly the slots of the pending timers, each of them stored
under its own key.  It is what makes the order of slots an order of the timers: two different
timers never share a slot, and the timers in slot order are all the pending ones.

That adding a timer keeps the index right rests on `schedule` removing the timer of the same key
first, together with its slot.
-/
import Workflow.Timer.Agenda

namespace Workflow

namespace TimerAgenda

variable {agenda : TimerAgenda} {key : Nat} {timer : Timer}

theorem get?_erase (agenda : TimerAgenda) (erased key : Nat) :
    (agenda.erase erased).get? key = if key = erased then none else agenda.get? key := by
  unfold erase
  cases hget : agenda.get? erased with
  | none =>
      by_cases hkey : key = erased
      · rw [if_pos hkey, hkey]
        exact hget
      · rw [if_neg hkey]
  | some timer => exact SortedMap.get?_erase _ _ _

theorem get?_schedule (agenda : TimerAgenda) (timer : Timer) (key : Nat) :
    (agenda.schedule timer).get? key = if key = timer.key then some timer else agenda.get? key := by
  show ((agenda.erase timer.key).timers.insert timer.key timer).get? key = _
  rw [SortedMap.get?_insert]
  by_cases hkey : key = timer.key
  · rw [if_pos hkey, if_pos hkey]
  · rw [if_neg hkey, if_neg hkey]
    exact (get?_erase agenda timer.key key).trans (if_neg hkey)

/-- The index holds the slots of the pending timers, and each timer is stored under its key. -/
structure Indexed (agenda : TimerAgenda) : Prop where
  /-- A timer is stored under its key. -/
  key_eq : ∀ key timer, agenda.get? key = some timer → timer.key = key
  /-- A slot is in the index if and only if it is the slot of a pending timer. -/
  mem_slots : ∀ slot, slot ∈ agenda.slots ↔
    ∃ timer, agenda.get? slot.key = some timer ∧ timer.slot = slot

theorem indexed_empty : Indexed empty where
  key_eq := fun key timer h => by cases h
  mem_slots := fun slot =>
    ⟨fun h => absurd h (SortedSet.not_mem_empty slot), fun ⟨timer, h, _⟩ => by cases h⟩

theorem Indexed.erase (h : agenda.Indexed) (key : Nat) : (agenda.erase key).Indexed := by
  refine ⟨?_, ?_⟩
  · intro other timer hget
    rw [get?_erase] at hget
    by_cases hkey : other = key
    · rw [if_pos hkey] at hget
      cases hget
    · rw [if_neg hkey] at hget
      exact h.key_eq other timer hget
  · intro slot
    cases hget : agenda.get? key with
    | none =>
        have hsame : agenda.erase key = agenda := by
          unfold TimerAgenda.erase
          rw [hget]
        rw [hsame]
        exact h.mem_slots slot
    | some gone =>
        have hslots : (agenda.erase key).slots = agenda.slots.erase gone.slot := by
          unfold TimerAgenda.erase
          rw [hget]
        have hgone : gone.slot.key = key := h.key_eq key gone hget
        rw [hslots, SortedSet.mem_erase, h.mem_slots slot, get?_erase]
        constructor
        · rintro ⟨⟨timer, htimer, hslot⟩, hne⟩
          have hkey : slot.key ≠ key := by
            intro heq
            rw [heq, hget] at htimer
            cases htimer
            exact hne hslot.symm
          exact ⟨timer, by rw [if_neg hkey]; exact htimer, hslot⟩
        · rintro ⟨timer, htimer, hslot⟩
          have hkey : slot.key ≠ key := by
            intro heq
            rw [if_pos heq] at htimer
            cases htimer
          rw [if_neg hkey] at htimer
          refine ⟨⟨timer, htimer, hslot⟩, ?_⟩
          intro heq
          rw [heq] at hkey
          exact hkey hgone

theorem Indexed.schedule (h : agenda.Indexed) (timer : Timer) :
    (agenda.schedule timer).Indexed := by
  have hcleared := h.erase timer.key
  refine ⟨?_, ?_⟩
  · intro other found hget
    rw [get?_schedule] at hget
    by_cases hkey : other = timer.key
    · rw [if_pos hkey] at hget
      cases hget
      exact hkey.symm
    · rw [if_neg hkey] at hget
      exact h.key_eq other found hget
  · intro slot
    show slot ∈ (agenda.erase timer.key).slots.insert timer.slot ↔ _
    rw [SortedSet.mem_insert, hcleared.mem_slots slot, get?_schedule, get?_erase]
    constructor
    · rintro (hslot | ⟨found, hfound, hslot⟩)
      · refine ⟨timer, ?_, hslot.symm⟩
        rw [hslot]
        exact if_pos rfl
      · have hkey : slot.key ≠ timer.key := by
          intro heq
          rw [if_pos heq] at hfound
          cases hfound
        rw [if_neg hkey] at hfound ⊢
        exact ⟨found, hfound, hslot⟩
    · rintro ⟨found, hfound, hslot⟩
      by_cases hkey : slot.key = timer.key
      · rw [if_pos hkey] at hfound
        cases hfound
        exact .inl hslot.symm
      · rw [if_neg hkey] at hfound
        exact .inr ⟨found, by rw [if_neg hkey]; exact hfound, hslot⟩

/-! ### Timers of start events -/

/-- The timers of start events are pending. -/
theorem Indexed.get?_of_mem_startTimersOf (h : agenda.Indexed) {definitionKeys : List Nat}
    {timer : Timer} (hmem : timer ∈ agenda.startTimersOf definitionKeys) :
    agenda.get? timer.key = some timer := by
  obtain ⟨⟨key, found⟩, hentry, rfl⟩ := List.mem_map.mp (List.mem_filter.mp hmem).1
  have hget : agenda.get? key = some found := (SortedMap.mem_toList_iff _ _ _).mp hentry
  rw [h.key_eq key found hget]
  exact hget

/-- No timer is listed twice. -/
theorem Indexed.startTimersOf_pairwise (h : agenda.Indexed) (definitionKeys : List Nat) :
    (agenda.startTimersOf definitionKeys).Pairwise fun a b => a.key ≠ b.key := by
  refine List.Pairwise.filter _ (List.pairwise_map.mpr ?_)
  refine agenda.timers.ascending.imp_of_mem ?_
  intro first second hfirst hsecond hlt
  have hown : ∀ entry ∈ agenda.timers.entries, entry.2.key = entry.1 := fun entry he =>
    h.key_eq entry.1 entry.2 ((SortedMap.mem_toList_iff _ _ _).mp he)
  rw [hown first hfirst, hown second hsecond]
  exact Nat.ne_of_lt hlt

end TimerAgenda

end Workflow
