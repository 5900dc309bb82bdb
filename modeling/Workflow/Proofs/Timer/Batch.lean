/-
Why a firing batch may be appended as a whole.

The firing batch is a front part of the agenda, cut off before the first timer that is due after
the successor of an earlier one.  `InTurn` says that no such timer is in a list, and `Safe` says it
as the batch is found, by a horizon that falls on the way (`safe_iff`).  When the first timer of a
safe front part fires, its successor comes behind the others, by its due date or else by its
creation position; so what is left is a front part of the new agenda, and it is safe again
(`firingBatch_fire`).

This is what lets triggers wait in the log over any number of rounds.  The batch that is found
later begins with those that still wait, and only the rest of it is new.
-/
import Workflow.Proofs.Time.Instant
import Workflow.Proofs.Timer.Agenda

namespace Workflow

/-- Of two timers the one created later comes first only if it is due earlier. -/
theorem TimerSlot.lt_iff_of_later {early late : Timer}
    (h : early.creationPosition < late.creationPosition) :
    (late.slot < early.slot ↔ late.dueDate < early.dueDate) ∧
      (early.slot < late.slot ↔ ¬ late.dueDate < early.dueDate) := by
  have hnot := Nat.lt_asymm h
  have hne := Nat.ne_of_gt h
  constructor
  · rw [TimerSlot.lt_iff]
    simp [Timer.slot, hnot, hne]
  · rw [TimerSlot.lt_iff, Instant.not_lt]
    simp only [Timer.slot, h, true_or, and_true]
    rw [Instant.lt_iff, Instant.le_iff, Instant.ext_iff]
    omega

namespace TimerAgenda

variable {agenda : TimerAgenda} {now horizon : Instant} {timer : Timer}

/-- The pending timer of a slot. -/
def atSlot (agenda : TimerAgenda) (slot : TimerSlot) : Option Timer := agenda.get? slot.key

/-! ### Timers in the order of firing -/

/-- The slots of timers that are looked up by slots are these slots. -/
theorem map_slot_lookup {slots : List TimerSlot}
    (h : ∀ slot ∈ slots, ∃ timer, agenda.atSlot slot = some timer ∧ timer.slot = slot) :
    (slots.filterMap agenda.atSlot).map Timer.slot = slots := by
  induction slots with
  | nil => rfl
  | cons slot rest ih =>
      obtain ⟨timer, hget, hslot⟩ := h slot List.mem_cons_self
      rw [List.filterMap_cons_some hget, List.map_cons, hslot,
        ih fun other ho => h other (List.mem_cons_of_mem _ ho)]

theorem takeWhile_lookup {slots : List TimerSlot} (now : Instant)
    (h : ∀ slot ∈ slots, ∃ timer, agenda.atSlot slot = some timer ∧ timer.slot = slot) :
    (slots.takeWhile fun slot => decide (slot.dueDate ≤ now)).filterMap agenda.atSlot =
      (slots.filterMap agenda.atSlot).takeWhile fun timer => decide (timer.dueDate ≤ now) := by
  induction slots with
  | nil => rfl
  | cons slot rest ih =>
      obtain ⟨timer, hget, hslot⟩ := h slot List.mem_cons_self
      have hdue : slot.dueDate = timer.dueDate := by rw [← hslot]; rfl
      rw [List.filterMap_cons_some hget, List.takeWhile_cons, List.takeWhile_cons, hdue]
      by_cases hlate : timer.dueDate ≤ now
      · rw [if_pos (decide_eq_true hlate), if_pos (decide_eq_true hlate),
          List.filterMap_cons_some hget, ih fun other ho => h other (List.mem_cons_of_mem _ ho)]
      · rw [if_neg (by simpa using hlate), if_neg (by simpa using hlate)]
        rfl

theorem Indexed.lookup (h : agenda.Indexed) :
    ∀ slot ∈ agenda.slots.toList, ∃ timer, agenda.atSlot slot = some timer ∧
      timer.slot = slot := fun slot hs => (h.mem_slots slot).mp hs

/-- In the order of firing there are all pending timers. -/
theorem Indexed.mem_inOrder (h : agenda.Indexed) :
    timer ∈ agenda.inOrder ↔ agenda.get? timer.key = some timer := by
  unfold inOrder
  rw [List.mem_filterMap]
  constructor
  · rintro ⟨slot, -, hget⟩
    have hkey : timer.key = slot.key := h.key_eq _ _ hget
    rw [hkey]
    exact hget
  · intro hget
    exact ⟨timer.slot, (h.mem_slots timer.slot).mpr ⟨timer, hget, rfl⟩, hget⟩

/-- Each of them comes before the next one. -/
theorem Indexed.inOrder_ascending (h : agenda.Indexed) :
    agenda.inOrder.Pairwise fun a b => a.slot < b.slot := by
  have hslots : agenda.inOrder.map Timer.slot = agenda.slots.toList := map_slot_lookup h.lookup
  have hascending : (agenda.inOrder.map Timer.slot).Pairwise (· < ·) := by
    rw [hslots]
    exact agenda.slots.ascending
  exact List.pairwise_map.mp hascending

/-- The timers that are due stand in front. -/
theorem Indexed.dueTimers_eq (h : agenda.Indexed) (now : Instant) :
    agenda.dueTimers now = agenda.inOrder.takeWhile fun timer => decide (timer.dueDate ≤ now) :=
  takeWhile_lookup now h.lookup

/-- The timers that are due come in the order of firing. -/
theorem Indexed.dueTimers_ascending (h : agenda.Indexed) (now : Instant) :
    (agenda.dueTimers now).Pairwise fun a b => a.slot < b.slot := by
  rw [h.dueTimers_eq]
  exact h.inOrder_ascending.sublist (List.takeWhile_sublist _)

/-- They are the pending timers of which it is true that they are due. -/
theorem Indexed.mem_dueTimers_iff (h : agenda.Indexed) :
    timer ∈ agenda.dueTimers now ↔ agenda.get? timer.key = some timer ∧ timer.dueDate ≤ now := by
  have hbelow : ∀ a b : TimerSlot, a < b →
      decide (b.dueDate ≤ now) = true → decide (a.dueDate ≤ now) = true := by
    intro a b hab hdue
    rw [decide_eq_true_eq] at hdue ⊢
    rcases (TimerSlot.lt_iff a b).mp hab with hearlier | ⟨hsame, -⟩
    · exact Instant.le_trans (Instant.le_of_lt hearlier) hdue
    · exact hsame ▸ hdue
  unfold dueTimers
  rw [List.mem_filterMap]
  constructor
  · rintro ⟨slot, hslot, hget⟩
    rw [SortedSet.mem_takeWhile_iff _ hbelow, decide_eq_true_eq, h.mem_slots] at hslot
    obtain ⟨⟨found, hfound, rfl⟩, hdue⟩ := hslot
    rw [hget] at hfound
    cases hfound
    exact ⟨hget, hdue⟩
  · rintro ⟨hget, hdue⟩
    refine ⟨timer.slot, ?_, hget⟩
    rw [SortedSet.mem_takeWhile_iff _ hbelow, decide_eq_true_eq, h.mem_slots]
    exact ⟨⟨timer, hget, rfl⟩, hdue⟩

/-- A part of an ascending list that nothing else precedes is its front. -/
theorem front_of_least {front timers : List Timer}
    (hfront : front.Pairwise fun a b => a.slot < b.slot)
    (htimers : timers.Pairwise fun a b => a.slot < b.slot)
    (hmem : ∀ timer ∈ front, timer ∈ timers)
    (hleast : ∀ timer ∈ timers, timer ∈ front ∨ ∀ other ∈ front, other.slot < timer.slot) :
    front <+: timers := by
  induction front generalizing timers with
  | nil => exact List.nil_prefix
  | cons first rest ih =>
      cases timers with
      | nil => exact absurd (hmem first List.mem_cons_self) List.not_mem_nil
      | cons head tail =>
          rw [List.pairwise_cons] at hfront htimers
          -- The head is in the front part, and the first of that is no later than the head.
          have hhead : head = first := by
            have hfirst : first = head ∨ head.slot < first.slot :=
              (List.mem_cons.mp (hmem first List.mem_cons_self)).imp_right (htimers.1 first)
            rcases hleast head List.mem_cons_self with hin | hafter
            · rcases List.mem_cons.mp hin with heq | hin
              · exact heq
              · rcases hfirst with heq | hlt
                · exact heq.symm
                · exact absurd (hfront.1 head hin) (StrictOrder.asymm hlt)
            · rcases hfirst with heq | hlt
              · exact heq.symm
              · exact absurd (hafter first List.mem_cons_self) (StrictOrder.asymm hlt)
          subst hhead
          refine (List.prefix_cons_inj head).mpr (ih hfront.2 htimers.2 ?_ ?_)
          · intro timer ht
            rcases List.mem_cons.mp (hmem timer (List.mem_cons_of_mem _ ht)) with heq | hin
            · exact absurd (hfront.1 timer ht) (heq ▸ StrictOrder.irrefl _)
            · exact hin
          · intro timer ht
            rcases hleast timer (List.mem_cons_of_mem _ ht) with hin | hafter
            · rcases List.mem_cons.mp hin with heq | hin
              · exact absurd (htimers.1 timer ht) (heq ▸ StrictOrder.irrefl _)
              · exact .inl hin
            · exact .inr fun other ho => hafter other (List.mem_cons_of_mem _ ho)

/-! ### Safe front parts -/

/-- The horizon behind a timer: its successor lowers it. -/
def lowered (horizon : Instant) (timer : Timer) : Instant :=
  match timer.successorDueDate? with
  | some dueDate => min horizon dueDate
  | none => horizon

theorem firingRun_cons (horizon : Instant) (timer : Timer) (rest : List Timer) :
    firingRun horizon (timer :: rest) =
      if horizon < timer.dueDate then [] else timer :: firingRun (lowered horizon timer) rest := rfl

theorem le_lowered_iff {time : Instant} :
    time ≤ lowered horizon timer ↔ time ≤ horizon ∧
      ∀ successor, timer.successorDueDate? = some successor → time ≤ successor := by
  unfold lowered
  cases timer.successorDueDate? with
  | none => simp
  | some dueDate =>
      constructor
      · intro h
        refine ⟨Instant.le_trans h (Instant.min_le_left _ _), fun successor heq => ?_⟩
        cases heq
        exact Instant.le_trans h (Instant.min_le_right _ _)
      · rintro ⟨hhorizon, hsuccessor⟩
        exact Instant.le_min hhorizon (hsuccessor dueDate rfl)

theorem lowered_le (horizon : Instant) (timer : Timer) : lowered horizon timer ≤ horizon :=
  (le_lowered_iff.mp (Instant.le_refl _)).1

theorem lowered_le_successor {dueDate : Instant} (h : timer.successorDueDate? = some dueDate)
    (horizon : Instant) : lowered horizon timer ≤ dueDate :=
  (le_lowered_iff.mp (Instant.le_refl _)).2 dueDate h

/-- No timer is due after the horizon, nor after the successor of an earlier one. -/
def Safe : Instant → List Timer → Prop
  | _, [] => True
  | horizon, timer :: rest => timer.dueDate ≤ horizon ∧ Safe (lowered horizon timer) rest

/-- No timer is due after the successor of an earlier one. -/
def InTurn (timers : List Timer) : Prop :=
  timers.Pairwise fun earlier later =>
    ∀ successor, earlier.successorDueDate? = some successor → later.dueDate ≤ successor

theorem inTurn_cons {rest : List Timer} :
    InTurn (timer :: rest) ↔ (∀ later ∈ rest, ∀ successor,
      timer.successorDueDate? = some successor → later.dueDate ≤ successor) ∧ InTurn rest :=
  List.pairwise_cons

/-- The horizon that falls on the way stands for the successors of all timers passed. -/
theorem safe_iff {timers : List Timer} :
    ∀ {horizon : Instant}, Safe horizon timers ↔
      (∀ timer ∈ timers, timer.dueDate ≤ horizon) ∧ InTurn timers := by
  induction timers with
  | nil => intro horizon; simp [Safe, InTurn]
  | cons timer rest ih =>
      intro horizon
      rw [Safe, ih, inTurn_cons, List.forall_mem_cons]
      simp only [le_lowered_iff]
      constructor
      · rintro ⟨hdue, hrest, hturn⟩
        exact ⟨⟨hdue, fun other ho => (hrest other ho).1⟩,
          fun other ho => (hrest other ho).2, hturn⟩
      · rintro ⟨⟨hdue, hrest⟩, hsuccessor, hturn⟩
        exact ⟨hdue, fun other ho => ⟨hrest other ho, hsuccessor other ho⟩, hturn⟩

theorem Safe.dueDate_le {timers : List Timer} (h : Safe horizon timers) :
    ∀ timer ∈ timers, timer.dueDate ≤ horizon := (safe_iff.mp h).1

theorem Safe.mono {timers : List Timer} {higher : Instant} (h : Safe horizon timers)
    (hle : horizon ≤ higher) : Safe higher timers :=
  safe_iff.mpr ⟨fun timer ht => Instant.le_trans (h.dueDate_le timer ht) hle, (safe_iff.mp h).2⟩

/-- What stands in front of a firing run is safe, and any safe front part does. -/
theorem front_firingRun_iff {front : List Timer} :
    ∀ {horizon : Instant} {timers : List Timer}, front <+: firingRun horizon timers ↔
      front <+: timers ∧ Safe horizon front := by
  induction front with
  | nil => intro horizon timers; simp [Safe]
  | cons timer rest ih =>
      intro horizon timers
      cases timers with
      | nil => simp [firingRun]
      | cons head tail =>
          rw [firingRun_cons]
          by_cases hlate : horizon < head.dueDate
          · rw [if_pos hlate]
            constructor
            · intro h
              exact absurd (List.prefix_nil.mp h) (by simp)
            · rintro ⟨hfront, hdue, -⟩
              obtain ⟨heq, -⟩ := List.cons_prefix_cons.mp hfront
              rw [heq, ← Instant.not_lt] at hdue
              exact absurd hlate hdue
          · rw [if_neg hlate, List.cons_prefix_cons, List.cons_prefix_cons]
            constructor
            · rintro ⟨heq, hrest⟩
              obtain ⟨hfront, hsafe⟩ := ih.mp hrest
              subst heq
              exact ⟨⟨rfl, hfront⟩, (Instant.not_lt _ _).mp hlate, hsafe⟩
            · rintro ⟨⟨heq, hfront⟩, -, hsafe⟩
              subst heq
              exact ⟨rfl, ih.mpr ⟨hfront, hsafe⟩⟩

/-- A part of the firing batch is a safe front part of the agenda. -/
theorem Indexed.front_firingBatch_iff (h : agenda.Indexed) {front : List Timer} :
    front <+: agenda.firingBatch now ↔ front <+: agenda.inOrder ∧ Safe now front := by
  unfold firingBatch
  rw [h.dueTimers_eq, front_firingRun_iff]
  constructor
  · rintro ⟨hfront, hsafe⟩
    exact ⟨hfront.trans (List.takeWhile_prefix _), hsafe⟩
  · rintro ⟨hfront, hsafe⟩
    refine ⟨?_, hsafe⟩
    obtain ⟨others, hothers⟩ := hfront
    rw [← hothers, List.takeWhile_append_of_pos fun timer ht => decide_eq_true
      (hsafe.dueDate_le timer ht)]
    exact List.prefix_append _ _

/-- The whole batch is one. -/
theorem Indexed.firingBatch_front (h : agenda.Indexed) (now : Instant) :
    agenda.firingBatch now <+: agenda.inOrder ∧ Safe now (agenda.firingBatch now) :=
  h.front_firingBatch_iff.mp List.prefix_rfl

/-- When the firing batch is empty no timer is due. -/
theorem Indexed.not_due_of_batch_nil (h : agenda.Indexed) (hbatch : agenda.firingBatch now = []) :
    ∀ timer ∈ agenda.inOrder, ¬ timer.dueDate ≤ now := by
  have hnone : agenda.dueTimers now = [] := by
    cases hdue : agenda.dueTimers now with
    | nil => rfl
    | cons first rest =>
        -- Nothing holds back the first one.
        have hfirst : first ∈ agenda.dueTimers now := hdue ▸ List.mem_cons_self
        have hnow : ¬ now < first.dueDate :=
          (Instant.not_lt _ _).mpr (h.mem_dueTimers_iff.mp hfirst).2
        rw [firingBatch, hdue, firingRun_cons, if_neg hnow] at hbatch
        cases hbatch
  intro timer ht hdue
  have hmem := h.mem_dueTimers_iff.mpr ⟨h.mem_inOrder.mp ht, hdue⟩
  rw [hnone] at hmem
  exact absurd hmem List.not_mem_nil

/-! ### Firing -/

theorem get?_fire (agenda : TimerAgenda) (timer : Timer) (successor : Option Timer) (key : Nat) :
    (agenda.fire timer successor).get? key =
      if successor.any fun next => key == next.key then successor
      else if key = timer.key then none else agenda.get? key := by
  unfold fire
  cases successor with
  | none => exact get?_erase agenda timer.key key
  | some next =>
      show ((agenda.erase timer.key).schedule next).get? key = _
      rw [get?_schedule, get?_erase]
      by_cases hkey : key = next.key <;> simp [hkey]

theorem Indexed.fire (h : agenda.Indexed) (timer : Timer) (successor : Option Timer) :
    (agenda.fire timer successor).Indexed := by
  unfold TimerAgenda.fire
  cases successor with
  | none => exact h.erase timer.key
  | some next => exact (h.erase timer.key).schedule next

/-- The timers behind the first one are pending under other keys. -/
theorem Indexed.behind_first (h : agenda.Indexed) {others : List Timer}
    (hothers : timer :: others = agenda.inOrder) :
    ∀ other ∈ others, agenda.get? other.key = some other ∧ other.key ≠ timer.key := by
  intro other ho
  have hascending := h.inOrder_ascending
  rw [← hothers, List.pairwise_cons] at hascending
  have hself : agenda.get? timer.key = some timer :=
    h.mem_inOrder.mp (hothers ▸ List.mem_cons_self)
  have hother : agenda.get? other.key = some other :=
    h.mem_inOrder.mp (hothers ▸ List.mem_cons_of_mem _ ho)
  refine ⟨hother, fun heq => ?_⟩
  rw [heq, hself] at hother
  exact StrictOrder.irrefl _ (Option.some.inj hother ▸ hascending.1 other ho)

/-- **What is left of a batch stays in front.**  The first timer of a safe front part fires, and
its successor comes behind the others: it is due no earlier, and it is created later. -/
theorem Indexed.firingBatch_fire (h : agenda.Indexed) {rest : List Timer}
    (hbatch : timer :: rest <+: agenda.firingBatch now) {successor : Option Timer}
    (hsuccessor : ∀ next, successor = some next →
      timer.successorDueDate? = some next.dueDate ∧ agenda.get? next.key = none ∧
        ∀ other ∈ agenda.inOrder, other.creationPosition < next.creationPosition) :
    rest <+: (agenda.fire timer successor).firingBatch now := by
  obtain ⟨hfront, -, hsafe⟩ := h.front_firingBatch_iff.mp hbatch
  obtain ⟨others, hothers⟩ := hfront
  rw [List.cons_append] at hothers
  have hbehind := h.behind_first hothers
  have hascending := h.inOrder_ascending
  rw [← hothers, List.pairwise_cons, List.pairwise_append] at hascending
  obtain ⟨-, hrest, -, hlast⟩ := hascending
  refine (h.fire timer successor).front_firingBatch_iff.mpr
    ⟨?_, hsafe.mono (lowered_le now timer)⟩
  refine front_of_least hrest (h.fire timer successor).inOrder_ascending ?_ ?_
  · intro other ho
    obtain ⟨hpending, hkey⟩ := hbehind other (List.mem_append_left others ho)
    rw [(h.fire timer successor).mem_inOrder, get?_fire]
    cases hnext : successor with
    | none => simp [hkey, hpending]
    | some next =>
        have hne : other.key ≠ next.key := by
          intro heq
          have hnone := (hsuccessor next hnext).2.1
          rw [← heq, hpending] at hnone
          cases hnone
        simp [hne, hkey, hpending]
  · intro found hfound
    rw [(h.fire timer successor).mem_inOrder, get?_fire] at hfound
    by_cases hnew : successor.any fun next => found.key == next.key
    · -- The successor comes behind the others.
      rw [if_pos hnew] at hfound
      obtain ⟨hdue, -, hlater⟩ := hsuccessor found hfound
      refine .inr fun other ho => ?_
      have hbefore : other.creationPosition < found.creationPosition := by
        refine hlater other (hothers ▸ ?_)
        exact List.mem_cons_of_mem _ (List.mem_append_left _ ho)
      rw [(TimerSlot.lt_iff_of_later hbefore).2, Instant.not_lt]
      exact Instant.le_trans (hsafe.dueDate_le other ho) (lowered_le_successor hdue now)
    · rw [if_neg hnew] at hfound
      by_cases hgone : found.key = timer.key
      · rw [if_pos hgone] at hfound
        cases hfound
      · rw [if_neg hgone, ← h.mem_inOrder, ← hothers] at hfound
        rcases List.mem_cons.mp hfound with heq | hin
        · exact absurd (congrArg Timer.key heq) hgone
        · rcases List.mem_append.mp hin with hrest | hbehind
          · exact .inl hrest
          · exact .inr fun other ho => hlast other ho found hbehind

end TimerAgenda

end Workflow
