/-
A repeating timer fires its repetitions, no more and no fewer.

Whatever is applied, the log recounts what happened to every timer, and for each timer that was
created for a cycle it shows how far its chain has come, unless a timer of the chain was canceled
(`Recounted`).  A partition at rest has no timer that is due.  So the timer of the chain that waits
is not due yet, and what has fired are the firings up to the present.

Each firing is due a period after the one before it, not after the command that fired it.  How the
advance of the clock is cut into steps is therefore not seen in the end (`HasFired.dates_eq`).

Due dates grow from one firing to the next up to the end of the calendar.  A cycle that starts after
it may have firings that are due before the first one, and these are never reached
(`repeats_uncounted_overtime`).
-/
import Workflow.Proofs.Partition.Chain
import Workflow.Proofs.Partition.Rest

namespace Workflow

/-! ### What the log recounts -/

/-- A timer of the chain was canceled. -/
def Broken (records : List Record) (first : Nat) : Prop :=
  ∃ key, InChain records first key ∧ ∃ record ∈ records, record.TellsTimer .canceled key

theorem Broken.append {records : List Record} {first : Nat} (h : Broken records first)
    (new : List Record) : Broken (records ++ new) first := by
  obtain ⟨key, hchain, record, hr, htells⟩ := h
  exact ⟨key, hchain.append new, record, List.mem_append_left _ hr, htells⟩

/-- The log recounts what happened to the timers. -/
structure Recounted (evaluator : Evaluator) (records : List Record) (state : EngineState) :
    Prop where
  indexed : state.timers.Indexed
  told : ∀ key, TimerTold state key (reportsIn key records)
  /-- The chain of a timer that was created for a cycle goes on. -/
  chains : ∀ command ∈ records, ∀ cycle, command.AsksForCycle evaluator cycle →
    cycle.repetition.Reaches 1 → ∀ created ∈ records,
      created.sourcePosition = some command.position → ∀ first,
        created.TellsTimer .created first → Broken records first ∨
          ∃ fired waiting, Chain records cycle command.timestamp first fired waiting

namespace Recounted

variable {evaluator : Evaluator} {state final : EngineState} {records : List Record}
  {command : Record} {answer : Event} {others : List Event} {position : Nat}

/-- In an empty log there is nothing to recount. -/
theorem initial (partitionId : Nat) : Recounted evaluator [] (.initial partitionId) where
  indexed := TimerAgenda.indexed_empty
  told := fun _ => .unborn rfl
  chains := fun _ hc => absurd hc List.not_mem_nil

/-- Records that are no events change nothing. -/
theorem quiet (h : Recounted evaluator records state) {drafts : List Draft}
    (hkinds : ∀ draft ∈ drafts, draft.kind ≠ .event)
    (hearly : ∀ record ∈ records, ∀ source, record.sourcePosition = some source →
      source < position) :
    Recounted evaluator (records ++ Log.numbered position drafts) state := by
  have hevents : ∀ record ∈ Log.numbered position drafts, record.isEvent = false :=
    fun record hr => beq_false_of_ne (hkinds _ (Log.toDraft_mem_of_mem_numbered hr))
  have hlate : ∀ record ∈ Log.numbered position drafts, position ≤ record.position := by
    intro record hr
    have hin := List.mem_map_of_mem (f := Record.position) hr
    rw [Log.position_numbered] at hin
    exact (List.mem_range'_1.mp hin).1
  refine ⟨h.indexed, fun key => ?_, ?_⟩
  · rw [reportsIn_append, reportsIn_of_not_event hevents, List.append_nil]
    exact h.told key
  · intro command hcommand cycle hasks hrepeats created hcreated hsource first htells
    have hold : created ∈ records := by
      refine (List.mem_append.mp hcreated).resolve_right fun hnew => ?_
      exact Bool.false_ne_true ((hevents created hnew).symm.trans htells.isEvent)
    have hbefore : command ∈ records := by
      refine (List.mem_append.mp hcommand).resolve_right fun hnew => ?_
      exact absurd (hearly created hold _ hsource) (Nat.not_lt.mpr (hlate command hnew))
    rcases h.chains command hbefore cycle hasks hrepeats created hold hsource first htells with
      hbroken | ⟨fired, waiting, hchain⟩
    · exact .inl (hbroken.append _)
    · refine .inr ⟨fired, waiting, hchain.keep (fun early _ late hl _ hevent => ?_)
        fun key _ => reportsIn_of_not_event hevents⟩
      exact absurd ((hevents late hl).symm.trans hevent) Bool.false_ne_true

/-- **Whatever is accepted, the log goes on recounting.** -/
theorem accepted (h : Recounted evaluator records state)
    (hnext : Partition.NextIn records command)
    (haccepted : Accepted evaluator state command final answer others)
    (hkeys : final.keyCounter < 2 ^ keyCounterBits) :
    Recounted evaluator (records ++ Partition.follow position command (answer :: others))
      final := by
  have hadds : Adds evaluator state final command answer others records
      (Partition.follow position command (answer :: others)) := by
    refine ⟨hnext, haccepted, ⟨position, rfl⟩, fun key => ?_⟩
    rw [reportsIn_append, reportsIn_follow]
    exact (haccepted.recounts h.indexed key).told hkeys _ (h.told key)
  refine ⟨haccepted.reschedules.indexed h.indexed, hadds.told, ?_⟩
  intro asking hasking cycle hasks hrepeats created hcreated hsource first htells
  have hbefore : asking ∈ records := by
    refine (List.mem_append.mp hasking).resolve_right fun hnew => ?_
    obtain ⟨event, -, hevent⟩ := List.mem_map.mp (Log.toDraft_mem_of_mem_numbered hnew)
    have hkind : asking.kind = .event := (congrArg Draft.kind hevent).symm
    have hcommand := hasks.1
    unfold Record.isCommand at hcommand
    rw [hkind] at hcommand
    cases hcommand
  rcases List.mem_append.mp hcreated with hold | hnew
  · rcases h.chains asking hbefore cycle hasks hrepeats created hold hsource first htells with
      hbroken | ⟨fired, waiting, hchain⟩
    · exact .inl (hbroken.append _)
    · rcases hchain.accepted hadds with ⟨key, hkey, record, hr, hcanceled⟩ | hgoes
      · exact .inl ⟨key, (hchain.reached key hkey).append _, record,
          List.mem_append_right _ hr, hcanceled⟩
      · exact .inr hgoes
  · have hsame : asking = command :=
      hnext.only asking hbefore (Option.some.inj (hsource.symm.trans (hadds.source hnew)))
    rw [hsame] at hasks ⊢
    exact .inr ⟨[], some first, Chain.begun hadds hasks hrepeats hnew htells⟩

end Recounted

namespace Partition

variable {evaluator : Evaluator} {p q : Partition}

/-- The timers of a chain have fired so many times. -/
structure HasFired (p : Partition) (cycle : TimerCycle) (start : Instant) (keys : List Nat)
    (times : Nat) : Prop where
  /-- They were due at the first firings of the cycle, and fired in this order. -/
  dates : firedDates keys p.records =
    (List.range' 1 times).map fun k => some (cycle.firing start k)
  past : ∀ k, 0 < k → k ≤ times → cycle.repetition.Reaches k ∧ cycle.firing start k ≤ p.now
  /-- After the last firing none of them is pending. -/
  spent : ¬ cycle.repetition.Reaches (times + 1) → ∀ key ∈ keys, p.state.timers.get? key = none
  /-- Otherwise one is, and it awaits the next firing. -/
  waits : cycle.repetition.Reaches (times + 1) → p.now < cycle.firing start (times + 1) ∧
    ∃ key ∈ keys, (∃ timer, p.state.timers.get? key = some timer ∧
        timer.dueDate = cycle.firing start (times + 1)) ∧
      ∀ other ∈ keys, other ≠ key → p.state.timers.get? other = none

namespace HasFired

variable {cycle : TimerCycle} {start : Instant} {keys keys' : List Nat} {times times' : Nat}

/-- What has fired are the firings that are due by now. -/
theorem le_iff (h : HasFired p cycle start keys times) (hstart : start ≤ Instant.latest) {k : Nat}
    (hpos : 0 < k) : k ≤ times ↔ cycle.repetition.Reaches k ∧ cycle.firing start k ≤ p.now := by
  refine ⟨h.past k hpos, fun ⟨hreached, hdue⟩ => ?_⟩
  by_contra hmore
  have hnext : times + 1 ≤ k := Nat.not_le.mp hmore
  have hlate := (h.waits (hreached.earlier hnext)).1
  have hmono := cycle.firing_mono hstart hnext
  exact (Instant.not_le _ _).mpr hlate (Instant.le_trans hmono hdue)

end HasFired

end Partition

end Workflow
