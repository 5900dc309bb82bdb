/-
Pending timers, and which of them may fire.

The agenda keeps the timers by key and, beside them, an index of slots ordered by due date,
creation position and key.  Both are kept in step by every operation.

When several timers are due they fire in slot order.  A repeating timer, when it fires, makes a
successor one period after its own due date, and that successor may come before timers that are
due already.  A firing batch therefore ends before the first timer that is due after the successor
of an earlier timer of the batch; the rest waits until the successor exists.
-/
import Workflow.Record.Payload
import Workflow.Sorted.Map
import Workflow.Sorted.Set

namespace Workflow

/-- A pending timer. -/
structure Timer where
  /-- The key of the timer. -/
  key : Nat
  /-- When it fires. -/
  dueDate : Instant
  /-- How many more times it fires. -/
  repetition : Repetition
  /-- The time between two firings, if it repeats. -/
  period : Option Duration
  /-- The element that it acts on. -/
  targetElementId : String
  /-- The definition of the process. -/
  definitionKey : Option Nat
  /-- The instance of the process. -/
  instanceKey : Option Nat
  /-- The instance of the element; absent for timers of start events. -/
  elementInstanceKey : Option Nat
  /-- The position of the command that created the timer; it orders timers with one due date. -/
  creationPosition : Nat
deriving DecidableEq, Inhabited

namespace Timer

/-- Whether the timer belongs to a start event. -/
def isStartEvent (timer : Timer) : Bool := timer.elementInstanceKey.isNone

/-- Whether another firing follows this one. -/
def repeats (timer : Timer) : Bool := timer.period.isSome && timer.repetition.next?.isSome

/-- When the timer that follows this one fires: a period after the due date of this one. -/
def successorDueDate? (timer : Timer) : Option Instant :=
  match timer.period, timer.repetition.next? with
  | some period, some _ => some (timer.dueDate.add period)
  | _, _ => none

/-- The timer that follows this one, if it repeats. -/
def successor? (timer : Timer) (key : Nat) (creationPosition : Nat) : Option Timer :=
  match timer.period, timer.repetition.next? with
  | some period, some repetition =>
      some { timer with
        key, creationPosition, repetition
        dueDate := timer.dueDate.add period }
  | _, _ => none

/-- The timer as a payload. -/
def toPayload (timer : Timer) : TimerPayload :=
  { dueDate := some timer.dueDate, repetition := timer.repetition, period := timer.period,
    targetElementId := timer.targetElementId, definitionKey := timer.definitionKey,
    instanceKey := timer.instanceKey, elementInstanceKey := timer.elementInstanceKey }

end Timer

/-- The place of a timer in the order of firing. -/
structure TimerSlot where
  /-- When the timer is due. -/
  dueDate : Instant
  /-- When it was created. -/
  creationPosition : Nat
  /-- The key of the timer. -/
  key : Nat
deriving DecidableEq, Inhabited

namespace TimerSlot

instance : LT TimerSlot where
  lt a b := a.dueDate < b.dueDate ∨ (a.dueDate = b.dueDate ∧
    (a.creationPosition < b.creationPosition ∨
      (a.creationPosition = b.creationPosition ∧ a.key < b.key)))

theorem lt_iff (a b : TimerSlot) :
    a < b ↔ a.dueDate < b.dueDate ∨ (a.dueDate = b.dueDate ∧
      (a.creationPosition < b.creationPosition ∨
        (a.creationPosition = b.creationPosition ∧ a.key < b.key))) := Iff.rfl

instance : DecidableLT TimerSlot := fun a b => decidable_of_iff _ (lt_iff a b).symm

theorem ext_iff (a b : TimerSlot) :
    a = b ↔ a.dueDate = b.dueDate ∧ a.creationPosition = b.creationPosition ∧ a.key = b.key := by
  cases a; cases b; simp

instance : StrictOrder TimerSlot where
  irrefl a := by simp only [lt_iff, Instant.lt_iff]; omega
  trans {a b c} := by simp only [lt_iff, Instant.lt_iff, Instant.ext_iff]; omega
  connected a b := by simp only [lt_iff, ext_iff, Instant.lt_iff, Instant.ext_iff]; omega

end TimerSlot

/-- The slot of a timer. -/
def Timer.slot (timer : Timer) : TimerSlot := ⟨timer.dueDate, timer.creationPosition, timer.key⟩

/-- The pending timers of a partition. -/
structure TimerAgenda where
  /-- The timers by key. -/
  timers : SortedMap Nat Timer
  /-- The slots of the timers, in the order of firing. -/
  slots : SortedSet TimerSlot

namespace TimerAgenda

/-- The agenda without timers. -/
def empty : TimerAgenda := ⟨.empty, .empty⟩

instance : Inhabited TimerAgenda := ⟨empty⟩

/-- The pending timer with a key. -/
def get? (agenda : TimerAgenda) (key : Nat) : Option Timer := agenda.timers.get? key

/-- Whether a timer is pending. -/
def contains (agenda : TimerAgenda) (key : Nat) : Bool := agenda.timers.contains key

/-- How many timers are pending. -/
def size (agenda : TimerAgenda) : Nat := agenda.timers.size

/-- Removes a timer; without one of that key nothing changes. -/
def erase (agenda : TimerAgenda) (key : Nat) : TimerAgenda :=
  match agenda.get? key with
  | some timer => ⟨agenda.timers.erase key, agenda.slots.erase timer.slot⟩
  | none => agenda

/-- Adds a timer, in place of the one with the same key. -/
def schedule (agenda : TimerAgenda) (timer : Timer) : TimerAgenda :=
  let cleared := agenda.erase timer.key
  ⟨cleared.timers.insert timer.key timer, cleared.slots.insert timer.slot⟩

/-- The timers due at `now`, in the order of firing. -/
def dueTimers (agenda : TimerAgenda) (now : Instant) : List Timer :=
  (agenda.slots.toList.takeWhile fun slot => decide (slot.dueDate ≤ now)).filterMap fun slot =>
    agenda.get? slot.key

/-- Takes a timer off the agenda and schedules its successor, if it has one. -/
def fire (agenda : TimerAgenda) (timer : Timer) (successor : Option Timer) : TimerAgenda :=
  let cleared := agenda.erase timer.key
  match successor with
  | some next => cleared.schedule next
  | none => cleared

/-- The timers in front that are not due after the horizon; a successor on the way lowers it. -/
def firingRun (horizon : Instant) : List Timer → List Timer
  | [] => []
  | timer :: rest =>
      if horizon < timer.dueDate then []
      else
        let lowered := match timer.successorDueDate? with
          | some dueDate => min horizon dueDate
          | none => horizon
        timer :: firingRun lowered rest

/-- The due timers that may fire before any successor they make, in the order of firing. -/
def firingBatch (agenda : TimerAgenda) (now : Instant) : List Timer :=
  firingRun now (agenda.dueTimers now)

/-- When the next timer is due. -/
def nextDueDate? (agenda : TimerAgenda) : Option Instant :=
  agenda.slots.toList.head?.map TimerSlot.dueDate

/-- The timers of the start events of process definitions, in key order. -/
def startTimersOf (agenda : TimerAgenda) (definitionKeys : List Nat) : List Timer :=
  agenda.timers.values.filter fun timer =>
    timer.isStartEvent && timer.definitionKey.any fun key => definitionKeys.contains key

/-- The timers in the order of firing. -/
def inOrder (agenda : TimerAgenda) : List Timer :=
  agenda.slots.toList.filterMap fun slot => agenda.get? slot.key

end TimerAgenda

end Workflow
