/-
Whether repeating timers make progress.

A duration that is not zero leads to a later instant, inside a leap second too, except at the end
of the calendar (`Instant.lt_add`).  So a repeating timer is followed by one that is due later if
its period is not zero.

An interval that is read from a text never has the period zero, whether the text is a literal or
the value of an expression.  An interval that is itself the value of an expression is taken as it
is.  Which intervals the evaluator produces therefore decides whether repeating timers always make
progress (`EngineState.progress_iff`).
-/
import Workflow.Proofs.Timer.Origin
import Workflow.Proofs.Timer.Resolution

namespace Workflow

open Decide EngineState

/-! ### Periods -/

/-- If the repetition goes on then the period is not zero. -/
def Repetition.Advances (repetition : Repetition) (period : Option Duration) : Prop :=
  repetition.next?.isSome → ∀ length, period = some length → length.isZero = false

/-- If the timer repeats then its successor is due later, except at the end of the calendar. -/
def Timer.Progresses (timer : Timer) : Prop :=
  timer.repeats → ∃ next, timer.successorDueDate? = some next ∧
    (timer.dueDate < next ∨ Instant.latest ≤ timer.dueDate)

/-- A timer whose period is not zero makes progress. -/
theorem Timer.progresses_of_advances {timer : Timer}
    (hadvances : timer.repetition.Advances timer.period) : timer.Progresses := by
  intro hrepeats
  unfold repeats at hrepeats
  rw [Bool.and_eq_true] at hrepeats
  obtain ⟨period, hperiod⟩ := Option.isSome_iff_exists.mp hrepeats.1
  obtain ⟨repetition, hnext⟩ := Option.isSome_iff_exists.mp hrepeats.2
  refine ⟨timer.dueDate.add period, by rw [successorDueDate?, hperiod, hnext], ?_⟩
  by_cases hend : Instant.latest ≤ timer.dueDate
  · exact .inr hend
  · exact .inl (Instant.lt_add ((Instant.not_le _ _).mp hend)
      (hadvances hrepeats.2 period hperiod))

/-- An interval that was read has a period that is not zero. -/
theorem TimerCycle.isZero_of_parse {text : String} {cycle : TimerCycle}
    (h : TimerCycle.parse text = .ok cycle) : cycle.period.isZero = false := by
  unfold parse at h
  dsimp only at h
  split at h
  · rename_i count rest _ _
    cases hcount : parseCount text count with
    | error cause => rw [hcount] at h; cases h
    | ok repetition =>
        cases hperiod : parseDuration (String.ofList rest) with
        | error cause => rw [hcount, hperiod] at h; cases h
        | ok period =>
            rw [hcount, hperiod] at h
            change (if period.isZero then .error (.zeroPeriod text) else
              .ok ⟨repetition, period⟩ : Except CycleError TimerCycle) = .ok cycle at h
            by_cases hzero : period.isZero
            · rw [if_pos hzero] at h
              cases h
            · rw [if_neg hzero] at h
              cases h
              simpa using hzero
  · cases h

/-- The plan's timer goes on with a period that is not zero. -/
def TimerPlan.Advances : TimerPlan → Prop
  | .every interval => interval.repetition.Advances (some interval.period)
  | _ => True

theorem TimerPlan.Advances.resolve {plan : TimerPlan} (h : plan.Advances) (now : Instant) :
    (plan.resolve now).repetition.Advances (plan.resolve now).period := by
  cases plan with
  | «at» instant => exact nofun
  | after length => exact nofun
  | every interval => exact h

/-- What is read from a text advances. -/
theorem TimerShape.Reads.advances {shape : TimerShape} {text : String} {interval : TimerCycle}
    (h : shape.Reads text (.cycle interval)) : (TimerPlan.every interval).Advances := by
  cases h with
  | cycle hread =>
      intro _ length hlength
      cases hlength
      exact TimerCycle.isZero_of_parse hread

/-- The intervals that an evaluator produces advance. -/
def Evaluator.Advances (evaluator : Evaluator) : Prop :=
  ∀ expression vars cycle, evaluator expression vars = .ok (.cycle cycle) →
    cycle.repetition.Advances (some cycle.period)

/-- What a definition is resolved to advances, if the intervals of the evaluator do. -/
theorem TimerDefinition.advances_of_resolve {definition : TimerDefinition} {now : Instant}
    {evaluator : Evaluator} {vars : Json} {resolved : ResolvedTimer}
    (hevaluator : evaluator.Advances)
    (h : definition.resolve now evaluator vars = .ok resolved) :
    resolved.repetition.Advances resolved.period := by
  obtain ⟨plan, hstands, rfl⟩ := resolve_eq_ok_iff.mp h
  refine TimerPlan.Advances.resolve ?_ now
  cases plan with
  | «at» instant => trivial
  | after length => trivial
  | every interval =>
      change definition.StandsFor evaluator vars (.cycle interval) at hstands
      cases hstands with
      | literal hreads => exact hreads.advances
      | written _ hreads => exact hreads.advances
      | typed hvalue _ => exact hevaluator _ _ _ hvalue

/-! ### Pending timers -/

/-- A successor keeps the period. -/
theorem Timer.successor?_advances {timer next : Timer} {key position : Nat}
    (h : timer.successor? key position = some next)
    (hadvances : timer.repetition.Advances timer.period) :
    next.repetition.Advances next.period := by
  unfold successor? at h
  split at h
  · rename_i period repetition hperiod hnext
    cases h
    intro _ length hlength
    exact hadvances (by rw [hnext]; rfl) length hlength
  · cases h

/-- The periods of the pending timers are not zero. -/
structure Advancing (state : EngineState) : Prop where
  /-- The index is right. -/
  indexed : state.timers.Indexed
  /-- No repeating timer has the period zero. -/
  advances : ∀ timer, state.Pending timer → timer.repetition.Advances timer.period

namespace Advancing

theorem initial (partitionId : Nat) : Advancing (.initial partitionId) where
  indexed := TimerAgenda.indexed_empty
  advances := fun timer ht => by cases ht

theorem accepted {evaluator : Evaluator} {state final : EngineState} {command : Record}
    {answer : Event} {others : List Event} (hevaluator : evaluator.Advances)
    (h : Advancing state) (haccepted : Accepted evaluator state command final answer others) :
    Advancing final := by
  refine ⟨haccepted.reschedules.indexed h.indexed, fun timer hpending => ?_⟩
  cases haccepted.origin h.indexed hpending with
  | kept hold => exact h.advances timer hold
  | element request definition resolved key definitionKey instanceKey elementInstanceKey hresolved
      htimer =>
      rw [htimer]
      exact TimerDefinition.advances_of_resolve hevaluator hresolved
  | start definition resolved key definitionKey hresolved hdefined htimer =>
      rw [htimer]
      exact TimerDefinition.advances_of_resolve hevaluator hresolved
  | successor fired key hfired hsuccessor =>
      exact Timer.successor?_advances hsuccessor (h.advances fired hfired)

/-- After any commands, the periods of the pending timers are not zero. -/
theorem after {evaluator : Evaluator} (hevaluator : evaluator.Advances) (commands : List Record) :
    ∀ processor : Processor, processor.registry = .builtin → processor.evaluator = evaluator →
      Advancing processor.state → Advancing (processor.after commands).state :=
  Processor.after_induction evaluator Advancing
    (fun _ _ _ _ _ h haccepted => h.accepted hevaluator haccepted) commands

end Advancing

/-! ### An interval that does not advance -/

/-- The command that deploys a process without timers. -/
def deployCommand : Record :=
  .ofDraft 1 (.command none (.deployment .create) (.deployment { processId := "process" }))

/-- The command that creates an instance of that process. -/
def instanceCommand : Record :=
  .ofDraft 2 (.command none (.processInstance .create)
    (.processInstance { processId := "process" }))

/-- The command that creates the timer of an element of an instance, from an expression. -/
def timerCommand (instanceKey : Nat) (expression : String) (vars : Json) : Record :=
  .ofDraft 3 (.command none (.timer .create) (.timer
    { targetElementId := "element", definition := some ⟨.cycle, true, expression⟩,
      instanceKey := some instanceKey, elementInstanceKey := some 1, vars }))

section Run

variable {processor : Processor}

theorem apply_deployCommand (hbuiltin : processor.registry = .builtin) :
    ∃ definition : ProcessDefinition, definition.processId = "process" ∧
      (processor.apply deployCommand).2.state.processes =
        processor.state.processes.deploy definition := by
  have hdecision : Processor.decision processor.evaluator processor.state deployCommand =
      deployResolved processor.state 1 { processId := "process" } [] := rfl
  rw [Processor.apply_command hbuiltin rfl, hdecision]
  exact ⟨⟨processor.state.nextKey.1, "process", _, []⟩, rfl, rfl⟩

theorem apply_instanceCommand (hbuiltin : processor.registry = .builtin)
    {definition : ProcessDefinition}
    (hlatest : processor.state.processes.latest? "process" = some definition) :
    (processor.apply instanceCommand).2.state =
      (startInstance processor.state definition none).2 := by
  have hdecision : Processor.decision processor.evaluator processor.state instanceCommand =
      createInstance processor.evaluator processor.state instanceCommand := rfl
  rw [Processor.apply_command hbuiltin rfl, hdecision]
  unfold createInstance
  simp only [instanceCommand, Record.ofDraft, Draft.command, hlatest]
  rfl

theorem apply_timerCommand (hbuiltin : processor.registry = .builtin) {instanceKey : Nat}
    {owner : ProcessInstance} {expression : String} {vars : Json} {cycle : TimerCycle}
    (howner : processor.state.processes.instance? instanceKey = some owner)
    (hvalue : processor.evaluator expression vars = .ok (.cycle cycle)) :
    ∃ timer, (processor.apply (timerCommand instanceKey expression vars)).2.state.timers.get?
        processor.state.nextKey.1 = some timer ∧
      timer.dueDate = Instant.epoch.add cycle.period ∧ timer.repetition = cycle.repetition ∧
      timer.period = some cycle.period := by
  have hdecision : Processor.decision processor.evaluator processor.state
      (timerCommand instanceKey expression vars) =
        createTimer processor.evaluator processor.state
          (timerCommand instanceKey expression vars) := rfl
  have hresolved : TimerDefinition.resolve ⟨.cycle, true, expression⟩ Instant.epoch
      processor.evaluator vars =
        .ok ⟨Instant.epoch.add cycle.period, cycle.repetition, some cycle.period⟩ := by
    unfold TimerDefinition.resolve TimerDefinition.plan
    rw [if_pos rfl, hvalue]
    rfl
  rw [Processor.apply_command hbuiltin rfl, hdecision]
  unfold createTimer
  simp only [timerCommand, Record.ofDraft, Draft.command, howner, hresolved]
  refine ⟨_, (TimerAgenda.get?_schedule _ _ _).trans (if_pos rfl), rfl, rfl, rfl⟩

/-- An interval that the evaluator produces becomes the timer of an element. -/
theorem exists_pending_interval (processor : Processor) (hbuiltin : processor.registry = .builtin)
    {expression : String} {vars : Json} {cycle : TimerCycle}
    (hvalue : processor.evaluator expression vars = .ok (.cycle cycle)) :
    ∃ commands key timer, (processor.after commands).state.timers.get? key = some timer ∧
      timer.dueDate = Instant.epoch.add cycle.period ∧ timer.repetition = cycle.repetition ∧
      timer.period = some cycle.period := by
  obtain ⟨definition, hid, hdeployed⟩ := apply_deployCommand hbuiltin
  generalize hfirst : (processor.apply deployCommand).2 = first at hdeployed
  have hfirst_builtin : first.registry = .builtin := by
    rw [← hfirst]
    exact hbuiltin
  have hlatest : first.state.processes.latest? "process" = some definition := by
    rw [hdeployed, ← hid]
    unfold ProcessCatalog.latest? ProcessCatalog.deploy
    rw [SortedMap.get?_insert, if_pos rfl]
    exact (SortedMap.get?_insert _ _ _ _).trans (if_pos rfl)
  have hinstance := apply_instanceCommand hfirst_builtin hlatest
  generalize hsecond : (first.apply instanceCommand).2 = second at hinstance
  have howner : second.state.processes.instance? first.state.nextKey.1 =
      some (startInstance first.state definition none).1 := by
    rw [hinstance]
    exact (SortedMap.get?_insert _ _ _ _).trans (if_pos rfl)
  have hsecond_builtin : second.registry = .builtin := by
    rw [← hsecond]
    exact hfirst_builtin
  have hsecond_value : second.evaluator expression vars = .ok (.cycle cycle) := by
    rw [← hsecond, ← hfirst]
    exact hvalue
  obtain ⟨timer, hget, htimer⟩ := apply_timerCommand hsecond_builtin howner hsecond_value
  refine ⟨[deployCommand, instanceCommand, timerCommand first.state.nextKey.1 expression vars],
    second.state.nextKey.1, timer, ?_, htimer⟩
  show ((((processor.apply deployCommand).2.apply instanceCommand).2.apply _).2).state.timers.get? _
    = _
  rw [hfirst, hsecond]
  exact hget

end Run

/-- **Repeating timers make progress if and only if the intervals that the evaluator produces have
a period.**  Whatever commands are applied, a pending timer that repeats is followed by one that is
due later, or is due at the end of the calendar already.  That is so just if no value of an
expression is an interval that goes on with the period zero; intervals in writing, as literals or
as values, are never like that. -/
theorem EngineState.progress_iff (partitionId : Nat) (evaluator : Evaluator) :
    (∀ commands key timer,
      ((Processor.start partitionId .builtin evaluator).after commands).state.timers.get? key =
        some timer → timer.Progresses) ↔
    ∀ expression vars cycle, evaluator expression vars = .ok (.cycle cycle) →
      cycle.repetition.next?.isSome → cycle.period.isZero = false := by
  constructor
  · intro hprogress expression vars cycle hvalue hnext
    obtain ⟨commands, key, timer, hget, hdue, hrepetition, hperiod⟩ :=
      exists_pending_interval (.start partitionId .builtin evaluator) rfl hvalue
    have hrepeats : timer.repeats := by
      rw [Timer.repeats, hperiod, hrepetition, hnext]
      rfl
    obtain ⟨next, hsuccessor, hlater⟩ := hprogress commands key timer hget hrepeats
    by_contra hperiod_zero
    have hzero : cycle.period = ⟨0⟩ := by
      have hnanos := eq_true_of_ne_false hperiod_zero
      rw [Duration.isZero, beq_iff_eq] at hnanos
      rw [← hnanos]
    have hsame : next = timer.dueDate := by
      obtain ⟨repetition, hrepetition_next⟩ := Option.isSome_iff_exists.mp hnext
      rw [Timer.successorDueDate?, hperiod, hrepetition, hrepetition_next] at hsuccessor
      cases hsuccessor
      rw [hdue, hzero]
      decide
    rw [hsame, hdue, hzero] at hlater
    exact absurd hlater (by decide)
  · intro hintervals commands key timer hget
    have hevaluator : evaluator.Advances := by
      intro expression vars cycle hvalue hnext length hlength
      cases hlength
      exact hintervals expression vars cycle hvalue hnext
    have hadvancing := Advancing.after hevaluator commands (.start partitionId .builtin evaluator)
      rfl rfl (Advancing.initial partitionId)
    have hkey := hadvancing.indexed.key_eq key timer hget
    rw [← hkey] at hget
    exact Timer.progresses_of_advances (hadvancing.advances timer hget)

/-- Commands by which an element gets a timer from an expression. -/
def elementTimerCommands : List Record :=
  [deployCommand, instanceCommand, timerCommand (keyAt 1 2) "= interval" .null]

/-- A repeating timer whose successor is due when it is due itself. -/
theorem EngineState.successor_due_at_once :
    let evaluator := Evaluator.ofTable [("= interval", .ok (.cycle ⟨.infinite, ⟨0⟩⟩))]
    ∃ timer, ((Processor.start 1 .builtin evaluator).after
        elementTimerCommands).state.timers.get? (keyAt 1 3) = some timer ∧
      timer.dueDate = Instant.epoch ∧ timer.repeats = true ∧
      timer.successorDueDate? = some Instant.epoch ∧ ¬ timer.Progresses := by
  intro evaluator
  let timer : Timer :=
    { key := keyAt 1 3, dueDate := .epoch, repetition := .infinite, period := some ⟨0⟩,
      targetElementId := "element", definitionKey := some (keyAt 1 1),
      instanceKey := some (keyAt 1 2), elementInstanceKey := some 1, creationPosition := 3 }
  refine ⟨timer, by decide +kernel, rfl, rfl, by decide, fun hprogress => ?_⟩
  obtain ⟨next, hnext, hlater⟩ := hprogress rfl
  have hsame : Instant.epoch = next := Option.some.inj (Eq.trans (by decide) hnext)
  rw [← hsame] at hlater
  exact absurd hlater (by decide)

end Workflow
