/-
Where pending timers come from.

A timer that is pending after a command was pending before, or the command resolved its definition,
or it is the successor of a timer that was pending and has fired (`TimerOrigin`).  A property of
timers that every resolved definition has, and that successors inherit, is therefore a property of
all pending timers.

One such property is that the process of a start event is deployed (`Targeted`).  Definitions are
never removed, so a start-event timer always finds the definition that it makes an instance of.
-/
import Workflow.Proofs.Timer.Schedule

namespace Workflow

open Decide

/-- Start events are resolved one by one. -/
theorem Decide.resolveStarts_cons_ok {evaluator : Evaluator} {now : Instant} {first : TimerStart}
    {rest : List TimerStart} {starts : List ResolvedStart}
    (h : resolveStarts evaluator now (first :: rest) = .ok starts) :
    ∃ timer others, first.timer.resolve now evaluator .null = .ok timer ∧
      resolveStarts evaluator now rest = .ok others ∧
      starts = ⟨first.elementId, timer⟩ :: others := by
  unfold resolveStarts at h
  cases htimer : first.timer.resolve now evaluator .null with
  | error cause => rw [htimer] at h; cases h
  | ok timer =>
      cases hrest : resolveStarts evaluator now rest with
      | error cause => rw [htimer, hrest] at h; cases h
      | ok others =>
          rw [htimer, hrest] at h
          cases h
          exact ⟨timer, others, rfl, rfl, rfl⟩

namespace EngineState

/-- The definition with a key is deployed. -/
def Defined (state : EngineState) (key : Nat) : Prop :=
  ∃ definition, state.processes.definition? key = some definition ∧ definition.key = key

/-- The definitions are the same. -/
theorem Defined.of_definitions_eq {state later : EngineState} {key : Nat} (h : state.Defined key)
    (hsame : later.processes.definitions = state.processes.definitions) : later.Defined key := by
  unfold Defined ProcessCatalog.definition? at *
  rw [hsame]
  exact h

theorem definitions_fireStart (state : EngineState) (timer : Timer) :
    (fireStart state timer).1.processes.definitions = state.processes.definitions := by
  unfold fireStart
  split
  · split <;> rfl
  · rfl

theorem processes_scheduleSuccessor (state : EngineState) (timer : Timer) (position : Nat) :
    (scheduleSuccessor state timer position).1.processes = state.processes := by
  unfold scheduleSuccessor
  split
  · dsimp only
    split <;> rfl
  · rfl

theorem processes_scheduleStarts (definitionKey position : Nat) (starts : List ResolvedStart) :
    ∀ state, (scheduleStarts definitionKey position state starts).1.processes =
      state.processes := by
  induction starts with
  | nil => intro state; rfl
  | cons start rest ih => intro state; exact ih _

/-- A definition that is deployed is the one under its key. -/
theorem definition?_deployed {state final : EngineState} {position : Nat}
    {request : DeploymentPayload} {starts : List ResolvedStart} {answer : Event}
    {others : List Event}
    (h : deployResolved state position request starts = .accept final answer others) (key : Nat) :
    ∃ definition : ProcessDefinition, definition.key = state.nextKey.1 ∧
      final.processes.definition? key =
        if key = state.nextKey.1 then some definition else state.processes.definition? key := by
  rw [deployResolved_final h, ProcessCatalog.definition?, processes_scheduleStarts]
  refine ⟨_, ?_, SortedMap.get?_insert _ _ _ _⟩
  rfl

end EngineState

open EngineState

/-- A successor acts on what the timer acts on. -/
theorem Timer.successor?_target {timer next : Timer} {key position : Nat}
    (h : timer.successor? key position = some next) :
    next.definitionKey = timer.definitionKey ∧ next.isStartEvent = timer.isStartEvent := by
  unfold successor? at h
  split at h
  · cases h
    exact ⟨rfl, rfl⟩
  · cases h

/-- Where a pending timer comes from. -/
inductive TimerOrigin (evaluator : Evaluator) (state later : EngineState) (command : Record)
    (timer : Timer) : Prop
  /-- It was pending before. -/
  | kept (hpending : state.Pending timer)
  /-- It is the timer of an element. -/
  | element (request : TimerPayload) (definition : TimerDefinition) (resolved : ResolvedTimer)
      (key definitionKey instanceKey elementInstanceKey : Nat)
      (hresolved : definition.resolve command.timestamp evaluator request.vars = .ok resolved)
      (htimer : timer = elementTimer key command.position definitionKey instanceKey
        elementInstanceKey request resolved)
  /-- It is the timer of a start event of a deployed process. -/
  | start (definition : TimerDefinition) (resolved : ResolvedStart) (key definitionKey : Nat)
      (hresolved : definition.resolve command.timestamp evaluator .null = .ok resolved.timer)
      (hdefined : later.Defined definitionKey)
      (htimer : timer = startTimer key definitionKey command.position resolved)
  /-- It is the successor of a timer that has fired. -/
  | successor (fired : Timer) (key : Nat) (hpending : state.Pending fired)
      (hsuccessor : fired.successor? key command.position = some timer)

/-- What is resolved for a start event is its timer. -/
theorem resolve_of_mem {evaluator : Evaluator} {now : Instant} {requested : List TimerStart} :
    ∀ {starts : List ResolvedStart}, resolveStarts evaluator now requested = .ok starts →
      ∀ start ∈ starts, ∃ definition : TimerDefinition,
        definition.resolve now evaluator .null = .ok start.timer := by
  induction requested with
  | nil =>
      intro starts h start hs
      cases h
      exact absurd hs List.not_mem_nil
  | cons first rest ih =>
      intro starts h start hs
      obtain ⟨timer, others, htimer, hrest, rfl⟩ := resolveStarts_cons_ok h
      rcases List.mem_cons.mp hs with heq | hin
      · rw [heq]
        exact ⟨first.timer, htimer⟩
      · exact ih hrest start hin

/-- A timer that is pending after start events are scheduled was pending or is one of theirs. -/
theorem pending_scheduleStarts {timer : Timer} (definitionKey position : Nat)
    (starts : List ResolvedStart) :
    ∀ state, (scheduleStarts definitionKey position state starts).1.Pending timer →
      state.Pending timer ∨
        ∃ start ∈ starts, ∃ key, timer = startTimer key definitionKey position start := by
  induction starts with
  | nil => intro state h; exact .inl h
  | cons start rest ih =>
      intro state h
      rcases ih _ h with hfirst | ⟨other, ho, key, htimer⟩
      · unfold Pending at hfirst
        rw [TimerAgenda.get?_schedule] at hfirst
        split at hfirst
        · cases hfirst
          exact .inr ⟨start, List.mem_cons_self, _, rfl⟩
        · exact .inl hfirst
      · exact .inr ⟨other, List.mem_cons_of_mem _ ho, key, htimer⟩

/-- A timer that is pending after timers are canceled was pending before. -/
theorem pending_cancelTimers {timer : Timer} (timers : List Timer) :
    ∀ state, (cancelTimers timers state).1.Pending timer → state.Pending timer := by
  induction timers with
  | nil => intro state h; exact h
  | cons first rest ih =>
      intro state h
      have hrest := ih { state with timers := state.timers.erase first.key } h
      unfold Pending at hrest
      rw [TimerAgenda.get?_erase] at hrest
      exact (Option.ite_none_left_eq_some.mp hrest).2

section Accepted

variable {evaluator : Evaluator} {state final : EngineState} {command : Record} {answer : Event}
  {others : List Event}

/-- Whatever is accepted, what is deployed stays so. -/
theorem Accepted.defined (h : Accepted evaluator state command final answer others) {key : Nat}
    (hdefined : state.Defined key) : final.Defined key := by
  cases h with
  | deployed request starts hintent hvalue hid hunique hstarts hdeploy =>
      obtain ⟨definition, hkey, hget⟩ := definition?_deployed hdeploy key
      unfold Defined
      rw [hget]
      by_cases hnew : key = state.nextKey.1
      · rw [if_pos hnew]
        exact ⟨definition, rfl, hkey.trans hnew.symm⟩
      · rw [if_neg hnew]
        exact hdefined
  | timerFired subject timer =>
      refine hdefined.of_definitions_eq ?_
      rw [processes_scheduleSuccessor, definitions_fireStart]
  | jobFailed subject request job jobs =>
      obtain ⟨counter, incidents, -, heq⟩ := openIncident_with { state with jobs } job
      rw [heq]
      exact hdefined
  | retriesUpdated subject request revived job jobs =>
      obtain ⟨incidents, heq⟩ := resolveIncident_with { state with jobs } subject
      rw [heq]
      exact hdefined
  | jobCanceled subject job jobs =>
      obtain ⟨incidents, heq⟩ := resolveIncident_with { state with jobs } subject
      rw [heq]
      exact hdefined
  | _ => exact hdefined.of_definitions_eq rfl

/-- **Every pending timer comes from somewhere.** -/
theorem Accepted.origin (h : Accepted evaluator state command final answer others)
    (hindexed : state.timers.Indexed) {timer : Timer} (hpending : final.Pending timer) :
    TimerOrigin evaluator state final command timer := by
  have hsame : final.timers = state.timers → TimerOrigin evaluator state final command timer := by
    intro heq
    unfold Pending at hpending
    rw [heq] at hpending
    exact .kept hpending
  cases h with
  | deployed request starts hintent hvalue hid hunique hstarts hdeploy =>
      have hdefined : final.Defined state.nextKey.1 := by
        obtain ⟨definition, hkey, hget⟩ := definition?_deployed hdeploy state.nextKey.1
        exact ⟨definition, hget.trans (if_pos rfl), hkey⟩
      rw [deployResolved_final hdeploy] at hpending
      rcases pending_scheduleStarts _ _ starts _ hpending with hold | ⟨start, hs, key, htimer⟩
      · exact .kept (pending_cancelTimers _ _ hold)
      · obtain ⟨definition, hresolved⟩ := resolve_of_mem hstarts start hs
        exact .start definition start key state.nextKey.1 hresolved hdefined htimer
  | timerCreated request definition instanceKey elementInstanceKey owner resolved hintent hvalue
      hdefinition hinstance helement howner hresolved =>
      unfold Pending at hpending
      rw [TimerAgenda.get?_schedule] at hpending
      split at hpending
      · cases hpending
        exact .element request definition resolved state.nextKey.1 owner.definitionKey instanceKey
          elementInstanceKey hresolved rfl
      · exact .kept hpending
  | timerFired subject fired hintent hkey htimer hdue =>
      have hown := hindexed.key_eq subject fired htimer
      subst hown
      rcases EngineState.pending_fired hpending with hsuccessor | ⟨-, -, hold⟩
      · exact .successor fired _ htimer hsuccessor
      · exact .kept hold
  | timerCanceled subject =>
      unfold Pending at hpending
      rw [TimerAgenda.get?_erase] at hpending
      exact .kept (Option.ite_none_left_eq_some.mp hpending).2
  | jobFailed subject request job jobs =>
      obtain ⟨counter, incidents, -, heq⟩ := openIncident_with { state with jobs } job
      exact hsame (by rw [heq])
  | retriesUpdated subject request revived job jobs =>
      obtain ⟨incidents, heq⟩ := resolveIncident_with { state with jobs } subject
      exact hsame (by rw [heq])
  | jobCanceled subject job jobs =>
      obtain ⟨incidents, heq⟩ := resolveIncident_with { state with jobs } subject
      exact hsame (by rw [heq])
  | _ => exact hsame rfl

end Accepted

/-! ### What start-event timers start -/

/-- Every pending timer names a definition, which is deployed if the timer is of a start event. -/
structure Targeted (state : EngineState) : Prop where
  /-- The index is right. -/
  indexed : state.timers.Indexed
  /-- The definition is named. -/
  definition : ∀ timer, state.Pending timer → ∃ key, timer.definitionKey = some key ∧
    (timer.isStartEvent → state.Defined key)

namespace Targeted

theorem initial (partitionId : Nat) : Targeted (.initial partitionId) where
  indexed := TimerAgenda.indexed_empty
  definition := fun timer ht => by cases ht

theorem accepted {evaluator : Evaluator} {state final : EngineState} {command : Record}
    {answer : Event} {others : List Event} (h : Targeted state)
    (haccepted : Accepted evaluator state command final answer others) : Targeted final := by
  refine ⟨haccepted.reschedules.indexed h.indexed, fun timer hpending => ?_⟩
  have hkept : ∀ other, state.Pending other → ∃ key, other.definitionKey = some key ∧
      (other.isStartEvent → final.Defined key) := by
    intro other ho
    obtain ⟨key, hkey, hdefined⟩ := h.definition other ho
    exact ⟨key, hkey, fun hstart => haccepted.defined (hdefined hstart)⟩
  cases haccepted.origin h.indexed hpending with
  | kept hold => exact hkept timer hold
  | element request definition resolved key definitionKey instanceKey elementInstanceKey hresolved
      htimer =>
      rw [htimer]
      exact ⟨definitionKey, rfl, nofun⟩
  | start definition resolved key definitionKey hresolved hdefined htimer =>
      rw [htimer]
      exact ⟨definitionKey, rfl, fun _ => hdefined⟩
  | successor fired key hfired hsuccessor =>
      obtain ⟨hdefinition, hstart⟩ := Timer.successor?_target hsuccessor
      obtain ⟨definitionKey, hkey, hdefined⟩ := hkept fired hfired
      rw [hdefinition, hstart]
      exact ⟨definitionKey, hkey, hdefined⟩

/-- After any commands, start-event timers find the definitions that they start. -/
theorem after (partitionId : Nat) (evaluator : Evaluator) (commands : List Record) :
    Targeted ((Processor.start partitionId .builtin evaluator).after commands).state :=
  Processor.after_induction evaluator Targeted
    (fun _ _ _ _ _ h haccepted => h.accepted haccepted) commands _ rfl rfl (initial partitionId)

end Targeted

end Workflow
