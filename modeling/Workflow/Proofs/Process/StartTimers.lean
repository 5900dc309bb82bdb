/-
Start-event timers belong to the newest version of their process.

`StartsNewest` is the invariant: a pending timer of a start event names the latest version of a
process and one of its start events, and no two name the same.  Adding a timer keeps it if the timer
is like that (`StartsNewest.schedule`).  Every timer that is added is: a deployment first cancels
the timers of the versions before, and a successor takes the place of a timer that is gone.

What a start-event timer starts is an instance of the definition that it names, so a version that is
not the latest is never started again (`start_timers_of_newest`).
-/
import Workflow.Proofs.Process.Versions
import Workflow.Proofs.Timer.Life

namespace Workflow

open Decide EngineState

/-! ### What a deployment asks for -/

namespace Decide

/-- If no element id occurs a second time, the ids differ from each other. -/
theorem nodup_of_repeatedElement? {starts : List TimerStart} (h : repeatedElement? starts = none) :
    (starts.map TimerStart.elementId).Nodup := by
  have hgo : ∀ (starts : List TimerStart) (seen : List String),
      repeatedElement?.go seen starts = none → (starts.map TimerStart.elementId).Nodup ∧
        ∀ start ∈ starts, start.elementId ∉ seen := by
    intro starts
    induction starts with
    | nil => intro seen _; exact ⟨List.nodup_nil, fun start hs => absurd hs List.not_mem_nil⟩
    | cons start rest ih =>
        intro seen h
        unfold repeatedElement?.go at h
        split at h
        · cases h
        · rename_i hfresh
          obtain ⟨hrest, hunseen⟩ := ih (start.elementId :: seen) h
          refine ⟨?_, List.forall_mem_cons.mpr ⟨hfresh, fun other ho hseen => ?_⟩⟩
          · rw [List.map_cons, List.nodup_cons]
            refine ⟨fun hmem => ?_, hrest⟩
            obtain ⟨other, ho, heq⟩ := List.mem_map.mp hmem
            exact hunseen other ho (heq ▸ List.mem_cons_self)
          · exact hunseen other ho (List.mem_cons_of_mem _ hseen)
  exact (hgo starts [] h).1

/-- The start events that are resolved are those that were asked for. -/
theorem resolveStarts_elementId {evaluator : Evaluator} {now : Instant}
    {requested : List TimerStart} : ∀ {starts : List ResolvedStart},
      resolveStarts evaluator now requested = .ok starts →
        starts.map ResolvedStart.elementId = requested.map TimerStart.elementId := by
  induction requested with
  | nil => intro starts h; cases h; rfl
  | cons first rest ih =>
      intro starts h
      obtain ⟨timer, others, -, hrest, rfl⟩ := resolveStarts_cons_ok h
      rw [List.map_cons, List.map_cons, ih hrest]

end Decide

namespace EngineState

/-- What is pending after timers are canceled is none of them. -/
theorem not_mem_of_pending_cancelTimers {timer : Timer} (timers : List Timer) :
    ∀ state, (cancelTimers timers state).1.Pending timer → timer ∉ timers := by
  induction timers with
  | nil => intro state _; exact List.not_mem_nil
  | cons first rest ih =>
      intro state h hmem
      rcases List.mem_cons.mp hmem with rfl | hin
      · have hgone :=
          pending_cancelTimers rest { state with timers := state.timers.erase timer.key } h
        unfold Pending at hgone
        rw [TimerAgenda.get?_erase, if_pos rfl] at hgone
        cases hgone
      · exact ih { state with timers := state.timers.erase first.key } h hin

end EngineState

theorem TimerAgenda.mem_startTimersOf {agenda : TimerAgenda} {timer : Timer} {key : Nat}
    {definitionKeys : List Nat} (hget : agenda.get? timer.key = some timer)
    (hstart : timer.isStartEvent) (hdefinition : timer.definitionKey = some key)
    (hmem : key ∈ definitionKeys) : timer ∈ agenda.startTimersOf definitionKeys :=
  List.mem_filter.mpr ⟨(SortedMap.mem_values_iff _ _).mpr ⟨timer.key, hget⟩, by
    simp [hstart, hdefinition, hmem]⟩

theorem Timer.successor?_element {timer next : Timer} {key position : Nat}
    (h : timer.successor? key position = some next) :
    next.targetElementId = timer.targetElementId := by
  unfold successor? at h
  split at h
  · cases h
    rfl
  · cases h

/-! ### The invariant -/

/-- The timer is for a start event of the latest version of a process. -/
def Timer.ForNewest (timer : Timer) (state : EngineState) : Prop :=
  ∃ definition : ProcessDefinition, timer.definitionKey = some definition.key ∧
    state.processes.latest? definition.processId = some definition ∧
    timer.targetElementId ∈ definition.timerStarts.map TimerStart.elementId

/-- Every pending start-event timer is for a start event of the latest version of its process, and
there is one at most for each. -/
structure StartsNewest (state : EngineState) : Prop where
  /-- The index is right. -/
  indexed : state.timers.Indexed
  /-- A pending start-event timer is for the latest version. -/
  newest : ∀ timer, state.Pending timer → timer.isStartEvent → timer.ForNewest state
  /-- There is one at most for each start event. -/
  single : ∀ first second, state.Pending first → state.Pending second → first.isStartEvent →
    second.isStartEvent → first.definitionKey = second.definitionKey →
    first.targetElementId = second.targetElementId → first = second

namespace StartsNewest

variable {state later : EngineState}

theorem initial (partitionId : Nat) : StartsNewest (.initial partitionId) where
  indexed := TimerAgenda.indexed_empty
  newest := fun timer ht => by cases ht
  single := fun first second hfirst => by cases hfirst

theorem forNewest_congr {timer : Timer} (h : timer.ForNewest state)
    (hlatest : ∀ processId, later.processes.latest? processId =
      state.processes.latest? processId) : timer.ForNewest later := by
  obtain ⟨definition, hkey, hnewest, htarget⟩ := h
  exact ⟨definition, hkey, (hlatest definition.processId).trans hnewest, htarget⟩

/-- Taking timers away keeps the invariant, as long as what is left is for the latest versions. -/
theorem shrink (h : StartsNewest state) (hindexed : later.timers.Indexed)
    (hpending : ∀ timer, later.Pending timer → state.Pending timer)
    (hnewest : ∀ timer, later.Pending timer → timer.isStartEvent → timer.ForNewest later) :
    StartsNewest later :=
  ⟨hindexed, hnewest, fun first second hfirst hsecond =>
    h.single first second (hpending first hfirst) (hpending second hsecond)⟩

/-- Timers are taken away while the versions stay. -/
theorem keep (h : StartsNewest state) (hindexed : later.timers.Indexed)
    (hpending : ∀ timer, later.Pending timer → state.Pending timer)
    (hlatest : ∀ processId, later.processes.latest? processId =
      state.processes.latest? processId) : StartsNewest later :=
  h.shrink hindexed hpending fun timer ht hstart =>
    forNewest_congr (h.newest timer (hpending timer ht) hstart) hlatest

/-- A timer is added while the versions stay. -/
theorem schedule (h : StartsNewest state) {timer : Timer}
    (htimers : later.timers = state.timers.schedule timer)
    (hlatest : ∀ processId, later.processes.latest? processId =
      state.processes.latest? processId)
    (hnewest : timer.isStartEvent → timer.ForNewest state)
    (hsingle : ∀ other, state.Pending other → other.isStartEvent → timer.isStartEvent →
      other.definitionKey = timer.definitionKey →
      other.targetElementId ≠ timer.targetElementId) : StartsNewest later := by
  have hpending : ∀ other, later.Pending other → other = timer ∨ state.Pending other := by
    intro other ho
    unfold Pending at ho
    rw [htimers, TimerAgenda.get?_schedule] at ho
    split at ho
    · exact .inl (Option.some.inj ho).symm
    · exact .inr ho
  refine ⟨htimers ▸ h.indexed.schedule timer, ?_, ?_⟩
  · intro other ho hstart
    rcases hpending other ho with rfl | hold
    · exact forNewest_congr (hnewest hstart) hlatest
    · exact forNewest_congr (h.newest other hold hstart) hlatest
  · intro first second hfirst hsecond hstart hstart' hdefinition htarget
    rcases hpending first hfirst with rfl | hold
    · rcases hpending second hsecond with rfl | hold'
      · rfl
      · exact absurd htarget.symm (hsingle second hold' hstart' hstart hdefinition.symm)
    · rcases hpending second hsecond with rfl | hold'
      · exact absurd htarget (hsingle first hold hstart hstart' hdefinition)
      · exact h.single first second hold hold' hstart hstart' hdefinition htarget

/-! ### Each step of a decision -/

/-- The timers of the start events of the latest version are scheduled. -/
theorem scheduleStarts {definition : ProcessDefinition} (position : Nat)
    (starts : List ResolvedStart) : ∀ state : EngineState, StartsNewest state →
      state.processes.latest? definition.processId = some definition →
      (starts.map ResolvedStart.elementId).Nodup →
      (∀ start ∈ starts, start.elementId ∈ definition.timerStarts.map TimerStart.elementId) →
      (∀ start ∈ starts, ∀ timer, state.Pending timer → timer.isStartEvent →
        timer.definitionKey = some definition.key → timer.targetElementId ≠ start.elementId) →
      StartsNewest (Decide.scheduleStarts definition.key position state starts).1 := by
  induction starts with
  | nil => intro state h _ _ _ _; exact h
  | cons start rest ih =>
      intro state h hlatest hnodup htargets hfree
      rw [List.map_cons, List.nodup_cons] at hnodup
      have hscheduled : StartsNewest { state.nextKey.2 with
          timers := state.timers.schedule
            (startTimer state.nextKey.1 definition.key position start) } := by
        refine h.schedule rfl (fun processId => rfl) ?_ ?_
        · intro _
          exact ⟨definition, rfl, hlatest, htargets start List.mem_cons_self⟩
        · intro other ho hstart _ hsame
          exact hfree start List.mem_cons_self other ho hstart hsame
      refine ih _ hscheduled hlatest hnodup.2
        (fun other ho => htargets other (List.mem_cons_of_mem _ ho)) ?_
      intro other hother timer htimer hstart hdefinition
      unfold Pending at htimer
      rw [TimerAgenda.get?_schedule] at htimer
      split at htimer
      · cases htimer
        exact fun heq => hnodup.1 (List.mem_map.mpr ⟨other, hother, heq.symm⟩)
      · exact hfree other (List.mem_cons_of_mem _ hother) timer htimer hstart hdefinition

/-- After a deployment only timers of the latest versions are left. -/
theorem cleared (h : StartsNewest state) (hversioned : Versioned state)
    (hcapacity : state.keyCounter + 1 < 2 ^ keyCounterBits) (request : DeploymentPayload) :
    StartsNewest (state.cleared request) := by
  have hpending : ∀ timer, (state.cleared request).Pending timer → state.Pending timer :=
    fun timer ht => pending_cancelTimers _ (state.listed request) ht
  refine h.shrink ((reschedules_cancelTimers _ 0 (state.listed request)).indexed h.indexed)
    hpending fun timer ht hstart => ?_
  obtain ⟨definition, hkey, hlatest, htarget⟩ := h.newest timer (hpending timer ht) hstart
  refine ⟨definition, hkey, ?_, htarget⟩
  by_cases hid : request.processId = definition.processId
  · -- The definition is an earlier version of the process, so its timers were canceled.
    refine absurd ?_ (not_mem_of_pending_cancelTimers _ (state.listed request) ht)
    refine TimerAgenda.mem_startTimersOf (hpending timer ht) hstart hkey ?_
    rw [hversioned.latest?_eq] at hlatest
    rw [ProcessCatalog.versionsOf_eq, hid]
    exact List.mem_map_of_mem (List.mem_of_getLast? hlatest)
  · rw [processes_cleared, hversioned.latest?_release hcapacity request, if_neg hid]
    exact hlatest

/-- A deployment schedules timers for the latest version only. -/
theorem deployed (h : StartsNewest state) (hversioned : Versioned state) {evaluator : Evaluator}
    {command : Record} {request : DeploymentPayload} {starts : List ResolvedStart}
    (hcapacity : state.keyCounter + 1 < 2 ^ keyCounterBits)
    (hunique : repeatedElement? request.timerStarts = none)
    (hstarts : resolveStarts evaluator command.timestamp request.timerStarts = .ok starts) :
    StartsNewest (Decide.scheduleStarts (state.release request).key command.position
      (state.cleared request) starts).1 := by
  have hids := resolveStarts_elementId hstarts
  refine scheduleStarts command.position starts _ (h.cleared hversioned hcapacity request)
    ?_ ?_ ?_ ?_
  · rw [processes_cleared, hversioned.latest?_release hcapacity request]
    exact if_pos rfl
  · rw [hids]
    exact nodup_of_repeatedElement? hunique
  · intro start hs
    have hmem : start.elementId ∈ starts.map ResolvedStart.elementId := List.mem_map_of_mem hs
    rw [hids] at hmem
    exact hmem
  · -- Timers that were pending before name a key that was handed out before.
    intro start hs timer htimer hstart hdefinition
    have hold : state.Pending timer := pending_cancelTimers _ (state.listed request) htimer
    obtain ⟨definition, hkey, hlatest, -⟩ := h.newest timer hold hstart
    obtain ⟨key, -, hget⟩ := Option.bind_eq_some_iff.mp hlatest
    obtain ⟨hown, hissued⟩ := hversioned.own key definition hget
    rw [hkey, hown] at hdefinition
    exact absurd (Option.some.inj hdefinition) (Nat.ne_of_lt (hissued.lt_nextKey hcapacity))

/-- A timer that is removed leaves the others. -/
theorem erase (h : StartsNewest state) (key : Nat) :
    StartsNewest { state with timers := state.timers.erase key } := by
  refine h.keep (h.indexed.erase key) (fun timer ht => ?_) fun processId => rfl
  unfold Pending at ht
  rw [TimerAgenda.get?_erase] at ht
  exact (Option.ite_none_left_eq_some.mp ht).2

/-- The successor of a timer takes its place. -/
theorem fired (h : StartsNewest state) {timer : Timer} (position : Nat)
    (hpending : state.Pending timer) :
    StartsNewest (scheduleSuccessor
      (fireStart { state with timers := state.timers.erase timer.key } timer).1 timer
      position).1 := by
  let removed := { state with timers := state.timers.erase timer.key }
  have hlatest : ∀ processId, (fireStart removed timer).1.processes.latest? processId =
      removed.processes.latest? processId := by
    intro processId
    unfold fireStart
    split
    · split <;> rfl
    · rfl
  have htimers : (fireStart removed timer).1.timers = removed.timers :=
    fireStart_timers removed timer
  have hstarted : StartsNewest (fireStart removed timer).1 := by
    refine (h.erase timer.key).keep (htimers ▸ h.indexed.erase timer.key) (fun other ho => ?_)
      hlatest
    unfold Pending at ho
    rw [htimers] at ho
    exact ho
  unfold scheduleSuccessor
  by_cases hrepeats : timer.repeats
  · rw [if_pos hrepeats]
    dsimp only
    cases hnext : timer.successor? (fireStart removed timer).1.nextKey.1 position with
    | none => exact hstarted.keep hstarted.indexed (fun other ho => ho) fun processId => rfl
    | some next =>
        obtain ⟨hdefinition, hstart⟩ := Timer.successor?_target hnext
        have htarget := Timer.successor?_element hnext
        refine hstarted.schedule rfl (fun processId => rfl) ?_ ?_
        · intro hnextStart
          obtain ⟨definition, hkey, hnewest, hmem⟩ :=
            h.newest timer hpending (hstart ▸ hnextStart)
          exact ⟨definition, hdefinition.trans hkey, (hlatest _).trans hnewest,
            by rw [htarget]; exact hmem⟩
        · -- Only the timer that fires is for this start event, and it is gone.
          intro other hother hotherStart hnextStart hsame heq
          unfold Pending at hother
          rw [htimers, TimerAgenda.get?_erase] at hother
          obtain ⟨hne, hold⟩ := Option.ite_none_left_eq_some.mp hother
          refine hne (congrArg Timer.key ?_)
          exact h.single other timer hold hpending hotherStart (hstart ▸ hnextStart)
            (hsame.trans hdefinition) (heq.trans htarget)
  · rw [if_neg hrepeats]
    exact hstarted

/-- Every way of accepting a command keeps the invariant. -/
theorem accepted {evaluator : Evaluator} {command : Record} {final : EngineState} {answer : Event}
    {others : List Event} (h : StartsNewest state) (hversioned : Versioned state)
    (haccepted : Accepted evaluator state command final answer others)
    (hcapacity : final.keyCounter < 2 ^ keyCounterBits) : StartsNewest final := by
  have hlatest := haccepted.registers.latest?_eq
  have hkeeps := haccepted.keepsTimers
  cases haccepted with
  | deployed request starts hintent hvalue hid hunique hstarts hdeploy =>
      have hcounter : (state.cleared request).keyCounter ≤ final.keyCounter := by
        rw [deployResolved_final hdeploy]
        exact (keepsJobs_scheduleStarts _ _ starts _).keyCounter
      rw [deployResolved_final hdeploy]
      exact h.deployed hversioned (Nat.lt_of_le_of_lt hcounter hcapacity) hunique hstarts
  | timerCreated request definition instanceKey elementInstanceKey owner resolved =>
      exact h.schedule rfl (fun processId => rfl) nofun fun other ho hstart hnew => by cases hnew
  | timerUnresolved => exact h.keep h.indexed (fun timer ht => ht) fun processId => rfl
  | timerFired key timer hintent hkey htimer hdue =>
      have hown := h.indexed.key_eq key timer htimer
      subst hown
      exact h.fired command.position htimer
  | timerCanceled key => exact h.erase key
  | _ =>
      have hother := congrArg Intent.changesTimers ‹command.intent = _›
      have htimers := (hkeeps hother).1
      refine h.keep (by rw [htimers]; exact h.indexed) (fun timer ht => ?_) (hlatest ?_)
      · unfold Pending at ht
        rw [htimers] at ht
        exact ht
      · intro hdeployment
        rw [hdeployment] at hother
        cases hother

end StartsNewest

/-- What holds of the versions and their timers holds after any commands, and the versions of a
process only get more. -/
theorem Processor.startsNewest_after {processor : Processor}
    (hbuiltin : processor.registry = .builtin) (hversioned : Versioned processor.state)
    (hstarts : StartsNewest processor.state) (commands : List Record)
    (hcapacity : (processor.after commands).state.keyCounter < 2 ^ keyCounterBits) :
    Versioned (processor.after commands).state ∧ StartsNewest (processor.after commands).state ∧
      ∀ processId, processor.state.processes.versions processId <+:
        (processor.after commands).state.processes.versions processId := by
  refine history_induction processor.evaluator
    (fun _ state => Versioned state ∧ StartsNewest state ∧ ∀ processId,
      processor.state.processes.versions processId <+: state.processes.versions processId)
    (fun past state command draft h _ => h) ?_ commands processor [] hbuiltin rfl
    ⟨hversioned, hstarts, fun processId => List.prefix_refl _⟩ hcapacity
  intro past state command final answer others h haccepted hfits
  obtain ⟨hbefore, hnewest, hgrown⟩ := h
  exact ⟨hbefore.accepted haccepted hfits, hnewest.accepted hbefore haccepted hfits,
    fun processId => (hgrown processId).trans (haccepted.versions_grow hbefore hfits processId)⟩

/-! ### What is started -/

/-- **An instance that is started is of the latest version of its process.** -/
theorem Accepted.starts_newest {evaluator : Evaluator} {state final : EngineState}
    {command : Record} {answer : Event} {others : List Event}
    (h : Accepted evaluator state command final answer others) (hversioned : Versioned state)
    (hnewest : StartsNewest state) {event : Event} (hmem : event ∈ answer :: others)
    (hintent : event.intent = .processInstance .created) :
    ∃ (created : ProcessInstance) (definition : ProcessDefinition) (vars : Json),
      event.value = .processInstance (created.toPayload vars) ∧
      state.processes.latest? definition.processId = some definition ∧
      created.definitionKey = definition.key := by
  cases h with
  | deployed request starts _ _ _ _ _ hdeploy =>
      cases hdeploy
      rcases List.mem_cons.mp hmem with rfl | hmem
      · cases hintent
      rcases List.mem_append.mp hmem with hcanceled | hscheduled
      · obtain ⟨timer, -, rfl⟩ := List.mem_map.mp hcanceled
        cases hintent
      · rw [intent_scheduleStarts _ starts _ event hscheduled] at hintent
        cases hintent
  | instanceCreated request definition hcommand hvalue hlatest =>
      rw [List.mem_singleton.mp hmem]
      refine ⟨(startInstance state definition none).1, definition, request.vars, rfl, ?_, rfl⟩
      rw [hversioned.latest?_processId hlatest]
      exact hlatest
  | timerFired key timer hcommand hkey htimer hdue =>
      rcases List.mem_cons.mp hmem with rfl | hmem
      · cases hintent
      rcases List.mem_append.mp hmem with hstarted | hscheduled
      · unfold fireStart at hstarted
        by_cases hstart : timer.isStartEvent
        · rw [if_pos hstart] at hstarted
          have hown := hnewest.indexed.key_eq key timer htimer
          subst hown
          obtain ⟨definition, hdefinition, hlatest, -⟩ := hnewest.newest timer htimer hstart
          obtain ⟨under, -, hget⟩ := Option.bind_eq_some_iff.mp hlatest
          have hunder := (hversioned.own under definition hget).1
          subst hunder
          rw [hdefinition, Option.bind_some] at hstarted
          dsimp only at hstarted
          rw [hget] at hstarted
          rw [List.mem_singleton.mp hstarted]
          exact ⟨_, definition, .null, rfl, hlatest, rfl⟩
        · rw [if_neg hstart] at hstarted
          exact absurd hstarted List.not_mem_nil
      · rw [intent_scheduleSuccessor event hscheduled] at hintent
        cases hintent
  | jobCreated =>
      rcases List.mem_cons.mp hmem with rfl | hmem
      · cases hintent
      · rw [List.mem_singleton.mp hmem] at hintent
        cases hintent
  | jobFailed key request job jobs =>
      rcases List.mem_cons.mp hmem with rfl | hmem
      · cases hintent
      · rw [intent_openIncident job event hmem] at hintent
        cases hintent
  | retriesUpdated key request revived job jobs =>
      rcases List.mem_cons.mp hmem with rfl | hmem
      · cases hintent
      rcases List.mem_append.mp hmem with hresolved | hoffered
      · rw [intent_resolveIncident key event hresolved] at hintent
        cases hintent
      · rw [List.mem_singleton.mp (List.mem_ite_nil_right.mp hoffered).2] at hintent
        cases hintent
  | jobCanceled key job jobs =>
      rcases List.mem_cons.mp hmem with rfl | hmem
      · cases hintent
      · rw [intent_resolveIncident key event hmem] at hintent
        cases hintent
  | _ =>
      rw [List.mem_singleton.mp hmem] at hintent
      cases hintent

/-- A version that is not the latest is never the latest again. -/
theorem Versioned.not_latest {state later : EngineState} (h : Versioned state)
    (hlater : Versioned later) {old : ProcessDefinition}
    (hgrown : state.processes.versions old.processId <+: later.processes.versions old.processId)
    (hold : state.processes.definition? old.key = some old)
    (hsuperseded : state.processes.latest? old.processId ≠ some old) :
    later.processes.latest? old.processId ≠ some old := by
  obtain ⟨added, hadded⟩ := hgrown
  rw [h.latest?_eq] at hsuperseded
  rw [hlater.latest?_eq, ← hadded]
  rw [List.getLast?_append]
  cases hend : added.getLast? with
  | none => exact hsuperseded
  | some last =>
      intro hlast
      cases hlast
      have hascend := hlater.keys_ascend old.processId
      rw [← hadded, List.pairwise_append] at hascend
      exact absurd (hascend.2.2 old (ProcessCatalog.mem_versions hold) old
        (List.mem_of_getLast? hend)) (Nat.lt_irrefl _)

namespace EngineState

/-- **Start-event timers belong to the newest version of their process.**  A pending timer without
an element instance names a definition that is the latest of its process and one of its start
events, and no two of one definition name the same.  The versions of a process id are numbered from
1 in key order, and the latest is the last of them; an instance carries the process id, the key and
the version of a definition.  A definition that is not the latest is never started again, whatever
commands come after. -/
theorem start_timers_of_newest (partitionId : Nat) (evaluator : Evaluator) (commands : List Record)
    (hcapacity : ((Processor.start partitionId .builtin evaluator).after commands).state.keyCounter
      < 2 ^ keyCounterBits) :
    let first := Processor.start partitionId .builtin evaluator
    let state := (first.after commands).state
    (∀ key timer, state.timers.get? key = some timer → timer.elementInstanceKey = none →
      ∃ definition, timer.definitionKey = some definition.key ∧
        state.processes.latest? definition.processId = some definition ∧
        timer.targetElementId ∈ definition.timerStarts.map TimerStart.elementId) ∧
    (∀ definitionKey,
      ((state.timers.startTimersOf [definitionKey]).map Timer.targetElementId).Nodup) ∧
    (∀ processId,
      let versions := state.processes.versions processId
      versions.Pairwise (fun a b => a.key < b.key) ∧
        versions.map ProcessDefinition.version = List.range' 1 versions.length ∧
        state.processes.latest? processId = versions.getLast?) ∧
    (∀ created ∈ state.processes.allInstances, ∃ definition,
      state.processes.definition? created.definitionKey = some definition ∧
        definition.key = created.definitionKey ∧ definition.processId = created.processId ∧
        definition.version = created.version) ∧
    (∀ old, state.processes.definition? old.key = some old →
      state.processes.latest? old.processId ≠ some old →
      ∀ more command, (first.after (commands ++ more)).state.keyCounter < 2 ^ keyCounterBits →
        ∀ draft ∈ ((first.after (commands ++ more)).apply command).1.followUps,
          draft.kind = .event → draft.intent = .processInstance .created →
          ∃ created vars, draft.value = .processInstance (ProcessInstance.toPayload created vars) ∧
            created.definitionKey ≠ old.key) := by
  intro first state
  obtain ⟨hversioned, hnewest, -⟩ := Processor.startsNewest_after rfl (.initial partitionId)
    (.initial partitionId) commands hcapacity
  refine ⟨?newest, ?single, ?versions, ?instances, ?superseded⟩
  case newest =>
    intro key timer hget hstart
    have hown := hnewest.indexed.key_eq key timer hget
    subst hown
    exact hnewest.newest timer hget (by rw [Timer.isStartEvent, hstart]; rfl)
  case single =>
    intro definitionKey
    refine List.pairwise_map.mpr ((hnewest.indexed.startTimersOf_pairwise _).imp_of_mem ?_)
    intro a b ha hb hne htarget
    have hnamed : ∀ timer ∈ state.timers.startTimersOf [definitionKey],
        timer.isStartEvent ∧ timer.definitionKey = some definitionKey := by
      intro timer ht
      simpa [Option.any_eq_true] using (List.mem_filter.mp ht).2
    refine hne (congrArg Timer.key ?_)
    exact hnewest.single a b (hnewest.indexed.get?_of_mem_startTimersOf ha)
      (hnewest.indexed.get?_of_mem_startTimersOf hb) (hnamed a ha).1 (hnamed b hb).1
      ((hnamed a ha).2.trans (hnamed b hb).2.symm) htarget
  case versions =>
    exact fun processId => ⟨hversioned.keys_ascend processId, hversioned.numbered processId,
      hversioned.latest?_eq processId⟩
  case instances =>
    intro created hmem
    obtain ⟨key, hget⟩ := (SortedMap.mem_values_iff _ _).mp hmem
    obtain ⟨-, definition, hdefinition, hid, hversion⟩ := hversioned.carried key created hget
    exact ⟨definition, hdefinition, (hversioned.own _ definition hdefinition).1, hid, hversion⟩
  case superseded =>
    intro old hold hsuperseded more command hfits draft hdraft hkind hintent
    rw [Processor.after_append] at hfits hdraft
    have hbuiltin : (first.after commands).registry = .builtin := Processor.after_registry _ _
    obtain ⟨hlater, hlatest, hgrown⟩ :=
      Processor.startsNewest_after hbuiltin hversioned hnewest more hfits
    have hstill := hversioned.not_latest hlater (hgrown old.processId) hold hsuperseded
    have hbuiltin' : ((first.after commands).after more).registry = .builtin :=
      (Processor.after_registry _ _).trans hbuiltin
    rcases Processor.apply_tells hbuiltin' command with
      ⟨-, hquiet⟩ | ⟨answer, others, haccepted, htold⟩
    · exact absurd hkind (hquiet draft hdraft)
    · obtain ⟨event, hevent, heq⟩ := List.mem_map.mp (htold ▸ List.mem_map_of_mem hdraft)
      cases heq
      obtain ⟨created, definition, vars, hvalue, hdefinition, hkey⟩ :=
        haccepted.starts_newest hlater hlatest hevent hintent
      refine ⟨created, vars, hvalue, fun hsame => hstill ?_⟩
      -- Both lie under the key that the instance names.
      have hstarted : definition ∈ _ := List.mem_of_getLast? (hlater.latest?_eq _ ▸ hdefinition)
      have hfound := hlater.definition?_of_mem hstarted
      rw [← hkey, hsame, hlater.definition?_of_mem ((hgrown old.processId).subset
        (ProcessCatalog.mem_versions hold))] at hfound
      cases hfound
      exact hdefinition

/-- Commands by which a process is deployed, its start-event timer fires, and the process is
deployed again before the successor of the timer is triggered. -/
def redeployCommands : List Record :=
  let deployment : Draft := .command none (.deployment .create) (.deployment
    { processId := "process", timerStarts := [⟨"start", ⟨.cycle, false, "R/PT1S"⟩⟩] })
  let trigger (key : Nat) : Draft := (Draft.command (some (keyAt 1 key)) (.timer .trigger)
    (.timer { targetElementId := "start" })).withTimestamp .latest
  [.ofDraft 1 deployment, .ofDraft 2 (trigger 2), .ofDraft 3 deployment, .ofDraft 4 (trigger 4)]

theorem start_timers_of_newest_redeployed :
    let first := Processor.start 1 .builtin .unavailable
    let state := (first.after redeployCommands).state
    let old : ProcessDefinition :=
      ⟨keyAt 1 1, "process", 1, [⟨"start", ⟨.cycle, false, "R/PT1S"⟩⟩]⟩
    state.keyCounter < 2 ^ keyCounterBits ∧
      (state.timers.startTimersOf (state.processes.versionsOf "process")).map Timer.key =
        [keyAt 1 6] ∧
      state.processes.allInstances.map ProcessInstance.definitionKey = [old.key] ∧
      state.processes.definition? old.key = some old ∧
      state.processes.latest? old.processId ≠ some old ∧
      ∀ more command, (first.after (redeployCommands ++ more)).state.keyCounter <
          2 ^ keyCounterBits →
        ∀ draft ∈ ((first.after (redeployCommands ++ more)).apply command).1.followUps,
          draft.kind = .event → draft.intent = .processInstance .created →
          ∃ created vars, draft.value = .processInstance (ProcessInstance.toPayload created vars) ∧
            created.definitionKey ≠ old.key := by
  have hcapacity : ((Processor.start 1 .builtin .unavailable).after
      redeployCommands).state.keyCounter < 2 ^ keyCounterBits := by decide +kernel
  obtain ⟨-, -, -, -, hsuperseded⟩ :=
    start_timers_of_newest 1 .unavailable redeployCommands hcapacity
  refine ⟨hcapacity, by decide +kernel, by decide +kernel, by decide +kernel, by decide +kernel,
    ?_⟩
  exact hsuperseded _ (by decide +kernel) (by decide +kernel)

end EngineState

end Workflow
