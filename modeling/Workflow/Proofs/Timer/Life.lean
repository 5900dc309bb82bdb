/-
Every timer ends at most once.

What is told of a timer is that it was created, and then, once, that it fired or that it was
canceled (`TimerTold`).  Each step of a decision that removes a timer or adds one tells just that
(`Recounts`); the steps compose, and every way of accepting a command is made of them.

A new timer has a key that was never handed out, so nothing was told of it before.  And a timer is
only removed if it is there, so its end was not told before either.
-/
import Workflow.Proofs.Engine.History
import Workflow.Proofs.Timer.Origin

namespace Workflow

open Decide EngineState

/-! ### What is told of a timer -/

/-- A report about a timer. -/
structure TimerReport where
  /-- What is told. -/
  intent : TimerIntent
  /-- The timer as the record shows it. -/
  timer : Option TimerPayload
  /-- The time of the command that the record follows from. -/
  time : Instant

/-- What an entry of a history reports about a timer. -/
def timerReport? (key : Nat) (entry : Record × Draft) : Option TimerReport :=
  if entry.2.kind = .event ∧ entry.2.key = some key then
    match entry.2.intent with
    | .timer intent => some ⟨intent, entry.2.value.timer?, entry.1.timestamp⟩
    | _ => none
  else none

/-- What a history reports about a timer, in order. -/
def timerReports (key : Nat) (history : List (Record × Draft)) : List TimerReport :=
  history.filterMap (timerReport? key)

/-- What may have been told of a timer by the time a state is reached. -/
inductive TimerTold (state : EngineState) (key : Nat) : List TimerReport → Prop
  /-- It was never scheduled. -/
  | unborn (hget : state.timers.get? key = none) : TimerTold state key []
  /-- It was scheduled, and is pending. -/
  | pending (timer : Timer) (born : Instant) (hget : state.timers.get? key = some timer)
      (hissued : state.Issued key) :
      TimerTold state key [⟨.created, some timer.toPayload, born⟩]
  /-- It is gone, because it was canceled. -/
  | canceled (timer : Timer) (born gone : Instant) (hget : state.timers.get? key = none)
      (hissued : state.Issued key) :
      TimerTold state key
        [⟨.created, some timer.toPayload, born⟩, ⟨.canceled, some timer.toPayload, gone⟩]
  /-- It is gone, because it fired, not before it was due. -/
  | triggered (timer : Timer) (born fired : Instant) (hget : state.timers.get? key = none)
      (hissued : state.Issued key) (hdue : timer.dueDate ≤ fired) :
      TimerTold state key
        [⟨.created, some timer.toPayload, born⟩, ⟨.triggered, some timer.toPayload, fired⟩]

namespace TimerTold

variable {state later : EngineState} {key : Nat} {reports : List TimerReport}

theorem keep (h : TimerTold state key reports) (hgrows : Grows state later)
    (hsame : later.timers.get? key = state.timers.get? key) : TimerTold later key reports := by
  cases h with
  | unborn hget => exact .unborn (hsame.trans hget)
  | pending timer born hget hissued =>
      exact .pending timer born (hsame.trans hget) (hgrows.issued hissued)
  | canceled timer born gone hget hissued =>
      exact .canceled timer born gone (hsame.trans hget) (hgrows.issued hissued)
  | triggered timer born fired hget hissued hdue =>
      exact .triggered timer born fired (hsame.trans hget) (hgrows.issued hissued) hdue

/-- Nothing was told of a timer whose key was not handed out. -/
theorem of_not_issued (h : TimerTold state key reports) (hnot : ¬ state.Issued key) :
    reports = [] := by
  cases h with
  | unborn => rfl
  | pending timer born hget hissued => exact absurd hissued hnot
  | canceled timer born gone hget hissued => exact absurd hissued hnot
  | triggered timer born fired hget hissued => exact absurd hissued hnot

/-- Of a timer that is pending, it was told that it was created. -/
theorem of_pending (h : TimerTold state key reports) {timer : Timer}
    (hget : state.timers.get? key = some timer) :
    state.Issued key ∧ ∃ born, reports = [⟨.created, some timer.toPayload, born⟩] := by
  cases h with
  | unborn hnone => cases hnone.symm.trans hget
  | pending found born hfound hissued =>
      cases hfound.symm.trans hget
      exact ⟨hissued, born, rfl⟩
  | canceled found born gone hnone => cases hnone.symm.trans hget
  | triggered found born fired hnone => cases hnone.symm.trans hget

end TimerTold

section Reports

variable {key : Nat} {command : Record} {event : Event}

theorem timerReports_append (first second : List (Record × Draft)) :
    timerReports key (first ++ second) = timerReports key first ++ timerReports key second :=
  List.filterMap_append

theorem timerReports_other {events : List Event}
    (h : ∀ event ∈ events, event.intent.valueType ≠ .timer) :
    timerReports key (events.map (Event.told command)) = [] := by
  unfold timerReports
  rw [List.filterMap_eq_nil_iff]
  intro entry hentry
  obtain ⟨event, he, rfl⟩ := List.mem_map.mp hentry
  have hother := h event he
  cases hintent : event.intent with
  | timer intent =>
      rw [hintent] at hother
      exact absurd rfl hother
  | _ => simp [timerReport?, Event.told, Draft.event, hintent]

theorem timerReports_one (subject : Nat) (intent : TimerIntent) (timer : TimerPayload) :
    timerReports key (([⟨subject, .timer intent, .timer timer⟩] : List Event).map
      (Event.told command)) =
        if subject = key then [⟨intent, some timer, command.timestamp⟩] else [] := by
  by_cases hkey : subject = key <;>
    simp [timerReports, timerReport?, Event.told, Draft.event, Payload.timer?, hkey]

end Reports

/-! ### Each step of a decision -/

/-- The events recount what happens to a timer between two states. -/
structure Recounts (command : Record) (key : Nat) (state later : EngineState)
    (events : List Event) : Prop extends Grows state later where
  told : later.keyCounter < 2 ^ keyCounterBits → ∀ past, TimerTold state key past →
    TimerTold later key (past ++ timerReports key (events.map (Event.told command)))

namespace Recounts

variable {command : Record} {key : Nat} {state later latest : EngineState} {events : List Event}

theorem trans {others : List Event} (h : Recounts command key state later events)
    (h' : Recounts command key later latest others) :
    Recounts command key state latest (events ++ others) := by
  refine ⟨h.toGrows.trans h'.toGrows, fun hcapacity past hpast => ?_⟩
  have hfirst := h.told (Nat.lt_of_le_of_lt h'.keyCounter hcapacity) past hpast
  rw [List.map_append, timerReports_append, ← List.append_assoc]
  exact h'.told hcapacity _ hfirst

/-- What leaves the timer alone and tells nothing of it. -/
theorem keep (hgrows : Grows state later)
    (hsame : later.timers.get? key = state.timers.get? key)
    (hnone : timerReports key (events.map (Event.told command)) = []) :
    Recounts command key state later events := by
  refine ⟨hgrows, fun _ past hpast => ?_⟩
  rw [hnone, List.append_nil]
  exact hpast.keep hgrows hsame

/-- What leaves all timers alone and tells of other things only. -/
theorem other (hgrows : Grows state later) (hsame : later.timers = state.timers)
    (h : ∀ event ∈ events, event.intent.valueType ≠ .timer) :
    Recounts command key state later events :=
  .keep hgrows (by rw [hsame]) (timerReports_other h)

/-- A timer is added under the next key. -/
theorem created (state : EngineState) (timer : Timer) (hkey : timer.key = state.nextKey.1) :
    Recounts command key state { state.nextKey.2 with timers := state.timers.schedule timer }
      [⟨state.nextKey.1, .timer .created, .timer timer.toPayload⟩] := by
  by_cases hnew : state.nextKey.1 = key
  · refine ⟨⟨rfl, Nat.le_succ _⟩, fun hcapacity past hpast => ?_⟩
    have hnone : past = [] := by
      rw [← hnew] at hpast
      exact hpast.of_not_issued (not_issued_nextKey hcapacity)
    rw [hnone, timerReports_one, if_pos hnew]
    refine .pending timer command.timestamp ?_ ?_
    · show (state.timers.schedule timer).get? key = some timer
      rw [TimerAgenda.get?_schedule, hkey, if_pos hnew.symm]
    · rw [← hnew]
      exact issued_nextKey state
  · refine .keep ⟨rfl, Nat.le_succ _⟩ ?_ (by rw [timerReports_one, if_neg hnew])
    show (state.timers.schedule timer).get? key = _
    rw [TimerAgenda.get?_schedule, hkey, if_neg (Ne.symm hnew)]

/-- A pending timer is removed, because it is canceled or because it fires. -/
theorem ended {subject : Nat} {timer : Timer} {intent : TimerIntent}
    (hget : state.timers.get? subject = some timer)
    (hintent : intent = .canceled ∨ (intent = .triggered ∧ timer.dueDate ≤ command.timestamp)) :
    Recounts command key state { state with timers := state.timers.erase subject }
      [⟨subject, .timer intent, .timer timer.toPayload⟩] := by
  by_cases hsubject : subject = key
  · subst hsubject
    refine ⟨⟨rfl, Nat.le_refl _⟩, fun _ past hpast => ?_⟩
    obtain ⟨hissued, born, rfl⟩ := hpast.of_pending hget
    have hgone : (state.timers.erase subject).get? subject = none := by
      rw [TimerAgenda.get?_erase, if_pos rfl]
    rw [timerReports_one, if_pos rfl]
    rcases hintent with rfl | ⟨rfl, hdue⟩
    · exact .canceled timer born command.timestamp hgone hissued
    · exact .triggered timer born command.timestamp hgone hissued hdue
  · refine .keep ⟨rfl, Nat.le_refl _⟩ ?_ (by rw [timerReports_one, if_neg hsubject])
    show (state.timers.erase subject).get? key = _
    rw [TimerAgenda.get?_erase, if_neg (Ne.symm hsubject)]

theorem scheduleStarts (definitionKey position : Nat) (starts : List ResolvedStart) :
    ∀ state, Recounts command key state
      (scheduleStarts definitionKey position state starts).1
      (scheduleStarts definitionKey position state starts).2 := by
  induction starts with
  | nil => intro state; exact .other (.refl state) rfl fun event he => absurd he List.not_mem_nil
  | cons start rest ih =>
      intro state
      exact (Recounts.created state (startTimer state.nextKey.1 definitionKey position start)
        rfl).trans (ih _)

/-- Different timers that are pending are removed one after the other. -/
theorem cancelTimers (timers : List Timer) :
    ∀ state, (timers.Pairwise fun a b => a.key ≠ b.key) → (∀ timer ∈ timers, state.Pending timer) →
      Recounts command key state (cancelTimers timers state).1 (cancelTimers timers state).2 := by
  induction timers with
  | nil =>
      intro state _ _
      exact .other (.refl state) rfl fun event he => absurd he List.not_mem_nil
  | cons timer rest ih =>
      intro state hdiffer hpending
      obtain ⟨hfirst, hrest⟩ := List.pairwise_cons.mp hdiffer
      refine (Recounts.ended (hpending timer List.mem_cons_self) (.inl rfl)).trans
        (ih { state with timers := state.timers.erase timer.key } hrest fun other ho => ?_)
      show (state.timers.erase timer.key).get? other.key = some other
      rw [TimerAgenda.get?_erase, if_neg (Ne.symm (hfirst other ho))]
      exact hpending other (List.mem_cons_of_mem _ ho)

theorem fireStart (state : EngineState) (timer : Timer) :
    Recounts command key state (fireStart state timer).1 (fireStart state timer).2 := by
  refine .other (keepsJobs_fireStart state timer).toGrows (fireStart_timers state timer) ?_
  intro event he
  rw [intent_fireStart event he]
  exact nofun

theorem scheduleSuccessor (state : EngineState) (timer : Timer) (position : Nat) :
    Recounts command key state (scheduleSuccessor state timer position).1
      (scheduleSuccessor state timer position).2 := by
  unfold Decide.scheduleSuccessor
  by_cases hrepeats : timer.repeats
  · rw [if_pos hrepeats]
    dsimp only
    cases hnext : timer.successor? state.nextKey.1 position with
    | none => exact .other (.nextKey state) rfl fun event he => absurd he List.not_mem_nil
    | some next => exact .created state next (Timer.successor?_some hnext).1
  · rw [if_neg hrepeats]
    exact .other (.refl state) rfl fun event he => absurd he List.not_mem_nil

end Recounts

/-! ### Deployments -/

/-- The state when a process was deployed, with the timers of earlier versions. -/
def EngineState.listed (state : EngineState) (request : DeploymentPayload) : EngineState :=
  { state.nextKey.2 with
    processes := state.processes.deploy
      ⟨state.nextKey.1, request.processId, match state.processes.latest? request.processId with
        | some latest => latest.version + 1
        | none => 1, request.timerStarts⟩ }

theorem Recounts.deployed {command : Record} {key : Nat} {state final : EngineState}
    {position : Nat} {request : DeploymentPayload} {starts : List ResolvedStart} {answer : Event}
    {others : List Event} (hindexed : state.timers.Indexed)
    (h : deployResolved state position request starts = .accept final answer others) :
    Recounts command key state final (answer :: others) := by
  cases h
  let earlier := state.timers.startTimersOf (state.processes.versionsOf request.processId)
  have hlisted : ∀ answer : Event, answer.intent = .deployment .created →
      Recounts command key state (state.listed request) [answer] := by
    intro answer hintent
    refine .other ⟨rfl, Nat.le_succ _⟩ rfl fun event he => ?_
    rw [List.mem_singleton.mp he, hintent]
    exact nofun
  have hcanceled : Recounts command key (state.listed request) (state.cleared request)
      (Decide.cancelTimers earlier (state.listed request)).2 :=
    .cancelTimers earlier _ (hindexed.startTimersOf_pairwise _) fun timer ht =>
      hindexed.get?_of_mem_startTimersOf ht
  exact (hlisted _ rfl).trans (hcanceled.trans (.scheduleStarts state.nextKey.1 position starts _))

/-! ### Each way of accepting a command -/

/-- Whether commands of the kind may change timers. -/
def Intent.changesTimers : Intent → Bool
  | .deployment _ => true
  | .timer _ => true
  | _ => false

section Accepted

variable {evaluator : Evaluator} {state final : EngineState} {command : Record} {answer : Event}
  {others : List Event}

/-- Commands about instances and jobs leave all timers alone and tell of other things only. -/
theorem Accepted.keepsTimers (h : Accepted evaluator state command final answer others)
    (hintent : command.intent.changesTimers = false) :
    final.timers = state.timers ∧
      ∀ event ∈ answer :: others, event.intent.valueType ≠ .timer := by
  have hone : ∀ event : Event, event.intent.valueType ≠ .timer →
      ∀ other ∈ [event], other.intent.valueType ≠ .timer := by
    intro event hevent other ho
    rw [List.mem_singleton.mp ho]
    exact hevent
  cases h with
  | deployed request starts hdeployment => rw [hdeployment] at hintent; cases hintent
  | timerCreated _ _ _ _ _ _ htimer => rw [htimer] at hintent; cases hintent
  | timerUnresolved _ _ _ _ _ _ htimer => rw [htimer] at hintent; cases hintent
  | timerFired _ _ htimer => rw [htimer] at hintent; cases hintent
  | timerCanceled _ _ htimer => rw [htimer] at hintent; cases hintent
  | jobCreated => exact ⟨rfl, List.forall_mem_cons.mpr ⟨nofun, hone _ nofun⟩⟩
  | jobFailed subject request job jobs =>
      obtain ⟨counter, incidents, -, heq⟩ := openIncident_with { state with jobs } job
      refine ⟨by rw [heq], List.forall_mem_cons.mpr ⟨nofun, fun event he => ?_⟩⟩
      rw [intent_openIncident job event he]
      exact nofun
  | retriesUpdated subject request revived job jobs =>
      obtain ⟨incidents, heq⟩ := resolveIncident_with { state with jobs } subject
      refine ⟨by rw [heq], List.forall_mem_cons.mpr ⟨nofun, fun event he => ?_⟩⟩
      rcases List.mem_append.mp he with hresolved | hoffered
      · rw [intent_resolveIncident subject event hresolved]
        exact nofun
      · rw [List.mem_singleton.mp (List.mem_ite_nil_right.mp hoffered).2]
        exact nofun
  | jobCanceled subject job jobs =>
      obtain ⟨incidents, heq⟩ := resolveIncident_with { state with jobs } subject
      refine ⟨by rw [heq], List.forall_mem_cons.mpr ⟨nofun, fun event he => ?_⟩⟩
      rw [intent_resolveIncident subject event he]
      exact nofun
  | _ =>
      refine ⟨rfl, hone _ ?_⟩
      exact nofun

/-- **Whatever is accepted, the events recount what happens to every timer.** -/
theorem Accepted.recounts (h : Accepted evaluator state command final answer others)
    (hindexed : state.timers.Indexed) (key : Nat) :
    Recounts command key state final (answer :: others) := by
  have hgrows := h.grows
  have hkeeps := h.keepsTimers
  cases h with
  | deployed request starts hintent hvalue hid hunique hstarts hdeploy =>
      exact .deployed hindexed hdeploy
  | timerCreated request definition instanceKey elementInstanceKey owner resolved =>
      exact .created state (elementTimer state.nextKey.1 command.position owner.definitionKey
        instanceKey elementInstanceKey request resolved) rfl
  | timerUnresolved =>
      refine .other hgrows rfl fun event he => ?_
      rw [List.mem_singleton.mp he]
      exact nofun
  | timerFired subject timer hintent hkey htimer hdue =>
      exact (Recounts.ended htimer (.inr ⟨rfl, hdue⟩)).trans
        ((Recounts.fireStart _ timer).trans (.scheduleSuccessor _ timer command.position))
  | timerCanceled subject timer hintent hkey htimer => exact .ended htimer (.inl rfl)
  | _ =>
      have hother := congrArg Intent.changesTimers ‹command.intent = _›
      obtain ⟨htimers, hevents⟩ := hkeeps hother
      exact .other hgrows htimers hevents

end Accepted

/-- What is told of a timer by the time a state is reached says whether it is pending. -/
theorem EngineState.timerTold (partitionId : Nat) (evaluator : Evaluator) (commands : List Record)
    (hcapacity : ((Processor.start partitionId .builtin evaluator).after commands).state.keyCounter
      < 2 ^ keyCounterBits) (key : Nat) :
    TimerTold ((Processor.start partitionId .builtin evaluator).after commands).state key
      (timerReports key ((Processor.start partitionId .builtin evaluator).history commands)) := by
  have hlife := Processor.history_induction evaluator
    (fun past state => state.timers.Indexed ∧ TimerTold state key (timerReports key past)) ?_ ?_
    commands (.start partitionId .builtin evaluator) [] rfl rfl
    ⟨TimerAgenda.indexed_empty, .unborn rfl⟩ hcapacity
  · exact hlife.2
  · intro past state command draft h hkind
    refine ⟨h.1, ?_⟩
    have hnone : timerReport? key (command, draft) = none := if_neg fun hevent => hkind hevent.1
    have hsame : timerReports key (past ++ [(command, draft)]) = timerReports key past := by
      unfold timerReports
      rw [List.filterMap_append, List.filterMap_cons_none hnone, List.filterMap_nil,
        List.append_nil]
    rw [hsame]
    exact h.2
  · intro past state command final answer others h haccepted hfits
    refine ⟨haccepted.reschedules.indexed h.1, ?_⟩
    rw [timerReports_append]
    exact (haccepted.recounts h.1 key).told hfits _ h.2

/-! ### The firing of a timer -/

/-- Whether the draft is an event of the kind. -/
def Draft.tells (intent : Intent) (draft : Draft) : Bool :=
  draft.kind == .event && draft.intent == intent

/-- The timer that follows as a payload, if the timer repeats: it is due a period later, and has
one firing less if they are counted. -/
def TimerPayload.successor? (timer : TimerPayload) : Option TimerPayload :=
  match timer.dueDate, timer.period, timer.repetition.next? with
  | some dueDate, some period, some repetition =>
      some { timer with dueDate := some (dueDate.add period), repetition }
  | _, _, _ => none

/-- What a command tells when a timer fires. -/
structure FiringTold (command : Record) (drafts : List Draft) (timer : TimerPayload) : Prop where
  /-- The timer is due. -/
  due : ∃ dueDate, timer.dueDate = some dueDate ∧ dueDate ≤ command.timestamp
  /-- No other timer fires. -/
  once : (drafts.filter (Draft.tells (.timer .triggered))).length = 1
  /-- The timer names a definition. -/
  definition : timer.definitionKey.isSome
  /-- A start-event timer makes one instance of its definition, other timers make none. -/
  instances : (drafts.filter (Draft.tells (.processInstance .created))).map
      (fun draft => draft.value.processInstance?.map fun created =>
        (created.definitionKey, created.elementId)) =
    if timer.elementInstanceKey.isNone then [some (timer.definitionKey, some timer.targetElementId)]
    else []
  /-- A timer that repeats is followed by one successor, other timers by none. -/
  successors : (drafts.filter (Draft.tells (.timer .created))).map Draft.value =
    timer.successor?.toList.map .timer

section Firing

variable {state : EngineState} {timer : Timer}

theorem Timer.toPayload_successor? (timer : Timer) (key position : Nat) :
    timer.toPayload.successor? = (timer.successor? key position).map Timer.toPayload := by
  unfold TimerPayload.successor? Timer.successor? Timer.toPayload
  dsimp only
  cases timer.period with
  | none => rfl
  | some period =>
      cases timer.repetition.next? with
      | none => rfl
      | some repetition => rfl

theorem scheduleSuccessor_tells (state : EngineState) (timer : Timer) (position : Nat) :
    ∃ key, (scheduleSuccessor state timer position).2 =
      timer.toPayload.successor?.toList.map fun next => ⟨key, .timer .created, .timer next⟩ := by
  refine ⟨state.nextKey.1, ?_⟩
  rw [Timer.toPayload_successor? timer state.nextKey.1 position]
  unfold scheduleSuccessor
  by_cases hrepeats : timer.repeats
  · rw [if_pos hrepeats]
    dsimp only
    cases timer.successor? state.nextKey.1 position with
    | none => rfl
    | some next => rfl
  · rw [if_neg hrepeats, Timer.successor?_of_not_repeats hrepeats]
    rfl

theorem fireStart_tells (state : EngineState) {key : Nat}
    (hdefinition : timer.definitionKey = some key)
    (hdefined : timer.isStartEvent → state.Defined key) :
    ∃ created : List ProcessInstance,
      created.map (fun i => (i.definitionKey, i.elementId)) =
        (if timer.isStartEvent then [(key, some timer.targetElementId)] else []) ∧
      (fireStart state timer).2 = created.map fun i =>
        ⟨i.key, .processInstance .created, .processInstance (i.toPayload .null)⟩ := by
  unfold fireStart
  by_cases hstart : timer.isStartEvent
  · obtain ⟨definition, hget, hkey⟩ := hdefined hstart
    rw [if_pos hstart, if_pos hstart, hdefinition, Option.bind_some, hget]
    refine ⟨[(startInstance state definition (some timer.targetElementId)).1], ?_, rfl⟩
    rw [← hkey]
    rfl
  · rw [if_neg hstart, if_neg hstart]
    exact ⟨[], rfl, rfl⟩

/-- A command that tells of a firing let a timer fire. -/
theorem Accepted.timerFired_of_told {evaluator : Evaluator} {final : EngineState}
    {command : Record} {answer : Event} {others : List Event}
    (h : Accepted evaluator state command final answer others) {event : Event}
    (hmem : event ∈ answer :: others) (hintent : event.intent = .timer .triggered) :
    ∃ key timer, state.timers.get? key = some timer ∧ timer.dueDate ≤ command.timestamp ∧
      answer = ⟨key, .timer .triggered, .timer timer.toPayload⟩ ∧
      others = (fireStart { state with timers := state.timers.erase key } timer).2 ++
        (scheduleSuccessor (fireStart { state with timers := state.timers.erase key } timer).1
          timer command.position).2 := by
  have hkeeps := h.keepsTimers
  cases h with
  | deployed request starts hdeployment hvalue hid hunique hstarts hdeploy =>
      cases hdeploy
      rcases List.mem_cons.mp hmem with rfl | hin
      · cases hintent
      rcases List.mem_append.mp hin with hcanceled | hcreated
      · obtain ⟨timer, -, rfl⟩ := List.mem_map.mp hcanceled
        cases hintent
      · cases hintent.symm.trans (intent_scheduleStarts _ starts _ event hcreated)
  | timerCreated =>
      rw [List.mem_singleton.mp hmem] at hintent
      cases hintent
  | timerUnresolved =>
      rw [List.mem_singleton.mp hmem] at hintent
      cases hintent
  | timerCanceled =>
      rw [List.mem_singleton.mp hmem] at hintent
      cases hintent
  | timerFired subject timer hcommand hkey htimer hdue =>
      exact ⟨subject, timer, htimer, hdue, rfl, rfl⟩
  | _ =>
      have hother := congrArg Intent.changesTimers ‹command.intent = _›
      obtain ⟨-, hevents⟩ := hkeeps hother
      exact absurd (congrArg Intent.valueType hintent) (hevents event hmem)

/-- What is filtered from the drafts of events is filtered from the events. -/
theorem filter_told (command : Record) (intent : Intent) (events : List Event) :
    (events.map fun event => (event.told command).2).filter (Draft.tells intent) =
      (events.filter fun event => event.intent == intent).map fun event =>
        (event.told command).2 :=
  List.filter_map

theorem filter_intent {events : List Event} {intent : Intent}
    (h : ∀ event ∈ events, event.intent = intent) (other : Intent) :
    (events.filter fun event => event.intent == other) = if intent = other then events else [] := by
  by_cases hother : intent = other
  · rw [if_pos hother]
    exact List.filter_eq_self.mpr fun event he => beq_iff_eq.mpr ((h event he).trans hother)
  · rw [if_neg hother]
    refine List.filter_eq_nil_iff.mpr fun event he heq => hother ?_
    exact (h event he).symm.trans (beq_iff_eq.mp heq)

/-- The events of a firing are told apart by their intents. -/
theorem filter_fired (first : Event) {started successors : List Event}
    (hfirst : first.intent = .timer .triggered)
    (hstarted : ∀ event ∈ started, event.intent = .processInstance .created)
    (hsuccessors : ∀ event ∈ successors, event.intent = .timer .created) :
    ((first :: (started ++ successors)).filter fun event => event.intent == .timer .triggered) =
        [first] ∧
      ((first :: (started ++ successors)).filter fun event =>
        event.intent == .processInstance .created) = started ∧
      ((first :: (started ++ successors)).filter fun event => event.intent == .timer .created) =
        successors := by
  refine ⟨?_, ?_, ?_⟩ <;>
    rw [List.filter_cons, List.filter_append, filter_intent hstarted, filter_intent hsuccessors,
      hfirst] <;>
    simp

end Firing

/-- A command that tells that a timer fires tells what belongs to it. -/
theorem FiringTold.of_accepted {evaluator : Evaluator} {state final : EngineState}
    {command : Record} {answer : Event} {others : List Event} (htargeted : Targeted state)
    (h : Accepted evaluator state command final answer others) {draft : Draft}
    (hdraft : draft ∈ (answer :: others).map fun event => (event.told command).2)
    (htells : draft.tells (.timer .triggered)) :
    ∃ timer, draft.value = .timer timer ∧
      FiringTold command ((answer :: others).map fun event => (event.told command).2) timer := by
  obtain ⟨event, hevent, rfl⟩ := List.mem_map.mp hdraft
  have hintent : (event.intent == .timer .triggered) = true := htells
  obtain ⟨subject, timer, hget, hdue, rfl, hothers⟩ :=
    h.timerFired_of_told hevent (beq_iff_eq.mp hintent)
  have hpending : state.Pending timer := by
    rw [← htargeted.indexed.key_eq subject timer hget] at hget
    exact hget
  obtain ⟨key, hdefinition, hdefined⟩ := htargeted.definition timer hpending
  obtain ⟨created, hcreated, hstarted⟩ := fireStart_tells
    { state with timers := state.timers.erase subject } hdefinition hdefined
  obtain ⟨nextKey, hsuccessors⟩ := scheduleSuccessor_tells
    (fireStart { state with timers := state.timers.erase subject } timer).1 timer command.position
  obtain ⟨hfired, hinstances, hnext⟩ := filter_fired
    ⟨subject, .timer .triggered, .timer timer.toPayload⟩ rfl intent_fireStart
    intent_scheduleSuccessor
  rw [← hothers] at hfired hinstances hnext
  have honly : event ∈ [(⟨subject, .timer .triggered, .timer timer.toPayload⟩ : Event)] := by
    rw [← hfired]
    exact List.mem_filter.mpr ⟨hevent, hintent⟩
  refine ⟨timer.toPayload, by rw [List.mem_singleton.mp honly]; rfl, ⟨timer.dueDate, rfl, hdue⟩,
    ?_, Option.isSome_iff_exists.mpr ⟨key, hdefinition⟩, ?_, ?_⟩
  · rw [filter_told, hfired]
    rfl
  · rw [filter_told, hinstances, hstarted, List.map_map, List.map_map]
    have hpairs := congrArg (List.map fun pair : Nat × Option String => some (some pair.1, pair.2))
      hcreated
    rw [List.map_map] at hpairs
    refine hpairs.trans ?_
    show _ = if timer.isStartEvent then [some (timer.definitionKey, _)] else []
    rw [hdefinition]
    split <;> rfl
  · rw [filter_told, hnext, hsuccessors, List.map_map, List.map_map]
    rfl

/-- **Every timer ends at most once, and never early.**  What is told of a timer is that it was
created and then at most once that it fired or was canceled, with the same payload; it is pending as
long as the end is missing.  A timer fires at a command that is not before its due date, and that
command tells one new instance if the timer is of a start event, one successor if the timer
repeats, and no others. -/
theorem EngineState.timers_end_once (partitionId : Nat) (evaluator : Evaluator)
    (commands : List Record)
    (hcapacity : ((Processor.start partitionId .builtin evaluator).after commands).state.keyCounter
      < 2 ^ keyCounterBits) :
    let first := Processor.start partitionId .builtin evaluator
    let final := (first.after commands).state
    (∀ key, TimerTold final key (timerReports key (first.history commands)) ∧
      (final.timers.contains key ↔
        (timerReports key (first.history commands)).map TimerReport.intent = [.created])) ∧
    ∀ before command later, commands = before ++ command :: later →
      let drafts := ((first.after before).apply command).1.followUps
      ∀ draft ∈ drafts, draft.tells (.timer .triggered) →
        ∃ timer, draft.value = .timer timer ∧ FiringTold command drafts timer := by
  intro first final
  refine ⟨fun key => ?_, ?_⟩
  · have htold := timerTold partitionId evaluator commands hcapacity key
    change TimerTold final key (timerReports key (first.history commands)) at htold
    refine ⟨htold, ?_⟩
    show (final.timers.get? key).isSome ↔ _
    generalize timerReports key (first.history commands) = reports at htold
    cases htold with
    | unborn hget => simp [hget]
    | pending timer born hget => simp [hget]
    | canceled timer born gone hget => simp [hget]
    | triggered timer born fired hget => simp [hget]
  · intro before command later _ drafts draft hdraft htells
    have hbuiltin : (first.after before).registry = .builtin :=
      Processor.after_registry before first
    rcases Processor.apply_tells hbuiltin command with
      ⟨-, hkinds⟩ | ⟨answer, others, haccepted, htold⟩
    · rw [Draft.tells, Bool.and_eq_true, beq_iff_eq] at htells
      exact absurd htells.1 (hkinds draft hdraft)
    · have hdrafts : drafts = (answer :: others).map fun event => (event.told command).2 := by
        have hsnd := congrArg (List.map Prod.snd) htold
        rw [List.map_map, List.map_map] at hsnd
        exact (List.map_id _).symm.trans hsnd
      rw [hdrafts] at hdraft ⊢
      exact FiringTold.of_accepted (Targeted.after partitionId evaluator before) haccepted hdraft
        htells

/-- Commands by which a start-event timer fires, once though it is triggered twice, and its
successor is canceled before it is triggered. -/
def timerCommands : List Record :=
  let about (key : Nat) (intent : TimerIntent) : Draft :=
    (Draft.command (some (keyAt 1 key)) (.timer intent)
      (.timer { targetElementId := "start" })).withTimestamp .latest
  [.ofDraft 1 (.command none (.deployment .create) (.deployment
    { processId := "process", timerStarts := [⟨"start", ⟨.cycle, false, "R2/PT1S"⟩⟩] })),
    .ofDraft 2 (about 2 .trigger), .ofDraft 3 (about 2 .trigger),
    .ofDraft 4 (about 4 .cancel), .ofDraft 5 (about 4 .trigger)]

theorem EngineState.timers_end_once_repeating :
    let first := Processor.start 1 .builtin .unavailable
    let final := (first.after timerCommands).state
    let intents := fun key =>
      (timerReports (keyAt 1 key) (first.history timerCommands)).map TimerReport.intent
    final.keyCounter < 2 ^ keyCounterBits ∧ intents 2 = [.created, .triggered] ∧
      intents 4 = [.created, .canceled] ∧
      ∀ key, TimerTold final key (timerReports key (first.history timerCommands)) := by
  have hcapacity : ((Processor.start 1 .builtin .unavailable).after
      timerCommands).state.keyCounter < 2 ^ keyCounterBits := by decide +kernel
  refine ⟨hcapacity, by decide +kernel, by decide +kernel, fun key => ?_⟩
  exact ((timers_end_once 1 .unavailable timerCommands hcapacity).1 key).1

end Workflow
