/-
Keys are fresh for ever.

All entities of a partition, of five kinds, are given their keys by one counter.  `Gives` says what
a step of a decision does to them: the keys of the events that take one are those that the counter
went through, in order, and whatever is stored afterwards was stored before or is what one of these
events created.  A step that also takes nothing out (`Keeps`) can follow another one, and every way
of accepting a command is such a chain (`Accepted.gives`).

So a key is given to one entity of one kind (`Keyed`), and it is never given again
(`keys_are_fresh`).  Keys that commands bring along play no part in this: what is put back into a
map was found there under its own key.
-/
import Mathlib.Data.List.Nodup
import Workflow.Proofs.Job.Lease
import Workflow.Proofs.Process.StartTimers

namespace Workflow

open Decide EngineState

/-- The kinds of entities that a partition gives keys to. -/
inductive EntityKind where
  | processDefinition
  | processInstance
  | timer
  | job
  | incident
deriving DecidableEq, Inhabited

/-- The kinds of entities. -/
def EntityKind.all : List EntityKind :=
  [.processDefinition, .processInstance, .timer, .job, .incident]

theorem EntityKind.nodup_all : all.Nodup := by decide

/-- The kind of entity whose creation is reported. -/
def Intent.creates? : Intent → Option EntityKind
  | .deployment .created => some .processDefinition
  | .processInstance .created => some .processInstance
  | .timer .created => some .timer
  | .job .created => some .job
  | .incident .created => some .incident
  | _ => none

/-- Whether what is reported has a key of its own: a creation, or the activation of jobs. -/
def Intent.takesKey (intent : Intent) : Bool :=
  intent.creates?.isSome || intent == .jobBatch .activated

theorem Intent.takesKey_of_creates {intent : Intent} {kind : EntityKind}
    (h : intent.creates? = some kind) : intent.takesKey := by
  simp [takesKey, h]

/-- Whether a record is an event that has a key of its own. -/
def Draft.takesKey (draft : Draft) : Bool := draft.kind == .event && draft.intent.takesKey

/-- The keys that events were given, in the order of the records. -/
def keysTaken (drafts : List Draft) : List Nat :=
  (drafts.filter Draft.takesKey).filterMap Draft.key

namespace EngineState

/-- The key that the entity stored under a key was given. -/
def ownKey? (state : EngineState) : EntityKind → Nat → Option Nat
  | .processDefinition, key => (state.processes.definition? key).map ProcessDefinition.key
  | .processInstance, key => (state.processes.instance? key).map ProcessInstance.key
  | .timer, key => (state.timers.get? key).map Timer.key
  | .job, key => (state.jobs.get? key).map Job.key
  | .incident, key => (state.incidents.get? key).map Incident.key

/-- The keys of the entities of a kind. -/
def keysOf (state : EngineState) : EntityKind → List Nat
  | .processDefinition => state.processes.definitions.values.map ProcessDefinition.key
  | .processInstance => state.processes.allInstances.map ProcessInstance.key
  | .timer => state.timers.timers.values.map Timer.key
  | .job => state.jobs.all.map Job.key
  | .incident => state.incidents.all.map Incident.key

/-- The keys of all entities. -/
def entityKeys (state : EngineState) : List Nat := EntityKind.all.flatMap state.keysOf

/-- The keys that the counter goes through from one state to another. -/
def keysBetween (state final : EngineState) : List Nat :=
  (List.range' (state.keyCounter + 1) (final.keyCounter - state.keyCounter)).map
    (keyAt state.partitionId)

theorem keysBetween_self {state final : EngineState} (h : final.keyCounter = state.keyCounter) :
    keysBetween state final = [] := by
  simp [keysBetween, h]

theorem keysBetween_next {state final : EngineState}
    (h : final.keyCounter = state.keyCounter + 1) :
    keysBetween state final = [state.nextKey.1] := by
  have hone : state.keyCounter + 1 - state.keyCounter = 1 := Nat.add_sub_cancel_left _ _
  rw [keysBetween, h, hone]
  rfl

theorem keysBetween_append {state middle final : EngineState} (h : Grows state middle)
    (h' : Grows middle final) :
    keysBetween state middle ++ keysBetween middle final = keysBetween state final := by
  have hle := h.keyCounter
  have hle' := h'.keyCounter
  have hstart : middle.keyCounter + 1 =
      state.keyCounter + 1 + (middle.keyCounter - state.keyCounter) := by omega
  have hlength : final.keyCounter - state.keyCounter =
      (middle.keyCounter - state.keyCounter) + (final.keyCounter - middle.keyCounter) := by omega
  rw [keysBetween, keysBetween, keysBetween, h.partitionId, ← List.map_append, hstart, hlength,
    List.range'_append_1]

/-- The counter of a key that was gone through. -/
theorem mem_keysBetween {state final : EngineState} {key : Nat}
    (h : key ∈ keysBetween state final) :
    ∃ counter, state.keyCounter < counter ∧ counter ≤ final.keyCounter ∧
      key = keyAt state.partitionId counter := by
  obtain ⟨counter, hmem, rfl⟩ := List.mem_map.mp h
  rw [List.mem_range'_1] at hmem
  exact ⟨counter, by omega, by omega, rfl⟩

/-- Keys ascend as the counter does. -/
theorem keysBetween_ascending {state final : EngineState}
    (hcapacity : final.keyCounter < 2 ^ keyCounterBits) :
    (keysBetween state final).Pairwise (· < ·) := by
  refine List.pairwise_map.mpr (List.Pairwise.imp_of_mem ?_ List.pairwise_lt_range')
  intro first second _ hsecond hlt
  rw [List.mem_range'_1] at hsecond
  exact keyAt_lt_keyAt (by omega) hlt

end EngineState

/-! ### What one step gives -/

/-- The keys that events were given. -/
def Event.keysTaken (events : List Event) : List Nat :=
  (events.filter fun event => event.intent.takesKey).map Event.key

theorem Event.keysTaken_append (first second : List Event) :
    keysTaken (first ++ second) = keysTaken first ++ keysTaken second := by
  simp [keysTaken]

/-- What a step does to the keys and to what is stored under them, and what its events tell. -/
structure Gives (state final : EngineState) (events : List Event) : Prop extends
    Grows state final where
  /-- The events that take a key are given those of the counter, in order. -/
  keys : Event.keysTaken events = keysBetween state final
  /-- What is stored was so before, or it is what an event created. -/
  origin : ∀ kind key own, final.ownKey? kind key = some own → state.ownKey? kind key = some own ∨
    (own = key ∧ ∃ event ∈ events, event.key = key ∧ event.intent.creates? = some kind)
  /-- What an event created is stored under its key. -/
  made : ∀ event ∈ events, ∀ kind, event.intent.creates? = some kind →
    final.ownKey? kind event.key = some event.key

/-- A step takes nothing out. -/
def Keeps (state final : EngineState) : Prop :=
  ∀ kind key, state.ownKey? kind key = some key → final.ownKey? kind key = some key

theorem Keeps.trans {state middle final : EngineState} (h : Keeps state middle)
    (h' : Keeps middle final) : Keeps state final :=
  fun kind key hown => h' kind key (h kind key hown)

namespace Gives

variable {state middle final : EngineState} {event : Event} {events others : List Event}

/-- One step after another, if the second leaves alone what the first made. -/
theorem append (h : Gives state middle events) (h' : Gives middle final others)
    (hmade : ∀ event ∈ events, ∀ kind, event.intent.creates? = some kind →
      middle.ownKey? kind event.key = some event.key →
        final.ownKey? kind event.key = some event.key) :
    Gives state final (events ++ others) where
  toGrows := h.toGrows.trans h'.toGrows
  keys := by
    rw [Event.keysTaken_append, h.keys, h'.keys, keysBetween_append h.toGrows h'.toGrows]
  origin := by
    intro kind key own hown
    rcases h'.origin kind key own hown with hmiddle | ⟨heq, event, he, hcreated⟩
    · rcases h.origin kind key own hmiddle with hstate | ⟨heq, event, he, hcreated⟩
      · exact .inl hstate
      · exact .inr ⟨heq, event, List.mem_append_left _ he, hcreated⟩
    · exact .inr ⟨heq, event, List.mem_append_right _ he, hcreated⟩
  made := by
    intro event he kind hcreates
    rcases List.mem_append.mp he with hfirst | hsecond
    · exact hmade event hfirst kind hcreates (h.made event hfirst kind hcreates)
    · exact h'.made event hsecond kind hcreates

theorem trans (h : Gives state middle events) (h' : Gives middle final others)
    (hkeeps : Keeps middle final) : Gives state final (events ++ others) :=
  h.append h' fun _ _ kind _ hown => hkeeps kind _ hown

/-- A step that hands out no key and stores nothing new. -/
theorem quiet (hpartition : final.partitionId = state.partitionId)
    (hcounter : final.keyCounter = state.keyCounter)
    (horigin : ∀ kind key own, final.ownKey? kind key = some own →
      state.ownKey? kind key = some own)
    (hevents : ∀ event ∈ events, event.intent.takesKey = false) : Gives state final events where
  partitionId := hpartition
  keyCounter := Nat.le_of_eq hcounter.symm
  keys := by
    rw [keysBetween_self hcounter, Event.keysTaken, List.map_eq_nil_iff, List.filter_eq_nil_iff]
    intro event he
    simp [hevents event he]
  origin := fun kind key own hown => .inl (horigin kind key own hown)
  made := by
    intro event he kind hcreates
    have htakes := Intent.takesKey_of_creates hcreates
    rw [hevents event he] at htakes
    cases htakes

theorem refl (state : EngineState) : Gives state state [] :=
  .quiet rfl rfl (fun _ _ _ hown => hown) (fun _ he => absurd he List.not_mem_nil)

/-- A first step whose event takes no key. -/
theorem quiet_cons (htakes : event.intent.takesKey = false) (h : Gives state middle [event])
    (h' : Gives middle final others) : Gives state final (event :: others) := by
  refine h.append h' fun other he kind hcreates => ?_
  rw [List.mem_singleton.mp he] at hcreates
  rw [Intent.takesKey_of_creates hcreates] at htakes
  cases htakes

/-- Events that take no key may be told at the end. -/
theorem append_quiet (h : Gives state final events)
    (hquiet : ∀ event ∈ others, event.intent.takesKey = false) :
    Gives state final (events ++ others) :=
  h.trans (.quiet rfl rfl (fun _ _ _ hown => hown) hquiet) fun _ _ hown => hown

end Gives

/-- One key is handed out, and if something is created it is stored under that key. -/
structure HandsOut (created : Option EntityKind) (state final : EngineState) : Prop where
  partitionId : final.partitionId = state.partitionId
  keyCounter : final.keyCounter = state.keyCounter + 1
  ownKey : ∀ kind key, final.ownKey? kind key =
    if created = some kind ∧ key = state.nextKey.1 then some key else state.ownKey? kind key

namespace HandsOut

variable {created : Option EntityKind} {state final : EngineState}

theorem gives (h : HandsOut created state final) {event : Event}
    (hkey : event.key = state.nextKey.1) (hcreates : event.intent.creates? = created)
    (htakes : event.intent.takesKey) : Gives state final [event] where
  partitionId := h.partitionId
  keyCounter := by
    rw [h.keyCounter]
    exact Nat.le_succ _
  keys := by
    rw [keysBetween_next h.keyCounter, Event.keysTaken, List.filter_cons, if_pos htakes, ← hkey]
    rfl
  origin := by
    intro kind key own hown
    rw [h.ownKey] at hown
    by_cases hnew : created = some kind ∧ key = state.nextKey.1
    · rw [if_pos hnew, Option.some.injEq] at hown
      exact .inr ⟨hown.symm, event, List.mem_singleton.mpr rfl, hkey.trans hnew.2.symm,
        hcreates.trans hnew.1⟩
    · rw [if_neg hnew] at hown
      exact .inl hown
  made := by
    intro other he kind hother
    rw [List.mem_singleton.mp he] at hother ⊢
    rw [h.ownKey, if_pos ⟨hcreates.symm.trans hother, hkey⟩]

theorem keeps (h : HandsOut created state final) : Keeps state final := by
  intro kind key hown
  rw [h.ownKey]
  by_cases hnew : created = some kind ∧ key = state.nextKey.1
  · rw [if_pos hnew]
  · rw [if_neg hnew]
    exact hown

/-- What a key was handed out for is a kind of its own, so one map tells. -/
theorem of_kind {kind : EntityKind} (hpartition : final.partitionId = state.partitionId)
    (hcounter : final.keyCounter = state.keyCounter + 1)
    (hkind : ∀ key, final.ownKey? kind key =
      if key = state.nextKey.1 then some key else state.ownKey? kind key)
    (hothers : ∀ other, other ≠ kind → ∀ key, final.ownKey? other key = state.ownKey? other key) :
    HandsOut (some kind) state final where
  partitionId := hpartition
  keyCounter := hcounter
  ownKey := by
    intro other key
    by_cases hsame : other = kind
    · subst hsame
      simp only [hkind key, true_and]
    · rw [hothers other hsame key, if_neg fun hnew => hsame (Option.some.inj hnew.1).symm]

end HandsOut

/-! ### What is added -/

/-- The own key when a value is put under its key. -/
theorem map_ownKey_ite {α : Type} {own : α → Nat} {key new : Nat} {value : α} {before : Option α}
    (hown : own value = new) : (if key = new then some value else before).map own =
      if key = new then some key else before.map own := by
  by_cases hkey : key = new
  · rw [if_pos hkey, if_pos hkey, hkey, Option.map_some, hown]
  · rw [if_neg hkey, if_neg hkey]

namespace EngineState

variable (state : EngineState)

theorem handsOut_listed (request : DeploymentPayload) :
    HandsOut (some .processDefinition) state (state.listed request) := by
  refine .of_kind rfl rfl (fun key => ?_) fun other hother key => ?_
  · exact (congrArg _ (SortedMap.get?_insert _ _ _ _)).trans (map_ownKey_ite rfl)
  · cases other <;> first | rfl | exact absurd rfl hother

theorem handsOut_startInstance (definition : ProcessDefinition) (elementId : Option String) :
    HandsOut (some .processInstance) state (startInstance state definition elementId).2 := by
  refine .of_kind rfl rfl (fun key => ?_) fun other hother key => ?_
  · exact (congrArg _ (SortedMap.get?_insert _ _ _ _)).trans (map_ownKey_ite rfl)
  · cases other <;> first | rfl | exact absurd rfl hother

theorem handsOut_schedule (timer : Timer) (hkey : timer.key = state.nextKey.1) :
    HandsOut (some .timer) state
      { state.nextKey.2 with timers := state.timers.schedule timer } := by
  refine .of_kind rfl rfl (fun key => ?_) fun other hother key => ?_
  · have hget := TimerAgenda.get?_schedule state.timers timer key
    rw [hkey] at hget
    exact (congrArg _ hget).trans (map_ownKey_ite hkey)
  · cases other <;> first | rfl | exact absurd rfl hother

theorem handsOut_incident (value : IncidentPayload) :
    HandsOut (some .incident) state
      { state.nextKey.2 with incidents := state.incidents.create state.nextKey.1 value } := by
  refine .of_kind rfl rfl (fun key => ?_) fun other hother key => ?_
  · exact (congrArg _ (IncidentLedger.get?_create state.incidents _ value key)).trans
      (map_ownKey_ite rfl)
  · cases other <;> first | rfl | exact absurd rfl hother

theorem handsOut_job {request : JobPayload} {offered : Job} {jobs : JobLedger}
    (hnew : state.jobs.get? state.nextKey.1 = none)
    (hoffered : (state.jobs.create state.nextKey.1 request).2.markActivatable state.nextKey.1 =
      some (offered, jobs)) :
    HandsOut (some .job) state { state.nextKey.2 with jobs } := by
  obtain ⟨-, hkey, -, -, hget⟩ := JobLedger.offered_new hnew hoffered
  refine .of_kind rfl rfl (fun key => ?_) fun other hother key => ?_
  · exact (congrArg _ (hget key)).trans (map_ownKey_ite hkey)
  · cases other <;> first | rfl | exact absurd rfl hother

/-- Leasing jobs hands out a key for the batch. -/
theorem handsOut_activate {request : JobBatchPayload} {now : Instant} {jobKeys : List Nat}
    {jobs : JobLedger} (hactivate : state.jobs.activate request.jobType request.worker
      request.timeout request.maxJobs now = (jobKeys, jobs)) :
    HandsOut none state { state.nextKey.2 with jobs } := by
  refine ⟨rfl, rfl, fun kind key => ?_⟩
  rw [if_neg fun hnew => nomatch hnew.1]
  cases kind with
  | job =>
      have hget : (state.jobs.activate request.jobType request.worker request.timeout
          request.maxJobs now).2.get? key = _ := JobLedger.get?_activate ..
      rw [hactivate] at hget
      show (jobs.get? key).map Job.key = (state.jobs.get? key).map Job.key
      rw [hget]
      by_cases hmem : key ∈ state.jobs.offeredKeys request.jobType request.maxJobs now
      · rw [if_pos hmem, Option.map_map]
        rfl
      · rw [if_neg hmem]
  | processDefinition | processInstance | timer | incident => rfl

end EngineState

/-! ### The steps of a decision -/

section Steps

variable (state : EngineState)

theorem gives_fireStart (timer : Timer) :
    Gives state (fireStart state timer).1 (fireStart state timer).2 ∧
      Keeps state (fireStart state timer).1 := by
  unfold fireStart
  by_cases hstart : timer.isStartEvent
  · rw [if_pos hstart]
    cases timer.definitionKey.bind state.processes.definition? with
    | none => exact ⟨.refl state, fun _ _ hown => hown⟩
    | some definition =>
        have hstarted := state.handsOut_startInstance definition (some timer.targetElementId)
        exact ⟨hstarted.gives rfl rfl rfl, hstarted.keeps⟩
  · rw [if_neg hstart]
    exact ⟨.refl state, fun _ _ hown => hown⟩

/-- A timer that repeats has a successor. -/
theorem Timer.successor?_of_repeats {timer : Timer} (h : timer.repeats) (key position : Nat) :
    ∃ next, timer.successor? key position = some next ∧ next.key = key := by
  cases hnext : timer.successor? key position with
  | some next => exact ⟨next, rfl, (Timer.successor?_some hnext).1⟩
  | none =>
      exfalso
      unfold repeats at h
      unfold successor? at hnext
      cases hperiod : timer.period with
      | none => simp [hperiod] at h
      | some period =>
          cases hrepetition : timer.repetition.next? with
          | none => simp [hrepetition] at h
          | some repetition =>
              rw [hperiod, hrepetition] at hnext
              cases hnext

theorem gives_scheduleSuccessor (timer : Timer) (position : Nat) :
    Gives state (scheduleSuccessor state timer position).1
        (scheduleSuccessor state timer position).2 ∧
      Keeps state (scheduleSuccessor state timer position).1 := by
  unfold scheduleSuccessor
  by_cases hrepeats : timer.repeats
  · rw [if_pos hrepeats]
    obtain ⟨next, hnext, hkey⟩ := Timer.successor?_of_repeats hrepeats state.nextKey.1 position
    dsimp only
    rw [hnext]
    have hscheduled := state.handsOut_schedule next hkey
    exact ⟨hscheduled.gives rfl rfl rfl, hscheduled.keeps⟩
  · rw [if_neg hrepeats]
    exact ⟨.refl state, fun _ _ hown => hown⟩

theorem gives_scheduleStarts (definitionKey position : Nat) (starts : List ResolvedStart) :
    ∀ state, Gives state (scheduleStarts definitionKey position state starts).1
        (scheduleStarts definitionKey position state starts).2 ∧
      Keeps state (scheduleStarts definitionKey position state starts).1 := by
  induction starts with
  | nil => intro state; exact ⟨.refl state, fun _ _ hown => hown⟩
  | cons start rest ih =>
      intro state
      have hfirst := state.handsOut_schedule
        (startTimer state.nextKey.1 definitionKey position start) rfl
      obtain ⟨hgives, hkeeps⟩ := ih { state.nextKey.2 with
        timers := state.timers.schedule
          (startTimer state.nextKey.1 definitionKey position start) }
      have hone : Gives state _ [(⟨state.nextKey.1, .timer .created,
          .timer (startTimer state.nextKey.1 definitionKey position start).toPayload⟩ : Event)] :=
        hfirst.gives rfl rfl rfl
      exact ⟨hone.trans hgives hkeeps, hfirst.keeps.trans hkeeps⟩

theorem gives_openIncident (job : Job) :
    Gives state (openIncident state job).1 (openIncident state job).2 ∧
      Keeps state (openIncident state job).1 := by
  unfold openIncident
  by_cases hfailed : job.state = .failed
  · rw [if_pos hfailed]
    have hopened := state.handsOut_incident (exhaustedJob job)
    exact ⟨hopened.gives rfl rfl rfl, hopened.keeps⟩
  · rw [if_neg hfailed]
    exact ⟨.refl state, fun _ _ hown => hown⟩

/-- Timers that are taken out are stored no longer, and all else stays. -/
theorem ownKey?_timers {agenda : TimerAgenda}
    (hget : ∀ key timer, agenda.get? key = some timer → state.timers.get? key = some timer)
    (kind : EntityKind) (key own : Nat)
    (hown : ({ state with timers := agenda } : EngineState).ownKey? kind key = some own) :
    state.ownKey? kind key = some own := by
  cases kind with
  | timer =>
      obtain ⟨timer, htimer, rfl⟩ := Option.map_eq_some_iff.mp hown
      exact Option.map_eq_some_iff.mpr ⟨timer, hget key timer htimer, rfl⟩
  | processDefinition | processInstance | job | incident => exact hown

theorem gives_eraseTimer {key : Nat} {event : Event} (htakes : event.intent.takesKey = false) :
    Gives state { state with timers := state.timers.erase key } [event] := by
  refine .quiet rfl rfl (ownKey?_timers state fun other timer hget => ?_) fun other he => ?_
  · rw [TimerAgenda.get?_erase] at hget
    by_cases hkey : other = key
    · rw [if_pos hkey] at hget
      cases hget
    · rwa [if_neg hkey] at hget
  · rw [List.mem_singleton.mp he]
    exact htakes

theorem gives_cancelTimers (timers : List Timer) :
    Gives state (cancelTimers timers state).1 (cancelTimers timers state).2 := by
  refine .quiet rfl rfl (ownKey?_timers state ?_) fun event he => ?_
  · -- An agenda from which timers were taken out one by one has no others.
    show ∀ key timer, (timers.foldl (fun agenda timer => agenda.erase timer.key)
      state.timers).get? key = some timer → state.timers.get? key = some timer
    generalize state.timers = agenda
    induction timers generalizing agenda with
    | nil => exact fun key timer hget => hget
    | cons first rest ih =>
        intro key timer hget
        have hrest := ih _ key timer hget
        rw [TimerAgenda.get?_erase] at hrest
        by_cases hkey : key = first.key
        · rw [if_pos hkey] at hrest
          cases hrest
        · rwa [if_neg hkey] at hrest
  · obtain ⟨timer, -, rfl⟩ := List.mem_map.mp he
    rfl

/-- An incident is resolved in its place. -/
theorem gives_resolveIncident (jobKey : Nat)
    (hown : ∀ key own, state.ownKey? .incident key = some own → own = key) :
    Gives state (resolveIncident state jobKey).1 (resolveIncident state jobKey).2 := by
  unfold resolveIncident
  dsimp only
  cases hresolve : (state.incidents.forJob jobKey).bind fun incident =>
      state.incidents.resolve incident.key with
  | none => exact .refl state
  | some result =>
      obtain ⟨resolved, incidents⟩ := result
      refine .quiet rfl rfl (fun kind key own hstored => ?_) fun event he => ?_
      · cases kind with
        | incident =>
            obtain ⟨incident, -, hset⟩ := Option.bind_eq_some_iff.mp hresolve
            obtain ⟨found, hget, -, -, hafter, -⟩ := IncidentLedger.resolve_ok hset
            have hkey : found.key = incident.key :=
              hown _ _ (Option.map_eq_some_iff.mpr ⟨found, hget, rfl⟩)
            have hstored' := ((congrArg _ (hafter key)).trans (map_ownKey_ite hkey)).symm.trans
              hstored
            by_cases hsame : key = incident.key
            · rw [if_pos hsame, Option.some.injEq] at hstored'
              rw [← hstored', hsame]
              exact Option.map_eq_some_iff.mpr ⟨found, hget, hkey⟩
            · rw [if_neg hsame] at hstored'
              exact hstored'
        | processDefinition | processInstance | timer | job => exact hstored
      · rw [List.mem_singleton.mp he]
        rfl

/-- A job that was there is put in its place again, or taken out. -/
theorem gives_job {key : Nat} {job : Job} (left : Option Job) {jobs : JobLedger} {event : Event}
    (hjob : state.jobs.get? key = some job) (hkey : job.key = key)
    (hleft : ∀ other ∈ left, other.key = job.key)
    (hget : ∀ other, jobs.get? other = if other = job.key then left else state.jobs.get? other)
    (htakes : event.intent.takesKey = false) : Gives state { state with jobs } [event] := by
  refine .quiet rfl rfl (fun kind other own hown => ?_) fun other he => ?_
  · cases kind with
    | job =>
        obtain ⟨found, hfound, rfl⟩ := Option.map_eq_some_iff.mp hown
        rw [hget] at hfound
        refine Option.map_eq_some_iff.mpr ?_
        by_cases hsame : other = job.key
        · rw [if_pos hsame] at hfound
          exact ⟨job, by rw [hsame, hkey]; exact hjob, (hleft found hfound).symm⟩
        · rw [if_neg hsame] at hfound
          exact ⟨found, hfound, rfl⟩
    | processDefinition | processInstance | timer | incident => exact hown
  · rw [List.mem_singleton.mp he]
    exact htakes

theorem gives_putJob {key : Nat} {job : Job} (ended : Job) {jobs : JobLedger} {event : Event}
    (hjob : state.jobs.get? key = some job) (hkey : job.key = key) (hended : ended.key = job.key)
    (hget : ∀ other, jobs.get? other = (state.jobs.put ended).get? other)
    (htakes : event.intent.takesKey = false) : Gives state { state with jobs } [event] := by
  refine gives_job state (some ended) hjob hkey (fun other ho => ?_) (fun other => ?_) htakes
  · rw [← Option.some.inj ho, hended]
  · rw [hget, JobLedger.get?_put, hended]

theorem gives_removeJob {key : Nat} {job : Job} {event : Event}
    (hjob : state.jobs.get? key = some job) (hkey : job.key = key)
    (htakes : event.intent.takesKey = false) :
    Gives state { state with jobs := state.jobs.remove job } [event] :=
  gives_job state none hjob hkey (fun _ ho => nomatch ho)
    (fun other => JobLedger.get?_remove _ _ other) htakes

end Steps

/-! ### Keys and what is stored under them -/

namespace EngineState

/-- Every entity is stored under its own key, which was handed out for it alone. -/
structure Keyed (state : EngineState) : Prop where
  own : ∀ kind key own, state.ownKey? kind key = some own → own = key
  issued : ∀ kind key own, state.ownKey? kind key = some own → state.Issued key
  kind : ∀ first second key own own', state.ownKey? first key = some own →
    state.ownKey? second key = some own' → first = second

theorem keyed_initial (partitionId : Nat) : (initial partitionId).Keyed where
  own := fun kind _ _ hown => by cases kind <;> cases hown
  issued := fun kind _ _ hown => by cases kind <;> cases hown
  kind := fun first _ _ _ _ hown => by cases first <;> cases hown

/-- A key that was handed out before is none that is handed out now. -/
theorem Issued.not_mem_keysBetween {state final : EngineState} {key : Nat} (h : state.Issued key)
    (hcapacity : final.keyCounter < 2 ^ keyCounterBits) : key ∉ keysBetween state final := by
  intro hmem
  obtain ⟨counter, -, hle, rfl⟩ := h
  obtain ⟨later, hlt, hlater, heq⟩ := mem_keysBetween hmem
  have hsame := keyAt_injective (by omega) (by omega) heq
  omega

end EngineState

namespace Gives

variable {state final : EngineState} {events : List Event}

/-- The key of an event that takes one is handed out by the step. -/
theorem mem_keys (h : Gives state final events) {event : Event} (he : event ∈ events)
    (htakes : event.intent.takesKey) : event.key ∈ keysBetween state final := by
  rw [← h.keys]
  exact List.mem_map_of_mem (List.mem_filter.mpr ⟨he, htakes⟩)

/-- One key is taken by one event. -/
theorem event_unique (h : Gives state final events)
    (hcapacity : final.keyCounter < 2 ^ keyCounterBits) {first second : Event}
    (hfirst : first ∈ events) (hsecond : second ∈ events) (htakes : first.intent.takesKey)
    (htakes' : second.intent.takesKey) (hkey : first.key = second.key) : first = second := by
  have hnodup : (Event.keysTaken events).Nodup := by
    rw [h.keys]
    exact (keysBetween_ascending hcapacity).imp Nat.ne_of_lt
  exact List.inj_on_of_nodup_map hnodup (List.mem_filter.mpr ⟨hfirst, htakes⟩)
    (List.mem_filter.mpr ⟨hsecond, htakes'⟩) hkey

/-- **A step that gives new keys keeps every key with its entity.** -/
theorem keyed (h : Gives state final events) (hkeyed : state.Keyed)
    (hcapacity : final.keyCounter < 2 ^ keyCounterBits) : final.Keyed where
  own := by
    intro kind key own hown
    rcases h.origin kind key own hown with hbefore | ⟨heq, -⟩
    · exact hkeyed.own kind key own hbefore
    · exact heq
  issued := by
    intro kind key own hown
    rcases h.origin kind key own hown with hbefore | ⟨-, event, he, rfl, hcreates⟩
    · exact h.toGrows.issued (hkeyed.issued kind key own hbefore)
    · obtain ⟨counter, hlt, hle, heq⟩ :=
        mem_keysBetween (h.mem_keys he (Intent.takesKey_of_creates hcreates))
      exact ⟨counter, by omega, hle, by rw [heq, h.partitionId]⟩
  kind := by
    intro first second key own own' hfirst hsecond
    -- What was stored before has a key that is not handed out now.
    have hold : ∀ kind own event, state.ownKey? kind key = some own → event ∈ events →
        event.key = key → event.intent.takesKey → False := by
      intro kind own event hbefore he hkey htakes
      refine (hkeyed.issued kind key own hbefore).not_mem_keysBetween hcapacity ?_
      rw [← hkey]
      exact h.mem_keys he htakes
    rcases h.origin first key own hfirst with hbefore | ⟨-, event, he, hkey, hcreates⟩
    · rcases h.origin second key own' hsecond with hbefore' | ⟨-, event, he, hkey, hcreates⟩
      · exact hkeyed.kind first second key own own' hbefore hbefore'
      · exact (hold first own event hbefore he hkey (Intent.takesKey_of_creates hcreates)).elim
    · rcases h.origin second key own' hsecond with hbefore' | ⟨-, other, ho, hkey', hcreates'⟩
      · exact (hold second own' event hbefore' he hkey (Intent.takesKey_of_creates hcreates)).elim
      · have hsame := h.event_unique hcapacity he ho (Intent.takesKey_of_creates hcreates)
          (Intent.takesKey_of_creates hcreates') (hkey.trans hkey'.symm)
        rw [hsame, hcreates'] at hcreates
        exact (Option.some.inj hcreates).symm

end Gives

/-! ### Each way of accepting a command -/

theorem gives_deployed {state final : EngineState} {position : Nat} {request : DeploymentPayload}
    {starts : List ResolvedStart} {answer : Event} {others : List Event}
    (h : deployResolved state position request starts = .accept final answer others) :
    Gives state final (answer :: others) := by
  cases h
  let earlier := state.timers.startTimersOf (state.processes.versionsOf request.processId)
  let answer : Event := ⟨state.nextKey.1, .deployment .created, .deployment
    { request with version := (state.release request).version, definitionKey := state.nextKey.1 }⟩
  have hlisted : Gives state (state.listed request) [answer] :=
    (state.handsOut_listed request).gives rfl rfl rfl
  have hcleared : Gives state (state.cleared request)
      ([answer] ++ (cancelTimers earlier (state.listed request)).2) := by
    refine hlisted.append (gives_cancelTimers _ earlier) fun event he kind hcreates hown => ?_
    rw [List.mem_singleton.mp he] at hcreates hown ⊢
    cases hcreates
    exact hown
  obtain ⟨hstarts, hkeeps⟩ :=
    gives_scheduleStarts state.nextKey.1 position starts (state.cleared request)
  exact hcleared.trans hstarts hkeeps

/-- **What accepting a command does to the keys.** -/
theorem Accepted.gives {evaluator : Evaluator} {state final : EngineState} {command : Record}
    {answer : Event} {others : List Event}
    (h : Accepted evaluator state command final answer others) (hkeyed : state.Keyed)
    (hcapacity : final.keyCounter < 2 ^ keyCounterBits) :
    Gives state final (answer :: others) := by
  have hstored : ∀ key job, state.jobs.get? key = some job →
      state.ownKey? .job key = some job.key :=
    fun key job hget => Option.map_eq_some_iff.mpr ⟨job, hget, rfl⟩
  have hown : ∀ key job, state.jobs.get? key = some job → job.key = key :=
    fun key job hget => hkeyed.own .job key job.key (hstored key job hget)
  have hincident : ∀ key own, state.ownKey? .incident key = some own → own = key :=
    hkeyed.own .incident
  cases h with
  | deployed request starts hintent hvalue hid hunique hstarts hdeploy =>
      exact gives_deployed hdeploy
  | instanceCreated request definition =>
      exact (state.handsOut_startInstance definition none).gives rfl rfl rfl
  | timerCreated => exact (state.handsOut_schedule _ rfl).gives rfl rfl rfl
  | timerUnresolved => exact (state.handsOut_incident _).gives rfl rfl rfl
  | timerFired key timer =>
      have hfired := (gives_fireStart { state with timers := state.timers.erase key } timer).1
      obtain ⟨hsuccessor, hkeeps⟩ := gives_scheduleSuccessor
        (fireStart { state with timers := state.timers.erase key } timer).1 timer command.position
      exact .quiet_cons rfl (gives_eraseTimer state rfl) (hfired.trans hsuccessor hkeeps)
  | timerCanceled => exact gives_eraseTimer state rfl
  | jobCreated request offered jobs hintent hvalue htype hretries hoffered =>
      have hnew : state.jobs.get? state.nextKey.1 = none := by
        cases hget : state.jobs.get? state.nextKey.1 with
        | none => rfl
        | some job =>
            exact absurd (hkeyed.issued .job _ job.key (hstored _ job hget))
              (not_issued_nextKey hcapacity)
      have hcreated : Gives state { state.nextKey.2 with jobs } [⟨state.nextKey.1, .job .created,
          .job (state.jobs.create state.nextKey.1 request).1.toPayload⟩] :=
        (state.handsOut_job hnew hoffered).gives rfl rfl rfl
      refine hcreated.append_quiet fun event he => ?_
      rw [List.mem_singleton.mp he]
      rfl
  | jobsActivated request jobKeys jobs hintent hvalue htype htimeout hmax hactivate =>
      exact (state.handsOut_activate hactivate).gives rfl rfl rfl
  | jobCompleted key job jobs hintent hkey hcomplete =>
      obtain ⟨before, hget, -, -, rfl⟩ := JobLedger.complete_ok hcomplete
      exact gives_removeJob state hget (hown key before hget) rfl
  | jobFailed key request job jobs hintent hkey hvalue hfail =>
      obtain ⟨before, hget, -, rfl, rfl⟩ := JobLedger.fail_ok hfail
      let failed :=
        JobLedger.failedJob before request.retryBackoff request.errorMessage command.timestamp
      have hput : Gives state { state with jobs := (state.jobs.release before).put failed }
          [jobEvent .failed failed] := by
        refine gives_putJob state failed hget (hown key before hget)
          (JobLedger.failedJob_cases before _ _ _).1 (fun other => ?_) rfl
        rw [JobLedger.get?_put, JobLedger.get?_put, JobLedger.get?_release]
      exact .quiet_cons rfl hput (gives_openIncident _ _).1
  | jobTimedOut key observed job jobs hintent hkey hobserved htimeOut =>
      obtain ⟨before, hget, -, -, -, rfl, rfl⟩ := JobLedger.timeOut_ok htimeOut
      exact gives_putJob state
        { before with state := .activatable, worker := none, deadline := none } hget
        (hown key before hget) rfl (fun other => rfl) rfl
  | retriesUpdated key request revived job jobs hintent hkey hvalue hretries hupdate hjob =>
      have hput : Gives state { state with jobs } [jobEvent .retriesUpdated job] := by
        obtain ⟨before, hget, ⟨-, -, rfl⟩ | ⟨-, -, rfl⟩⟩ :=
          JobLedger.updateRetries_ok hretries hupdate
        · exact gives_putJob state
            { before with retries := request.retries, state := .activatable, eligibleAt := none }
            hget (hown key before hget) rfl (fun other => rfl) rfl
        · exact gives_putJob state { before with retries := request.retries } hget
            (hown key before hget) rfl (fun other => rfl) rfl
      have hresolved := gives_resolveIncident { state with jobs } key hincident
      refine .quiet_cons rfl hput (hresolved.append_quiet fun event he => ?_)
      cases revived with
      | false => exact absurd he List.not_mem_nil
      | true =>
          rw [List.mem_singleton.mp he]
          rfl
  | jobCanceled key job jobs hintent hkey hcancel =>
      obtain ⟨before, hget, -, rfl⟩ := JobLedger.cancel_ok hcancel
      exact .quiet_cons rfl (gives_removeJob state hget (hown key before hget) rfl)
        (gives_resolveIncident _ key hincident)

/-! ### The keys of a whole run -/

namespace SortedMap

variable {α : Type}

/-- When every value has the key that it is stored under, the own keys are the keys of the map. -/
theorem map_values_of_own {m : SortedMap Nat α} {own : α → Nat}
    (h : ∀ key value, m.get? key = some value → own value = key) :
    m.values.map own = m.entries.map Prod.fst := by
  unfold values
  rw [List.map_map]
  refine List.map_congr_left fun entry he => ?_
  exact h entry.1 entry.2 ((mem_toList_iff m entry.1 entry.2).mp he)

theorem nodup_map_values {m : SortedMap Nat α} {own : α → Nat}
    (h : ∀ key value, m.get? key = some value → own value = key) :
    (m.values.map own).Nodup := by
  rw [map_values_of_own h]
  exact (List.pairwise_map.mpr m.ascending).imp Nat.ne_of_lt

theorem mem_map_values_iff {m : SortedMap Nat α} {own : α → Nat} {key : Nat}
    (h : ∀ key value, m.get? key = some value → own value = key) :
    key ∈ m.values.map own ↔ (m.get? key).map own = some key := by
  rw [List.mem_map, Option.map_eq_some_iff]
  constructor
  · rintro ⟨value, hmem, hown⟩
    obtain ⟨stored, hget⟩ := (mem_values_iff m value).mp hmem
    rw [← (h stored value hget).symm.trans hown]
    exact ⟨value, hget, h stored value hget⟩
  · rintro ⟨value, hget, hown⟩
    exact ⟨value, (mem_values_iff m value).mpr ⟨key, hget⟩, hown⟩

end SortedMap

namespace EngineState

variable {state : EngineState}

/-- What the two views of the entities of a kind have in common. -/
theorem Keyed.keysOf (h : state.Keyed) (kind : EntityKind) : (state.keysOf kind).Nodup ∧
    ∀ key, key ∈ state.keysOf kind ↔ state.ownKey? kind key = some key := by
  have hown : ∀ {α : Type} {get? : Nat → Option α} {own : α → Nat},
      (∀ key, state.ownKey? kind key = (get? key).map own) →
      ∀ key value, get? key = some value → own value = key := by
    intro α get? own hkind key value hget
    exact h.own kind key _ ((hkind key).trans (Option.map_eq_some_iff.mpr ⟨value, hget, rfl⟩))
  cases kind with
  | processDefinition | processInstance | timer | job | incident =>
      exact ⟨SortedMap.nodup_map_values (hown fun key => rfl), fun key =>
        SortedMap.mem_map_values_iff (hown fun key => rfl)⟩

/-- The keys of all entities differ. -/
theorem Keyed.nodup (h : state.Keyed) : state.entityKeys.Nodup := by
  refine List.nodup_flatMap.mpr ⟨fun kind _ => (h.keysOf kind).1, ?_⟩
  refine EntityKind.nodup_all.imp fun {first second} hne => ?_
  intro key hfirst hsecond
  rw [(h.keysOf first).2] at hfirst
  rw [(h.keysOf second).2] at hsecond
  exact hne (h.kind first second key key key hfirst hsecond)

theorem Keyed.issued_of_mem (h : state.Keyed) {key : Nat} (hmem : key ∈ state.entityKeys) :
    state.Issued key := by
  obtain ⟨kind, -, hkind⟩ := List.mem_flatMap.mp hmem
  exact h.issued kind key key (((h.keysOf kind).2 key).mp hkind)

/-- A key tells its partition and its counter. -/
theorem Issued.decodes {partitionId key : Nat} (h : state.Issued key)
    (hpartition : state.partitionId = partitionId) (hmax : partitionId ≤ maxPartitionId)
    (hcapacity : state.keyCounter < 2 ^ keyCounterBits) :
    partitionOf key = partitionId ∧ 1 ≤ key % 2 ^ keyCounterBits ∧
      key % 2 ^ keyCounterBits ≤ state.keyCounter := by
  obtain ⟨counter, hpos, hle, rfl⟩ := h
  have hcounter : counter < 2 ^ keyCounterBits := Nat.lt_of_le_of_lt hle hcapacity
  have hfits : partitionId <<< keyCounterBits < wordCount 64 := by
    have hsmall : partitionId < 2 ^ 13 := Nat.lt_of_le_of_lt hmax (by decide)
    rw [Nat.shiftLeft_eq]
    exact Nat.lt_of_lt_of_le (Nat.mul_lt_mul_of_pos_right hsmall (by decide)) (by decide)
  rw [keyAt_mod hcounter]
  refine ⟨?_, hpos, hle⟩
  rw [partitionOf, keyAt, hpartition, Nat.mod_eq_of_lt hfits, Nat.shiftRight_or_distrib,
    Nat.shiftLeft_shiftRight, Nat.shiftRight_eq_div_pow, Nat.div_eq_of_lt hcounter, Nat.or_zero]

/-- The keys that a run handed out are those of its events. -/
theorem keysTaken_told (command : Record) (events : List Event) :
    keysTaken ((events.map (Event.told command)).map Prod.snd) = Event.keysTaken events := by
  induction events with
  | nil => rfl
  | cons event rest ih =>
      by_cases htakes : event.intent.takesKey <;>
        simp_all [keysTaken, Event.keysTaken, Event.told, Draft.takesKey, Draft.event]

theorem keysTaken_append (first second : List Draft) :
    keysTaken (first ++ second) = keysTaken first ++ keysTaken second := by
  simp [keysTaken]

/-- After any commands every key is with its entity, and the events were given all keys that were
handed out, in order. -/
theorem keyed_after (partitionId : Nat) (evaluator : Evaluator) (commands : List Record)
    (hcapacity : ((Processor.start partitionId .builtin evaluator).after commands).state.keyCounter
      < 2 ^ keyCounterBits) :
    let first := Processor.start partitionId .builtin evaluator
    let final := (first.after commands).state
    final.Keyed ∧ keysTaken ((first.history commands).map Prod.snd) =
      keysBetween (.initial partitionId) final := by
  have hinduction := Processor.history_induction evaluator
    (fun past state => Grows (.initial partitionId) state ∧ state.Keyed ∧
      keysTaken (past.map Prod.snd) = keysBetween (.initial partitionId) state) ?_ ?_ commands
    (Processor.start partitionId .builtin evaluator) [] rfl rfl
    ⟨.refl _, keyed_initial partitionId, rfl⟩ hcapacity
  · exact hinduction.2
  · rintro past state command draft ⟨hgrows, hkeyed, hkeys⟩ hkind
    refine ⟨hgrows, hkeyed, ?_⟩
    have hnone : draft.takesKey = false := by
      rw [Draft.takesKey, Bool.and_eq_false_iff]
      exact .inl (beq_false_of_ne hkind)
    rw [List.map_append, keysTaken_append, hkeys]
    simp [keysTaken, hnone]
  · rintro past state command final answer others ⟨hgrows, hkeyed, hkeys⟩ haccepted hcapacity
    have hgives := haccepted.gives hkeyed hcapacity
    refine ⟨hgrows.trans hgives.toGrows, hgives.keyed hkeyed hcapacity, ?_⟩
    rw [List.map_append, keysTaken_append, hkeys, keysTaken_told, hgives.keys,
      keysBetween_append hgrows hgives.toGrows]

/-- What one more command does to the keys. -/
structure FreshAt (first : Processor) (before : List Record) (command : Record) : Prop where
  /-- A key that an event takes was no entity's until now, and what was created has it now. -/
  fresh : ∀ draft ∈ ((first.after before).apply command).1.followUps, draft.takesKey →
    ∃ key, draft.key = some key ∧
      (∀ earlier, earlier <+: before → key ∉ (first.after earlier).state.entityKeys) ∧
      ∀ kind, draft.intent.creates? = some kind →
        key ∈ (first.after (before ++ [command])).state.keysOf kind
  /-- An entity was there before, or it is what an event created. -/
  origin : ∀ kind key, key ∈ (first.after (before ++ [command])).state.keysOf kind →
    key ∈ (first.after before).state.keysOf kind ∨
      ∃ draft ∈ ((first.after before).apply command).1.followUps, draft.kind = .event ∧
        draft.key = some key ∧ draft.intent.creates? = some kind

theorem freshAt (partitionId : Nat) (evaluator : Evaluator) (before : List Record)
    (command : Record)
    (hcapacity : ((Processor.start partitionId .builtin evaluator).after
      (before ++ [command])).state.keyCounter < 2 ^ keyCounterBits) :
    FreshAt (.start partitionId .builtin evaluator) before command := by
  let first := Processor.start partitionId .builtin evaluator
  have hbuiltin : (first.after before).registry = .builtin := Processor.after_registry before first
  have hnext : first.after (before ++ [command]) = ((first.after before).apply command).2 :=
    Processor.after_append before [command] first
  have hgrows := Processor.grows_apply hbuiltin command
  have hbefore : (first.after before).state.keyCounter < 2 ^ keyCounterBits := by
    refine Nat.lt_of_le_of_lt hgrows.keyCounter ?_
    rw [← hnext]
    exact hcapacity
  have hkeyed := (keyed_after partitionId evaluator before hbefore).1
  have hkeyed' := (keyed_after partitionId evaluator _ hcapacity).1
  rcases Processor.apply_tells hbuiltin command with
    ⟨hsame, hkinds⟩ | ⟨answer, others, haccepted, htold⟩
  · refine ⟨fun draft hd htakes => ?_, fun kind key hmem => .inl ?_⟩
    · rw [Draft.takesKey, Bool.and_eq_true, beq_iff_eq] at htakes
      exact absurd htakes.1 (hkinds draft hd)
    · change key ∈ (first.after (before ++ [command])).state.keysOf kind at hmem
      rw [hnext, hsame] at hmem
      exact hmem
  · have hdrafts : ((first.after before).apply command).1.followUps =
        (answer :: others).map fun event => (event.told command).2 := by
      have hsnd := congrArg (List.map Prod.snd) htold
      rw [List.map_map, List.map_map] at hsnd
      exact (List.map_id _).symm.trans hsnd
    have hgives : Gives (first.after before).state (first.after (before ++ [command])).state
        (answer :: others) := by
      rw [hnext]
      exact haccepted.gives hkeyed (by rw [← hnext]; exact hcapacity)
    refine ⟨fun draft hd htakes => ?_, fun kind key hmem => ?_⟩
    · rw [hdrafts] at hd
      obtain ⟨event, he, rfl⟩ := List.mem_map.mp hd
      have hevent : event.intent.takesKey := (Bool.and_eq_true _ _ ▸ htakes).2
      refine ⟨event.key, rfl, fun earlier hearlier hmem => ?_, fun kind hcreates =>
        ((hkeyed'.keysOf kind).2 event.key).mpr (hgives.made event he kind hcreates)⟩
      obtain ⟨between, rfl⟩ := hearlier
      have hlater := Processor.grows_after between (first.after earlier)
        (Processor.after_registry earlier first)
      rw [← Processor.after_append] at hlater
      have hissued := (keyed_after partitionId evaluator earlier
        (Nat.lt_of_le_of_lt hlater.keyCounter hbefore)).1.issued_of_mem hmem
      exact (hlater.issued hissued).not_mem_keysBetween hcapacity (hgives.mem_keys he hevent)
    · have hown := ((hkeyed'.keysOf kind).2 key).mp hmem
      rcases hgives.origin kind key key hown with hold | ⟨-, event, he, hkey, hcreates⟩
      · exact .inl (((hkeyed.keysOf kind).2 key).mpr hold)
      · refine .inr ⟨(event.told command).2, ?_, rfl, congrArg some hkey, hcreates⟩
        rw [hdrafts]
        exact List.mem_map_of_mem he

/-- **Keys are fresh for ever.**  After any commands, whatever keys they carry, the entities of a
partition have keys that all differ; each is stored under its own key, which tells the partition and
a counter that was gone through.  The keys that events were given are all that were handed out, in
ascending order; and with every command, a key that is given was no entity's at any time before,
what was created has it, and no other entity comes to be. -/
theorem keys_are_fresh (partitionId : Nat) (hmax : partitionId ≤ maxPartitionId)
    (evaluator : Evaluator) (commands : List Record)
    (hcapacity : ((Processor.start partitionId .builtin evaluator).after commands).state.keyCounter
      < 2 ^ keyCounterBits) :
    let first := Processor.start partitionId .builtin evaluator
    let final := (first.after commands).state
    final.entityKeys.Nodup ∧
    (∀ key ∈ final.entityKeys, partitionOf key = partitionId ∧ 1 ≤ key % 2 ^ keyCounterBits ∧
      key % 2 ^ keyCounterBits ≤ final.keyCounter) ∧
    (∀ kind key own, final.ownKey? kind key = some own → own = key) ∧
    keysTaken ((first.history commands).map Prod.snd) =
      (List.range' 1 final.keyCounter).map (keyAt partitionId) ∧
    (keysTaken ((first.history commands).map Prod.snd)).Pairwise (· < ·) ∧
    ∀ before command later, commands = before ++ command :: later →
      FreshAt first before command := by
  intro first final
  obtain ⟨hkeyed, hkeys⟩ := keyed_after partitionId evaluator commands hcapacity
  have hgrows : Grows first.state final := Processor.grows_after commands first rfl
  refine ⟨hkeyed.nodup, fun key hmem => ?_, hkeyed.own, hkeys, ?_, ?_⟩
  · exact (hkeyed.issued_of_mem hmem).decodes hgrows.partitionId hmax hcapacity
  · rw [hkeys]
    exact keysBetween_ascending hcapacity
  · intro before command later hcommands
    refine freshAt partitionId evaluator before command ?_
    have hlater := Processor.grows_after later (first.after (before ++ [command]))
      (Processor.after_registry _ first)
    rw [← Processor.after_append, List.append_assoc, List.singleton_append, ← hcommands] at hlater
    exact Nat.lt_of_le_of_lt hlater.keyCounter hcapacity

/-- Commands by which every kind of entity is created, under keys that the clients make up as they
like; a job ends, and its key is not given again. -/
def namingCommands : List Record :=
  [.ofDraft 1 (.command (some 7) (.deployment .create) (.deployment
    { processId := "process", timerStarts := [⟨"start", ⟨.cycle, false, "R2/PT1S"⟩⟩] })),
    .ofDraft 2 (.command (some (keyAt 1 1)) (.processInstance .create)
      (.processInstance { processId := "process" })),
    .ofDraft 3 (.command (some (keyAt 1 5)) (.job .create)
      (.job { jobType := "work", retries := 1 })),
    .ofDraft 4 (.command none (.jobBatch .activate) (.jobBatch
      { jobType := "work", worker := "worker", timeout := ⟨1⟩, maxJobs := 1 })),
    .ofDraft 5 (.command (some (keyAt 1 4)) (.job .complete) (.job { jobType := "work" })),
    .ofDraft 6 (.command none (.job .create) (.job { jobType := "work", retries := 1 }))]

theorem keys_are_fresh_naming :
    let first := Processor.start 1 .builtin .unavailable
    let final := (first.after namingCommands).state
    final.keyCounter = 6 ∧ final.entityKeys = [1, 3, 2, 6].map (keyAt 1) ∧
      final.entityKeys.Nodup ∧
      keysTaken ((first.history namingCommands).map Prod.snd) =
        [1, 2, 3, 4, 5, 6].map (keyAt 1) := by
  have hcounter : ((Processor.start 1 .builtin .unavailable).after
      namingCommands).state.keyCounter = 6 := by decide +kernel
  obtain ⟨hnodup, -, -, hkeys, -, -⟩ := keys_are_fresh 1 (by decide) .unavailable namingCommands
    (by rw [hcounter]; decide)
  refine ⟨hcounter, by decide +kernel, hnodup, hkeys.trans ?_⟩
  rw [hcounter]
  rfl

end EngineState

end Workflow
