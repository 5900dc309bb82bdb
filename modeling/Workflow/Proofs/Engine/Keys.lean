/-
The keys that an engine hands out are new.

A key is issued if the counter has gone through it.  `keyAt` has the counter in its lowest bits,
so as long as the counter fits there, different counters give different keys and the next key is
one that was not issued.

Commands carry keys too, and those may be any number.  They are only ever looked up, never used to
store something, which is why nothing has to be asked of them.

Timers, jobs and incidents are looked after by their own modules; `KeepsJobs` says which commands
those about jobs need not look into.
-/
import Mathlib.Data.Nat.Bitwise
import Workflow.Proofs.Engine.Accepted

namespace Workflow

open Decide

namespace EngineState

/-! ### Keys and counters -/

/-- The counter can be read off a key. -/
theorem keyAt_mod {counter : Nat} (h : counter < 2 ^ keyCounterBits) (partitionId : Nat) :
    keyAt partitionId counter % 2 ^ keyCounterBits = counter := by
  have hupper : (partitionId <<< keyCounterBits) % wordCount 64 % 2 ^ keyCounterBits = 0 := by
    have hdvd : 2 ^ keyCounterBits ∣ wordCount 64 := ⟨2 ^ 13, by decide⟩
    rw [Nat.mod_mod_of_dvd _ hdvd, Nat.shiftLeft_eq, Nat.mul_mod_left]
  unfold keyAt
  rw [Nat.or_mod_two_pow, hupper, Nat.zero_or, Nat.mod_eq_of_lt h]

theorem keyAt_injective {partitionId first second : Nat} (hfirst : first < 2 ^ keyCounterBits)
    (hsecond : second < 2 ^ keyCounterBits)
    (h : keyAt partitionId first = keyAt partitionId second) : first = second := by
  rw [← keyAt_mod hfirst partitionId, ← keyAt_mod hsecond partitionId, h]

/-- The engine has handed out the key. -/
def Issued (state : EngineState) (key : Nat) : Prop :=
  ∃ counter, 0 < counter ∧ counter ≤ state.keyCounter ∧ key = keyAt state.partitionId counter

/-- The next key was not handed out before. -/
theorem not_issued_nextKey {state : EngineState} (h : state.keyCounter + 1 < 2 ^ keyCounterBits) :
    ¬ state.Issued state.nextKey.1 := by
  rintro ⟨counter, -, hle, heq⟩
  have hsame := keyAt_injective h (Nat.lt_of_le_of_lt hle (Nat.lt_of_succ_lt h)) heq
  omega

theorem issued_nextKey (state : EngineState) : state.nextKey.2.Issued state.nextKey.1 :=
  ⟨state.keyCounter + 1, Nat.succ_pos _, Nat.le_refl _, rfl⟩

/-- The counter has not gone back. -/
structure Grows (state later : EngineState) : Prop where
  partitionId : later.partitionId = state.partitionId
  keyCounter : state.keyCounter ≤ later.keyCounter

namespace Grows

variable {state later latest : EngineState}

theorem refl (state : EngineState) : Grows state state := ⟨rfl, Nat.le_refl _⟩

theorem trans (h : Grows state later) (h' : Grows later latest) : Grows state latest :=
  ⟨h'.partitionId.trans h.partitionId, Nat.le_trans h.keyCounter h'.keyCounter⟩

theorem withJobs (state : EngineState) (jobs : JobLedger) : Grows state { state with jobs } :=
  ⟨rfl, Nat.le_refl _⟩

theorem nextKey (state : EngineState) : Grows state state.nextKey.2 := ⟨rfl, Nat.le_succ _⟩

theorem issued (h : Grows state later) {key : Nat} (hkey : state.Issued key) :
    later.Issued key := by
  obtain ⟨counter, hpos, hle, heq⟩ := hkey
  exact ⟨counter, hpos, Nat.le_trans hle h.keyCounter, by rw [h.partitionId]; exact heq⟩

end Grows

/-! ### What leaves jobs and incidents alone -/

/-- Jobs and incidents are as they were. -/
structure KeepsJobs (state later : EngineState) : Prop extends Grows state later where
  jobs : later.jobs = state.jobs
  incidents : later.incidents = state.incidents

theorem KeepsJobs.refl (state : EngineState) : KeepsJobs state state := ⟨.refl state, rfl, rfl⟩

theorem KeepsJobs.trans {state later latest : EngineState} (h : KeepsJobs state later)
    (h' : KeepsJobs later latest) : KeepsJobs state latest :=
  ⟨h.toGrows.trans h'.toGrows, h'.jobs.trans h.jobs, h'.incidents.trans h.incidents⟩

theorem keepsJobs_startInstance (state : EngineState) (definition : ProcessDefinition)
    (elementId : Option String) : KeepsJobs state (startInstance state definition elementId).2 :=
  ⟨⟨rfl, Nat.le_succ _⟩, rfl, rfl⟩

theorem keepsJobs_fireStart (state : EngineState) (timer : Timer) :
    KeepsJobs state (fireStart state timer).1 := by
  unfold fireStart
  by_cases hstart : timer.isStartEvent
  · rw [if_pos hstart]
    cases timer.definitionKey.bind state.processes.definition? with
    | none => exact .refl state
    | some definition => exact keepsJobs_startInstance state definition _
  · rw [if_neg hstart]
    exact .refl state

theorem keepsJobs_scheduleSuccessor (state : EngineState) (timer : Timer) (position : Nat) :
    KeepsJobs state (scheduleSuccessor state timer position).1 := by
  unfold scheduleSuccessor
  by_cases hrepeats : timer.repeats
  · rw [if_pos hrepeats]
    dsimp only
    cases timer.successor? state.nextKey.1 position with
    | none => exact ⟨⟨rfl, Nat.le_succ _⟩, rfl, rfl⟩
    | some next => exact ⟨⟨rfl, Nat.le_succ _⟩, rfl, rfl⟩
  · rw [if_neg hrepeats]
    exact .refl state

theorem keepsJobs_scheduleStarts (definitionKey position : Nat) (starts : List ResolvedStart) :
    ∀ state, KeepsJobs state (scheduleStarts definitionKey position state starts).1 := by
  induction starts with
  | nil => intro state; exact .refl state
  | cons start rest ih =>
      intro state
      have hfirst : KeepsJobs state { state.nextKey.2 with
          timers := state.timers.schedule
            (startTimer state.nextKey.1 definitionKey position start) } :=
        ⟨⟨rfl, Nat.le_succ _⟩, rfl, rfl⟩
      exact hfirst.trans (ih _)

/-- The state when a process was deployed and the timers of earlier versions are gone. -/
def cleared (state : EngineState) (request : DeploymentPayload) : EngineState :=
  let version := match state.processes.latest? request.processId with
    | some latest => latest.version + 1
    | none => 1
  (cancelTimers (state.timers.startTimersOf (state.processes.versionsOf request.processId))
    { state.nextKey.2 with
      processes := state.processes.deploy
        ⟨state.nextKey.1, request.processId, version, request.timerStarts⟩ }).1

/-- The state that a deployment leaves behind. -/
theorem deployResolved_final {state final : EngineState} {position : Nat}
    {request : DeploymentPayload} {starts : List ResolvedStart} {answer : Event}
    {others : List Event}
    (h : deployResolved state position request starts = .accept final answer others) :
    final = (scheduleStarts state.nextKey.1 position (state.cleared request) starts).1 := by
  cases h
  rfl

theorem keepsJobs_cleared (state : EngineState) (request : DeploymentPayload) :
    KeepsJobs state (state.cleared request) := ⟨⟨rfl, Nat.le_succ _⟩, rfl, rfl⟩

theorem keepsJobs_deployed {state final : EngineState} {position : Nat}
    {request : DeploymentPayload} {starts : List ResolvedStart} {answer : Event}
    {others : List Event}
    (h : deployResolved state position request starts = .accept final answer others) :
    KeepsJobs state final := by
  rw [deployResolved_final h]
  exact (keepsJobs_cleared state request).trans (keepsJobs_scheduleStarts _ _ starts _)

theorem keepsJobs_fired (state : EngineState) (key : Nat) (timer : Timer) (position : Nat) :
    KeepsJobs state (scheduleSuccessor
      (fireStart { state with timers := state.timers.erase key } timer).1 timer position).1 := by
  have herased : KeepsJobs state { state with timers := state.timers.erase key } :=
    ⟨⟨rfl, Nat.le_refl _⟩, rfl, rfl⟩
  exact (herased.trans (keepsJobs_fireStart _ timer)).trans
    (keepsJobs_scheduleSuccessor _ timer position)

/-! ### The counter only grows -/

/-- Opening an incident changes the incidents and the counter. -/
theorem openIncident_with (state : EngineState) (job : Job) :
    ∃ keyCounter incidents, state.keyCounter ≤ keyCounter ∧
      (openIncident state job).1 = { state with keyCounter, incidents } := by
  unfold openIncident
  by_cases hfailed : job.state = .failed
  · rw [if_pos hfailed]
    exact ⟨_, _, Nat.le_succ _, rfl⟩
  · rw [if_neg hfailed]
    exact ⟨_, _, Nat.le_refl _, rfl⟩

/-- Resolving an incident changes the incidents. -/
theorem resolveIncident_with (state : EngineState) (jobKey : Nat) :
    ∃ incidents, (resolveIncident state jobKey).1 = { state with incidents } := by
  unfold resolveIncident
  dsimp only
  cases (state.incidents.forJob jobKey).bind fun incident =>
      state.incidents.resolve incident.key with
  | none => exact ⟨_, rfl⟩
  | some result => exact ⟨_, rfl⟩

theorem grows_openIncident (state : EngineState) (job : Job) :
    Grows state (openIncident state job).1 := by
  obtain ⟨keyCounter, incidents, hle, heq⟩ := openIncident_with state job
  rw [heq]
  exact ⟨rfl, hle⟩

theorem grows_resolveIncident (state : EngineState) (jobKey : Nat) :
    Grows state (resolveIncident state jobKey).1 := by
  obtain ⟨incidents, heq⟩ := resolveIncident_with state jobKey
  rw [heq]
  exact ⟨rfl, Nat.le_refl _⟩

end EngineState

open EngineState in
/-- Whatever is accepted, keys that were handed out stay so. -/
theorem Accepted.grows {evaluator : Evaluator} {state final : EngineState} {command : Record}
    {answer : Event} {others : List Event}
    (h : Accepted evaluator state command final answer others) : Grows state final := by
  cases h with
  | deployed request starts hintent hvalue hid hunique hstarts hdeploy =>
      exact (keepsJobs_deployed hdeploy).toGrows
  | instanceCreated => exact (keepsJobs_startInstance _ _ _).toGrows
  | timerCreated => exact ⟨rfl, Nat.le_succ _⟩
  | timerUnresolved => exact ⟨rfl, Nat.le_succ _⟩
  | timerFired => exact (keepsJobs_fired _ _ _ _).toGrows
  | timerCanceled => exact ⟨rfl, Nat.le_refl _⟩
  | jobCreated => exact ⟨rfl, Nat.le_succ _⟩
  | jobsActivated => exact ⟨rfl, Nat.le_succ _⟩
  | jobCompleted => exact ⟨rfl, Nat.le_refl _⟩
  | jobFailed key request job jobs =>
      exact (Grows.withJobs state jobs).trans (grows_openIncident { state with jobs } job)
  | jobTimedOut => exact ⟨rfl, Nat.le_refl _⟩
  | retriesUpdated key request revived job jobs =>
      exact (Grows.withJobs state jobs).trans (grows_resolveIncident { state with jobs } key)
  | jobCanceled key job jobs =>
      exact (Grows.withJobs state jobs).trans (grows_resolveIncident { state with jobs } key)

end Workflow
