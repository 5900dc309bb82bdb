/-
The versions of a process.

`versions` lists the definitions of a process id in key order.  Keys are handed out in ascending
order, so that is the order of deployment, and a new definition comes at the end.  The catalog knows
the last one by its key, and the next version is counted from it; `Versioned` says that both are
right, and that every instance is of a definition that was deployed.

A command that is accepted does one of three things to the catalog (`Registers`), and none of them
takes a definition out, so the versions of a process only get more (`Accepted.versions_grow`).
-/
import Mathlib.Data.List.Range
import Workflow.Proofs.Timer.Origin

namespace Workflow

open Decide EngineState

namespace SortedMap

variable {α : Type}

theorem mem_values_iff (m : SortedMap Nat α) (v : α) : v ∈ m.values ↔ ∃ k, m.get? k = some v := by
  unfold values
  rw [List.mem_map]
  constructor
  · rintro ⟨⟨k, found⟩, hmem, rfl⟩
    exact ⟨k, (mem_toList_iff m k found).mp hmem⟩
  · rintro ⟨k, hget⟩
    exact ⟨(k, v), (mem_toList_iff m k v).mpr hget, rfl⟩

/-- An entry whose key is above all others comes last. -/
theorem values_insert_of_lt (m : SortedMap Nat α) {k : Nat} (v : α)
    (h : ∀ other w, m.get? other = some w → other < k) :
    (m.insert k v).values = m.values ++ [v] := by
  have hplace : ∀ l : List (Nat × α), (∀ e ∈ l, e.1 < k) → place k v l = l ++ [(k, v)] := by
    intro l
    induction l with
    | nil => intro _; rfl
    | cons e rest ih =>
        intro hall
        have hlt : e.1 < k := hall e List.mem_cons_self
        rw [place, if_neg (Nat.lt_asymm hlt), if_neg (Nat.ne_of_lt hlt),
          ih fun e' he => hall e' (List.mem_cons_of_mem _ he), List.cons_append]
  show (place k v m.entries).map Prod.snd = _
  rw [hplace m.entries fun e he => h e.1 e.2 ((mem_toList_iff m _ _).mp he), List.map_append]
  rfl

end SortedMap

namespace EngineState

/-- Keys ascend with the counter. -/
theorem keyAt_lt_keyAt {partitionId first second : Nat} (hsecond : second < 2 ^ keyCounterBits)
    (h : first < second) : keyAt partitionId first < keyAt partitionId second := by
  have hdvd : 2 ^ keyCounterBits ∣ (partitionId <<< keyCounterBits) % wordCount 64 := by
    refine (Nat.dvd_mod_iff ⟨2 ^ 13, by decide⟩).mpr ?_
    rw [Nat.shiftLeft_eq]
    exact Nat.dvd_mul_left _ _
  obtain ⟨high, hhigh⟩ := hdvd
  have hkey : ∀ counter, counter < 2 ^ keyCounterBits →
      keyAt partitionId counter = high <<< keyCounterBits + counter := by
    intro counter hcounter
    rw [Nat.shiftLeft_add_eq_or_of_lt hcounter, Nat.shiftLeft_eq, Nat.mul_comm high, ← hhigh]
    rfl
  rw [hkey first (Nat.lt_trans h hsecond), hkey second hsecond]
  exact Nat.add_lt_add_left h _

/-- The next key is above all that were handed out. -/
theorem Issued.lt_nextKey {state : EngineState} {key : Nat} (h : state.Issued key)
    (hcapacity : state.keyCounter + 1 < 2 ^ keyCounterBits) : key < state.nextKey.1 := by
  obtain ⟨counter, -, hle, rfl⟩ := h
  exact keyAt_lt_keyAt hcapacity (Nat.lt_succ_of_le hle)

end EngineState

/-! ### The definitions of a process id -/

namespace ProcessCatalog

/-- The definitions of a process id, in key order. -/
def versions (catalog : ProcessCatalog) (processId : String) : List ProcessDefinition :=
  catalog.definitions.values.filter fun definition => definition.processId == processId

theorem versionsOf_eq (catalog : ProcessCatalog) (processId : String) :
    catalog.versionsOf processId = (catalog.versions processId).map ProcessDefinition.key := rfl

variable {catalog : ProcessCatalog} {definition : ProcessDefinition} {processId : String}

theorem processId_of_mem_versions (h : definition ∈ catalog.versions processId) :
    definition.processId = processId := by
  simpa using (List.mem_filter.mp h).2

theorem exists_of_mem_versions (h : definition ∈ catalog.versions processId) :
    ∃ key, catalog.definition? key = some definition :=
  (SortedMap.mem_values_iff _ _).mp (List.mem_filter.mp h).1

theorem mem_versions {key : Nat} (h : catalog.definition? key = some definition) :
    definition ∈ catalog.versions definition.processId :=
  List.mem_filter.mpr ⟨(SortedMap.mem_values_iff _ _).mpr ⟨key, h⟩, by simp⟩

/-- A definition with a key above all others is the last version of its process. -/
theorem versions_deploy (catalog : ProcessCatalog) (definition : ProcessDefinition)
    (h : ∀ key other, catalog.definition? key = some other → key < definition.key)
    (processId : String) :
    (catalog.deploy definition).versions processId =
      catalog.versions processId ++
        if definition.processId = processId then [definition] else [] := by
  unfold versions deploy
  rw [SortedMap.values_insert_of_lt _ _ h, List.filter_append]
  congr 1
  by_cases hid : definition.processId = processId <;> simp [hid]

theorem definition?_deploy (catalog : ProcessCatalog) (definition : ProcessDefinition)
    (key : Nat) : (catalog.deploy definition).definition? key =
      if key = definition.key then some definition else catalog.definition? key :=
  SortedMap.get?_insert _ _ _ _

end ProcessCatalog

/-! ### What commands do to the catalog -/

namespace EngineState

/-- The definition that a deployment adds. -/
def release (state : EngineState) (request : DeploymentPayload) : ProcessDefinition :=
  { key := state.nextKey.1
    processId := request.processId
    version := match state.processes.latest? request.processId with
      | some latest => latest.version + 1
      | none => 1
    timerStarts := request.timerStarts }

theorem processes_cleared (state : EngineState) (request : DeploymentPayload) :
    (state.cleared request).processes = state.processes.deploy (state.release request) := rfl

theorem processes_deployed {state final : EngineState} {position : Nat}
    {request : DeploymentPayload} {starts : List ResolvedStart} {answer : Event}
    {others : List Event}
    (h : deployResolved state position request starts = .accept final answer others) :
    final.processes = state.processes.deploy (state.release request) := by
  rw [deployResolved_final h, processes_scheduleStarts, processes_cleared]

end EngineState

/-- What an accepted command does to the catalog. -/
inductive Registers (state : EngineState) (command : Record) (final : EngineState) : Prop
  /-- Nothing. -/
  | kept (hsame : final.processes = state.processes)
  /-- It adds a version of a process. -/
  | deployed (request : DeploymentPayload) (hintent : command.intent = .deployment .create)
      (hcounter : state.keyCounter < final.keyCounter)
      (hadded : final.processes = state.processes.deploy (state.release request))
  /-- It adds an instance of a definition. -/
  | started (key : Nat) (definition : ProcessDefinition) (elementId : Option String)
      (hdefinition : state.processes.definition? key = some definition)
      (hadded : final.processes =
        state.processes.addInstance (definition.instantiate state.nextKey.1 elementId))

/-- Firing a start-event timer adds an instance of its definition. -/
theorem fireStart_registers (state : EngineState) (command : Record) (timer : Timer) :
    Registers state command (fireStart state timer).1 := by
  unfold fireStart
  by_cases hstart : timer.isStartEvent
  · rw [if_pos hstart]
    cases hdefinition : timer.definitionKey.bind state.processes.definition? with
    | none => exact .kept rfl
    | some definition =>
        obtain ⟨key, -, hget⟩ := Option.bind_eq_some_iff.mp hdefinition
        exact .started key definition (some timer.targetElementId) hget rfl
  · rw [if_neg hstart]
    exact .kept rfl

section Accepted

variable {evaluator : Evaluator} {state final : EngineState} {command : Record} {answer : Event}
  {others : List Event}

theorem Accepted.registers (h : Accepted evaluator state command final answer others) :
    Registers state command final := by
  cases h with
  | deployed request starts hintent hvalue hid hunique hstarts hdeploy =>
      have hcounter : (state.cleared request).keyCounter ≤ final.keyCounter := by
        rw [deployResolved_final hdeploy]
        exact (keepsJobs_scheduleStarts _ _ starts _).keyCounter
      exact .deployed request hintent hcounter (processes_deployed hdeploy)
  | instanceCreated request definition hintent hvalue hlatest =>
      obtain ⟨key, -, hget⟩ := Option.bind_eq_some_iff.mp hlatest
      exact .started key definition none hget rfl
  | timerFired key timer hintent =>
      have hprocesses := processes_scheduleSuccessor
        (fireStart { state with timers := state.timers.erase key } timer).1 timer command.position
      -- The timer that fires is off the agenda by then, which the catalog does not see.
      cases fireStart_registers { state with timers := state.timers.erase key } command timer with
      | kept hsame => exact .kept (hprocesses.trans hsame)
      | deployed request hdeployment => cases hintent.symm.trans hdeployment
      | started under definition elementId hdefinition hadded =>
          exact .started under definition elementId hdefinition (hprocesses.trans hadded)
  | jobFailed subject request job jobs =>
      obtain ⟨counter, incidents, -, heq⟩ := openIncident_with { state with jobs } job
      exact .kept (by rw [heq])
  | retriesUpdated subject request revived job jobs =>
      obtain ⟨incidents, heq⟩ := resolveIncident_with { state with jobs } subject
      exact .kept (by rw [heq])
  | jobCanceled subject job jobs =>
      obtain ⟨incidents, heq⟩ := resolveIncident_with { state with jobs } subject
      exact .kept (by rw [heq])
  | _ => exact .kept rfl

end Accepted

/-! ### The catalog counts right -/

/-- Definitions lie under their own keys, the versions of a process are counted from 1, the catalog
knows the last of them, and instances are of definitions. -/
structure Versioned (state : EngineState) : Prop where
  /-- A definition lies under its own key, which was handed out. -/
  own : ∀ key definition, state.processes.definition? key = some definition →
    definition.key = key ∧ state.Issued key
  /-- The versions are counted from 1. -/
  numbered : ∀ processId, (state.processes.versions processId).map ProcessDefinition.version =
    List.range' 1 (state.processes.versions processId).length
  /-- The catalog knows the last version. -/
  newest : ∀ processId, state.processes.latestById.get? processId =
    (state.processes.versions processId).getLast?.map ProcessDefinition.key
  /-- An instance carries the key, the process id and the version of a definition. -/
  carried : ∀ key created, state.processes.instance? key = some created → created.key = key ∧
    ∃ definition, state.processes.definition? created.definitionKey = some definition ∧
      definition.processId = created.processId ∧ definition.version = created.version

namespace Versioned

variable {state final : EngineState}

theorem initial (partitionId : Nat) : Versioned (.initial partitionId) where
  own := fun key definition h => by cases h
  numbered := fun processId => rfl
  newest := fun processId => rfl
  carried := fun key created h => by cases h

theorem definition?_of_mem (h : Versioned state) {definition : ProcessDefinition}
    {processId : String} (hmem : definition ∈ state.processes.versions processId) :
    state.processes.definition? definition.key = some definition := by
  obtain ⟨key, hget⟩ := ProcessCatalog.exists_of_mem_versions hmem
  rw [(h.own key definition hget).1]
  exact hget

/-- The latest version is the last one. -/
theorem latest?_eq (h : Versioned state) (processId : String) :
    state.processes.latest? processId = (state.processes.versions processId).getLast? := by
  unfold ProcessCatalog.latest?
  rw [h.newest processId]
  cases hlast : (state.processes.versions processId).getLast? with
  | none => rfl
  | some definition => exact h.definition?_of_mem (List.mem_of_getLast? hlast)

theorem latest?_processId (h : Versioned state) {processId : String}
    {definition : ProcessDefinition}
    (hlatest : state.processes.latest? processId = some definition) :
    definition.processId = processId := by
  rw [h.latest?_eq processId] at hlatest
  exact ProcessCatalog.processId_of_mem_versions (List.mem_of_getLast? hlatest)

/-- A deployment counts on from the versions that there are. -/
theorem version_release (h : Versioned state) (request : DeploymentPayload) :
    (state.release request).version =
      (state.processes.versions request.processId).length + 1 := by
  have hlast : ((state.processes.latest? request.processId).map ProcessDefinition.version) =
      if (state.processes.versions request.processId).length = 0 then none
      else some (state.processes.versions request.processId).length := by
    rw [h.latest?_eq, ← List.getLast?_map, h.numbered, List.getLast?_range']
    simp
  unfold EngineState.release
  cases hlatest : state.processes.latest? request.processId with
  | none =>
      rw [hlatest, Option.map_none] at hlast
      split at hlast
      · rename_i hzero
        rw [hzero]
      · cases hlast
  | some latest =>
      rw [hlatest, Option.map_some] at hlast
      split at hlast
      · cases hlast
      · exact congrArg (· + 1) (Option.some.inj hlast)

/-- The keys of the versions ascend. -/
theorem keys_ascend (h : Versioned state) (processId : String) :
    (state.processes.versions processId).Pairwise fun a b => a.key < b.key := by
  refine List.Pairwise.filter _ (List.pairwise_map.mpr ?_)
  refine state.processes.definitions.ascending.imp_of_mem ?_
  intro first second hfirst hsecond hlt
  have hown : ∀ entry ∈ state.processes.definitions.entries, entry.2.key = entry.1 :=
    fun entry he => (h.own entry.1 entry.2 ((SortedMap.mem_toList_iff _ _ _).mp he)).1
  rw [hown first hfirst, hown second hsecond]
  exact hlt

/-- Definitions keep their keys when the counter goes on. -/
theorem lt_release (h : Versioned state) (hcapacity : state.keyCounter + 1 < 2 ^ keyCounterBits)
    (request : DeploymentPayload) (key : Nat) (definition : ProcessDefinition)
    (hget : state.processes.definition? key = some definition) :
    key < (state.release request).key :=
  (h.own key definition hget).2.lt_nextKey hcapacity

theorem versions_release (h : Versioned state)
    (hcapacity : state.keyCounter + 1 < 2 ^ keyCounterBits) (request : DeploymentPayload)
    (processId : String) :
    (state.processes.deploy (state.release request)).versions processId =
      state.processes.versions processId ++
        if request.processId = processId then [state.release request] else [] :=
  ProcessCatalog.versions_deploy _ _ (h.lt_release hcapacity request) processId

theorem definition?_release (h : Versioned state)
    (hcapacity : state.keyCounter + 1 < 2 ^ keyCounterBits) (request : DeploymentPayload)
    {key : Nat} {definition : ProcessDefinition}
    (hget : state.processes.definition? key = some definition) :
    (state.processes.deploy (state.release request)).definition? key = some definition := by
  rw [ProcessCatalog.definition?_deploy,
    if_neg (Nat.ne_of_lt (h.lt_release hcapacity request key definition hget))]
  exact hget

/-- What is deployed is the latest version of its process. -/
theorem latest?_release (h : Versioned state)
    (hcapacity : state.keyCounter + 1 < 2 ^ keyCounterBits) (request : DeploymentPayload)
    (processId : String) :
    (state.processes.deploy (state.release request)).latest? processId =
      if request.processId = processId then some (state.release request)
      else state.processes.latest? processId := by
  have hget : (state.processes.deploy (state.release request)).latestById.get? processId =
      if processId = request.processId then some (state.release request).key
      else state.processes.latestById.get? processId := SortedMap.get?_insert _ _ _ _
  unfold ProcessCatalog.latest?
  rw [hget]
  by_cases hid : request.processId = processId
  · rw [if_pos hid.symm, if_pos hid, Option.bind_some, ProcessCatalog.definition?_deploy,
      if_pos rfl]
  · rw [if_neg (Ne.symm hid), if_neg hid, h.newest processId]
    cases hlast : (state.processes.versions processId).getLast? with
    | none => rfl
    | some last =>
        have hfound := h.definition?_of_mem (List.mem_of_getLast? hlast)
        exact (h.definition?_release hcapacity request hfound).trans hfound.symm

/-- A deployment is counted right. -/
theorem deployed (h : Versioned state) {request : DeploymentPayload} (hgrows : Grows state final)
    (hcounter : state.keyCounter < final.keyCounter)
    (hcapacity : final.keyCounter < 2 ^ keyCounterBits)
    (hadded : final.processes = state.processes.deploy (state.release request)) :
    Versioned final := by
  have hroom : state.keyCounter + 1 < 2 ^ keyCounterBits := Nat.lt_of_le_of_lt hcounter hcapacity
  have hversions := h.versions_release hroom request
  rw [← hadded] at hversions
  refine ⟨?own, ?numbered, ?newest, ?carried⟩
  case own =>
    intro key definition hget
    rw [hadded, ProcessCatalog.definition?_deploy] at hget
    by_cases hnew : key = (state.release request).key
    · rw [if_pos hnew] at hget
      cases hget
      refine ⟨hnew.symm, state.keyCounter + 1, Nat.succ_pos _, hcounter, ?_⟩
      rw [hgrows.partitionId]
      exact hnew
    · rw [if_neg hnew] at hget
      exact ⟨(h.own key definition hget).1, hgrows.issued (h.own key definition hget).2⟩
  case numbered =>
    intro processId
    rw [hversions processId]
    by_cases hid : request.processId = processId
    · rw [if_pos hid, List.map_append, List.length_append, h.numbered processId]
      simp only [List.map_cons, List.map_nil, List.length_cons, List.length_nil, Nat.zero_add]
      rw [List.range'_1_concat, h.version_release request, hid, Nat.add_comm]
    · rw [if_neg hid, List.append_nil]
      exact h.numbered processId
  case newest =>
    intro processId
    have hget : final.processes.latestById.get? processId =
        if processId = request.processId then some (state.release request).key
        else state.processes.latestById.get? processId := by
      rw [hadded]
      exact SortedMap.get?_insert _ _ _ _
    rw [hversions processId, hget]
    by_cases hid : request.processId = processId
    · rw [if_pos hid.symm, if_pos hid, List.getLast?_concat]
      rfl
    · rw [if_neg (Ne.symm hid), if_neg hid, List.append_nil]
      exact h.newest processId
  case carried =>
    intro key created hget
    have hbefore : state.processes.instance? key = some created := by
      rw [hadded] at hget
      exact hget
    obtain ⟨hkey, definition, hdefinition, hsame⟩ := h.carried key created hbefore
    refine ⟨hkey, definition, ?_, hsame⟩
    rw [hadded]
    exact h.definition?_release hroom request hdefinition

/-- An instance of a definition carries what the definition says. -/
theorem started (h : Versioned state) (hgrows : Grows state final) {under : Nat}
    {definition : ProcessDefinition} {elementId : Option String}
    (hdefinition : state.processes.definition? under = some definition)
    (hadded : final.processes =
      state.processes.addInstance (definition.instantiate state.nextKey.1 elementId)) :
    Versioned final := by
  refine ⟨?own, ?numbered, ?newest, ?carried⟩
  case own =>
    intro key other hget
    rw [hadded] at hget
    exact ⟨(h.own key other hget).1, hgrows.issued (h.own key other hget).2⟩
  case numbered =>
    rw [hadded]
    exact h.numbered
  case newest =>
    rw [hadded]
    exact h.newest
  case carried =>
    intro key created hget
    have hinsert : (if key = state.nextKey.1 then
        some (definition.instantiate state.nextKey.1 elementId)
          else state.processes.instance? key) = some created := by
      rw [hadded] at hget
      exact (SortedMap.get?_insert _ _ _ _).symm.trans hget
    rw [hadded]
    by_cases hnew : key = state.nextKey.1
    · rw [if_pos hnew] at hinsert
      cases hinsert
      refine ⟨hnew.symm, definition, ?_, rfl, rfl⟩
      show state.processes.definition? definition.key = some definition
      rw [(h.own under definition hdefinition).1]
      exact hdefinition
    · rw [if_neg hnew] at hinsert
      exact h.carried key created hinsert

theorem accepted {evaluator : Evaluator} {command : Record} {answer : Event} {others : List Event}
    (h : Versioned state) (haccepted : Accepted evaluator state command final answer others)
    (hcapacity : final.keyCounter < 2 ^ keyCounterBits) : Versioned final := by
  have hgrows : Grows state final := haccepted.grows
  cases haccepted.registers with
  | kept hsame =>
      refine ⟨fun key definition hget => ?_, ?_, ?_, ?_⟩
      · rw [hsame] at hget
        exact ⟨(h.own key definition hget).1, hgrows.issued (h.own key definition hget).2⟩
      · rw [hsame]
        exact h.numbered
      · rw [hsame]
        exact h.newest
      · rw [hsame]
        exact h.carried
  | deployed request hintent hcounter hadded => exact h.deployed hgrows hcounter hcapacity hadded
  | started under definition elementId hdefinition hadded =>
      exact h.started hgrows hdefinition hadded

end Versioned

/-- Only a deployment changes which version is the latest. -/
theorem Registers.latest?_eq {state final : EngineState} {command : Record}
    (h : Registers state command final) (hintent : command.intent ≠ .deployment .create)
    (processId : String) :
    final.processes.latest? processId = state.processes.latest? processId := by
  cases h with
  | kept hsame => rw [hsame]
  | deployed request hdeployment => exact absurd hdeployment hintent
  | started under definition elementId hdefinition hadded =>
      rw [hadded]
      rfl

section Accepted

variable {evaluator : Evaluator} {state final : EngineState} {command : Record} {answer : Event}
  {others : List Event}

/-- **What is accepted adds versions at the end, and takes none away.** -/
theorem Accepted.versions_grow (h : Accepted evaluator state command final answer others)
    (hversioned : Versioned state) (hcapacity : final.keyCounter < 2 ^ keyCounterBits)
    (processId : String) :
    state.processes.versions processId <+: final.processes.versions processId := by
  cases h.registers with
  | kept hsame => exact hsame ▸ List.prefix_rfl
  | deployed request hintent hcounter hadded =>
      have hroom : state.keyCounter + 1 < 2 ^ keyCounterBits :=
        Nat.lt_of_le_of_lt hcounter hcapacity
      rw [hadded, hversioned.versions_release hroom request processId]
      exact List.prefix_append _ _
  | started under definition elementId hdefinition hadded =>
      rw [hadded]
      exact List.prefix_refl _

end Accepted

end Workflow
