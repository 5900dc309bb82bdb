/-
The record that is kept of an operation.

A stored operation is replaced as a whole, by versions made of copies that were fetched earlier.
One version leads to the next in four ways (`Operation.Next`), and versions that follow one another
like this make a course from the scheduled operation to its end (`destutter_mem_courses`).

In a run the versions at all moments do follow one another like this (`Traced.steps`): the executor
takes turns only with operations that are as they are stored, it writes down nothing about a sent
operation but its end, and a flight always has a job.
-/
import Mathlib.Data.List.Destutter
import Mathlib.Data.List.Flatten
import Workflow.Proofs.Broker.Reached
import Workflow.Proofs.Broker.Service
import Workflow.Proofs.Partition.Forward

namespace Workflow

namespace Operation

/-! ### Versions of an operation -/

/-- What a stored operation may be followed by. -/
inductive Next (operation : Operation) : Operation → Prop
  /-- Nothing is written down. -/
  | same : Next operation operation
  /-- It was sent. -/
  | sent {jobKeys : List Nat} (hstate : operation.state = .scheduled) (hsome : jobKeys ≠ []) :
      Next operation (operation.sent jobKeys)
  /-- It has failed. -/
  | failed {message : String} {now : Instant}
      (hstate : operation.state = .scheduled ∨ operation.state = .sent)
      (hlater : operation.startDate ≤ now) : Next operation (operation.failed message now)
  /-- It is completed. -/
  | completed {now : Instant} (hstate : operation.state = .sent)
      (hlater : operation.startDate ≤ now) : Next operation (operation.completed now)

/-- A record without contradictions: an end and its date come together and after the start, a
failure and its message do, and commands were sent for the jobs that it names. -/
structure WellFormed (operation : Operation) : Prop where
  ended : operation.endDate.isSome ↔ operation.state.isTerminal
  ordered : ∀ time, operation.endDate = some time → operation.startDate ≤ time
  explained : operation.errorMessage.isSome ↔ operation.state = .failed
  unsent : operation.state = .scheduled → operation.jobKeys = []
  sent : operation.state = .sent ∨ operation.state = .completed → operation.jobKeys ≠ []

/-- Two versions of one operation. -/
structure SameSubject (operation later : Operation) : Prop where
  id : later.id = operation.id
  type : later.type = operation.type
  targetKey : later.targetKey = operation.targetKey
  batchId : later.batchId = operation.batchId
  startDate : later.startDate = operation.startDate

/-- What holds between a version and all later ones: the subject stays, and an end is the end. -/
structure Settles (operation later : Operation) : Prop where
  subject : operation.SameSubject later
  final : operation.state.isTerminal → later = operation

variable {operation next later : Operation} {now : Instant}

theorem SameSubject.trans (h : operation.SameSubject next) (h' : next.SameSubject later) :
    operation.SameSubject later :=
  ⟨h'.id.trans h.id, h'.type.trans h.type, h'.targetKey.trans h.targetKey,
    h'.batchId.trans h.batchId, h'.startDate.trans h.startDate⟩

instance : Trans Settles Settles Settles where
  trans {operation next later} h h' := ⟨h.subject.trans h'.subject, fun hend => by
    have hsame := h.final hend
    subst hsame
    exact h'.final hend⟩

theorem ScheduledAt.wellFormed (h : operation.ScheduledAt now) : operation.WellFormed := by
  obtain ⟨hstate, hkeys, hmessage, -, hend⟩ := h
  refine ⟨?_, fun time htime => ?_, ?_, fun _ => hkeys, fun hsent => ?_⟩
  · simp [hstate, hend, OperationState.isTerminal]
  · rw [hend] at htime
    cases htime
  · simp [hstate, hmessage]
  · rw [hstate] at hsent
    rcases hsent with h | h <;> cases h

theorem Next.settles (h : operation.Next next) : operation.Settles next := by
  cases h with
  | same => exact ⟨⟨rfl, rfl, rfl, rfl, rfl⟩, fun _ => rfl⟩
  | sent hstate hsome =>
      exact ⟨⟨rfl, rfl, rfl, rfl, rfl⟩, fun hend => by rw [hstate] at hend; cases hend⟩
  | failed hstate hlater =>
      refine ⟨⟨rfl, rfl, rfl, rfl, rfl⟩, fun hend => ?_⟩
      rcases hstate with hstate | hstate <;> rw [hstate] at hend <;> cases hend
  | completed hstate hlater =>
      exact ⟨⟨rfl, rfl, rfl, rfl, rfl⟩, fun hend => by rw [hstate] at hend; cases hend⟩

/-- **Every step leads from a well-formed record to one.** -/
theorem Next.wellFormed (h : operation.Next next) (hformed : operation.WellFormed) :
    next.WellFormed := by
  obtain ⟨hended, hordered, hexplained, hunsent, hsent⟩ := hformed
  cases h with
  | same => exact ⟨hended, hordered, hexplained, hunsent, hsent⟩
  | sent hstate hsome =>
      rw [hstate] at hended hexplained
      exact ⟨hended, hordered, by simpa [Operation.sent] using hexplained, nofun, fun _ => hsome⟩
  | failed hstate hlater =>
      refine ⟨by simp [Operation.failed, OperationState.isTerminal], fun time htime => ?_,
        by simp [Operation.failed], nofun, fun h => by rcases h with h | h <;> cases h⟩
      cases htime
      exact hlater
  | completed hstate hlater =>
      rw [hstate] at hexplained
      refine ⟨by simp [Operation.completed, OperationState.isTerminal], fun time htime => ?_,
        by simpa [Operation.completed] using hexplained, nofun, fun _ => hsent (.inl hstate)⟩
      cases htime
      exact hlater

/-- The jobs of an operation are named when it is sent, and stay. -/
theorem Next.jobKeys_ne_nil (h : operation.Next next) (hformed : operation.WellFormed) :
    next.jobKeys ≠ [] ↔ operation.jobKeys ≠ [] ∨ next.state = .sent := by
  cases h with
  | same => exact ⟨.inl, fun h => h.elim (fun hkeys => hkeys) fun hstate =>
      hformed.sent (.inl hstate)⟩
  | sent hstate hsome => exact ⟨fun _ => .inr rfl, fun _ => hsome⟩
  | failed hstate hlater => exact ⟨.inl, fun h => h.resolve_right nofun⟩
  | completed hstate hlater => exact ⟨.inl, fun h => h.resolve_right nofun⟩

/-! ### The course of an operation -/

/-- The states an operation goes through from a state on, without repetitions. -/
def courses : OperationState → List (List OperationState)
  | .scheduled => [[.scheduled], [.scheduled, .sent], [.scheduled, .sent, .completed],
      [.scheduled, .sent, .failed], [.scheduled, .failed]]
  | .sent => [[.sent], [.sent, .completed], [.sent, .failed]]
  | state => [[state]]

/-- **The states of versions that follow one another make a course.** -/
theorem destutter_mem_courses (versions : List Operation) :
    ∀ operation : Operation, (operation :: versions).IsChain Next →
      (versions.map state).destutter' (· ≠ ·) operation.state ∈ courses operation.state := by
  induction versions with
  | nil =>
      intro operation _
      cases hstate : operation.state <;> simp [courses]
  | cons next rest ih =>
      intro operation hchain
      obtain ⟨hnext, hrest⟩ := List.isChain_cons_cons.mp hchain
      have hlater := ih next hrest
      rw [List.map_cons, List.destutter'_cons]
      by_cases hsame : operation.state = next.state
      · rw [if_neg (by simpa using hsame), hsame]
        exact hlater
      · rw [if_pos hsame]
        cases hnext with
        | same => exact absurd rfl hsame
        | sent hstate hsome =>
            rw [hstate]
            simp only [Operation.sent, courses, List.mem_cons, List.not_mem_nil, or_false]
              at hlater ⊢
            rcases hlater with h | h | h <;> rw [h] <;> simp
        | failed hstate hlater' =>
            simp only [Operation.failed, courses, List.mem_cons, List.not_mem_nil, or_false]
              at hlater
            rcases hstate with hstate | hstate <;> rw [hstate] <;>
              simp [Operation.failed, courses, hlater]
        | completed hstate hlater' =>
            rw [hstate]
            simp only [Operation.completed, courses, List.mem_cons, List.not_mem_nil, or_false]
              at hlater
            simp [Operation.completed, courses, hlater]

/-- Every version is well formed, and names jobs if it was sent before. -/
theorem wellFormed_of_isChain (before : List Operation) :
    ∀ first operation : Operation, (first :: (before ++ [operation])).IsChain Next →
      first.WellFormed → operation.WellFormed ∧
        (operation.jobKeys ≠ [] ↔ first.jobKeys ≠ [] ∨
          ∃ version ∈ before ++ [operation], version.state = .sent) := by
  induction before with
  | nil =>
      intro first operation hchain hformed
      have hnext := (List.isChain_cons_cons.mp hchain).1
      refine ⟨hnext.wellFormed hformed, ?_⟩
      rw [hnext.jobKeys_ne_nil hformed]
      simp
  | cons second rest ih =>
      intro first operation hchain hformed
      obtain ⟨hnext, hrest⟩ := List.isChain_cons_cons.mp hchain
      obtain ⟨hlast, hkeys⟩ := ih second operation hrest (hnext.wellFormed hformed)
      refine ⟨hlast, ?_⟩
      rw [hkeys, hnext.jobKeys_ne_nil hformed]
      simp [or_assoc]

end Operation

namespace Service

open Operation (Next courses)

variable {r r' : Service} {id : Uuid} {arrivals : List Arrival} {later : List Instant}

/-! ### The clock -/

/-- A step ends no earlier than it begins if the times ascend, and the later ones still do. -/
theorem Step.now_le (h : Step Partition.Changes r arrivals r')
    (htimes : (r.broker.now :: (arrivals.flatMap Arrival.times ++ later)).Pairwise (· ≤ ·)) :
    r.broker.now ≤ r'.broker.now ∧ (r'.broker.now :: later).Pairwise (· ≤ ·) := by
  have hsame : r'.broker.now = r.broker.now → arrivals = [] →
      r.broker.now ≤ r'.broker.now ∧ (r'.broker.now :: later).Pairwise (· ≤ ·) := by
    rintro hnow rfl
    rw [hnow]
    exact ⟨Instant.le_refl _, htimes⟩
  have hclock : r'.broker.partition.host.clock = r.broker.partition.host.clock →
      r'.broker.now = r.broker.now := congrArg Clock.now
  cases h with
  | noted => exact hsame rfl rfl
  | rounds h => exact hsame h.now rfl
  | sent streamId request =>
      refine hsame (hclock ?_) rfl
      show (r.broker.send streamId request).2.partition.host.clock = _
      rcases r.broker.send_cases streamId request with
        ⟨e, p, gateways, heq, -, hsent, -⟩ | ⟨pending, record, p, gateways, heq, -, hsent, -⟩
      · rw [heq]
        exact hsent
      · rw [heq]
        exact hsent
  | took h => exact hsame rfl rfl
  | @arrived arrival h =>
      rw [List.flatMap_singleton] at htimes
      exact arrival.now_le htimes
  | connected store h => exact hsame rfl rfl
  | scheduled request =>
      exact hsame (congrArg Partition.now (r.broker.partition_schedule request)) rfl
  | polled id =>
      refine hsame (hclock ?_) rfl
      dsimp only
      rcases r.broker.poll_cases id with ⟨-, heq⟩ | ⟨flight, -, heq⟩
      · rw [heq]
      · rw [heq]
        rfl
  | @turn task hready => exact hsame (hclock (r.broker.perform_does task).partition.2) rfl

/-! ### The trail of an operation -/

/-- The versions of an operation that were stored from moment to moment, the earliest first. -/
def trail (r : Service) (id : Uuid) : List Operation :=
  (r.past ++ [r.broker]).filterMap fun b => b.stored? id

theorem trail_eq (r : Service) (id : Uuid) :
    r.trail id = (r.past.filterMap fun b => b.stored? id) ++ (r.broker.stored? id).toList := by
  unfold trail
  rw [List.filterMap_append, List.filterMap_cons, List.filterMap_nil]
  cases r.broker.stored? id <;> rfl

/-- The versions of an operation follow one another. -/
structure Traced (r : Service) (id : Uuid) : Prop where
  last : (r.trail id).getLast? = r.broker.stored? id
  chain : (r.trail id).IsChain Next
  first : ∀ operation ∈ (r.trail id).head?, ∃ now, operation.ScheduledAt now
  started : ∀ operation, r.broker.stored? id = some operation → operation.startDate ≤ r.broker.now
  boarded : ∀ flight, r.broker.flight? id = some flight → flight.jobKeys ≠ []

namespace Traced

/-- The operation is left alone. -/
theorem kept (h : r.Traced id) (hpast : r'.past = r.past)
    (hstored : r'.broker.stored? id = r.broker.stored? id) (hnow : r.broker.now ≤ r'.broker.now)
    (hflight : ∀ flight, r'.broker.flight? id = some flight → flight.jobKeys ≠ []) :
    r'.Traced id := by
  have htrail : r'.trail id = r.trail id := by rw [trail_eq, trail_eq, hpast, hstored]
  obtain ⟨hlast, hchain, hfirst, hstarted, -⟩ := h
  refine ⟨?_, ?_, ?_, fun operation ho => ?_, hflight⟩
  · rw [htrail, hstored]
    exact hlast
  · rw [htrail]
    exact hchain
  · rw [htrail]
    exact hfirst
  · exact Instant.le_trans (hstarted operation (hstored ▸ ho)) hnow

/-- A moment is kept, and then the next version is stored, if any. -/
theorem next (h : r.Traced id) (hpast : r'.past = r.past ++ [r.broker])
    (hnow : r.broker.now ≤ r'.broker.now)
    (hnext : r'.broker.stored? id = r.broker.stored? id ∨ ∃ operation version,
      r.broker.stored? id = some operation ∧ r'.broker.stored? id = some version ∧
        operation.Next version)
    (hflight : ∀ flight, r'.broker.flight? id = some flight → flight.jobKeys ≠ []) :
    r'.Traced id := by
  obtain ⟨hlast, hchain, hfirst, hstarted, -⟩ := h
  have htrail : r'.trail id = r.trail id ++ (r'.broker.stored? id).toList := by
    rw [trail_eq, hpast]
    rfl
  cases hstored : r.broker.stored? id with
  | none =>
      -- What is not stored has never been.
      have hnone : r'.broker.stored? id = none := by
        rcases hnext with hsame | ⟨operation, version, hsome, -⟩
        · exact hsame.trans hstored
        · cases hstored.symm.trans hsome
      rw [hnone, Option.toList_none, List.append_nil] at htrail
      refine ⟨?_, htrail ▸ hchain, htrail ▸ hfirst, fun operation ho => ?_, hflight⟩
      · rw [htrail, hnone, ← hstored]
        exact hlast
      · cases hnone.symm.trans ho
  | some operation =>
      have hversion : ∃ version, r'.broker.stored? id = some version ∧ operation.Next version := by
        rcases hnext with hsame | ⟨other, version, hsome, hversion, hstep⟩
        · exact ⟨operation, hsame.trans hstored, .same⟩
        · cases hstored.symm.trans hsome
          exact ⟨version, hversion, hstep⟩
      obtain ⟨version, hversion, hstep⟩ := hversion
      rw [hversion, Option.toList_some] at htrail
      have hsome : r.trail id ≠ [] := by
        rintro hnil
        rw [hnil, hstored] at hlast
        cases hlast
      refine ⟨?_, ?_, ?_, fun other ho => ?_, hflight⟩
      · rw [htrail, hversion, List.getLast?_concat]
      · rw [htrail, List.isChain_append]
        refine ⟨hchain, .singleton _, fun before hb after ha => ?_⟩
        rw [hlast, hstored] at hb
        cases hb
        cases ha
        exact hstep
      · rw [htrail, List.head?_append_of_ne_nil _ hsome]
        exact hfirst
      · cases hversion.symm.trans ho
        rw [hstep.settles.subject.startDate]
        exact Instant.le_trans (hstarted operation hstored) hnow

/-- An operation is scheduled. -/
theorem scheduled (h : r.Traced id) (request : BatchRequest) :
    Traced { r with broker := (r.broker.schedule request).2 } id := by
  have hflight : ∀ flight, (r.broker.schedule request).2.flight? id = some flight →
      flight.jobKeys ≠ [] := by
    rw [Broker.flight?_congr (r.broker.executor_schedule request)]
    exact h.boarded
  have hnow : (r.broker.schedule request).2.now = r.broker.now :=
    congrArg Partition.now (r.broker.partition_schedule request)
  rcases r.broker.stored?_schedule request id with hsame | ⟨hnone, operation, hnew, hscheduled⟩
  · exact h.kept rfl hsame (by rw [hnow]; exact Instant.le_refl _) hflight
  · -- What is not stored has never been, so this is the first version.
    have hbefore : r.past.filterMap (fun b => b.stored? id) = [] := by
      have hlast := h.last
      rw [trail_eq, hnone, Option.toList_none, List.append_nil] at hlast
      exact List.getLast?_eq_none_iff.mp hlast
    have htrail : Service.trail { r with broker := (r.broker.schedule request).2 } id =
        [operation] := by
      rw [trail_eq, hbefore, hnew]
      rfl
    refine ⟨?_, ?_, fun other ho => ?_, fun other ho => ?_, hflight⟩
    · rw [htrail, hnew]
      rfl
    · rw [htrail]
      exact .singleton _
    · rw [htrail] at ho
      cases ho
      exact ⟨_, hscheduled⟩
    · cases hnew.symm.trans ho
      rw [hscheduled.startDate, hnow]
      exact Instant.le_refl _

/-- **The executor takes a turn.** -/
theorem turn (h : r.Traced id) {task : OperationTask} (hready : r.broker.Ready task) :
    Traced { r.noted with
      broker := (r.broker.perform task).2, turns := r.turns ++ [⟨r.broker, task⟩] } id := by
  have hdoes := r.broker.perform_does task
  generalize (r.broker.perform task).2 = c at hdoes
  have hnow : r.broker.now ≤ c.now := by
    rw [show c.now = r.broker.now from congrArg Clock.now hdoes.partition.2]
    exact Instant.le_refl _
  by_cases hid : id = task.operation.id
  · subst hid
    have hstarted := h.started
    have hboarded := h.boarded
    -- The store has the version that the task was made from, so what it takes follows that one.
    have hwritten : ∀ {operation version : Operation},
        r.broker.stored? task.operation.id = some operation → operation.Next version →
        Broker.Writes r.broker c version →
          c.stored? task.operation.id = r.broker.stored? task.operation.id ∨
          ∃ operation version, r.broker.stored? task.operation.id = some operation ∧
            c.stored? task.operation.id = some version ∧ operation.Next version :=
      fun hstored hstep hwrites => (hwrites.stored? _).imp_right fun hnew =>
        ⟨_, _, hstored, hnew.2, hstep⟩
    cases hdoes with
    | @noted operation flight hflight hkept hwrites =>
        refine h.next rfl hnow
          (hwritten hready.1 (.sent hready.2 (hboarded flight hflight)) hwrites)
          fun other ho => hboarded other ?_
        rw [← ho, hkept]
        rfl
    | @refused operation hflight hnothing hkept hwrites =>
        refine h.next rfl hnow (hwritten hready.1
          (.failed (.inl hready.2) (hstarted _ hready.1)) hwrites) fun other ho => hboarded other ?_
        rw [← ho, hkept]
        rfl
    | @stuck operation hflight hsome hsend =>
        obtain ⟨failure, hsends⟩ := hsend.imp fun _ => Broker.Sends.of_eq
        refine h.next rfl hnow (.inl (Broker.stored?_congr (by rw [hsends.kept]) _))
          fun other ho => hboarded other ?_
        rw [← ho, hsends.kept]
        rfl
    | @departed operation d sent hflight hsome hsend hkept hwrites =>
        have hkeys : (Broker.launch sent).jobKeys ≠ [] := by simpa [Broker.launch] using hsome
        refine h.next rfl hnow (hwritten hready.1 (.sent hready.2 hkeys) hwrites)
          fun other ho => ?_
        have hboards : c.flight? operation.id = some (Broker.launch sent) := by
          rw [hkept]
          exact (Executor.flight?_board _ _ _ _).trans (if_pos rfl)
        cases hboards.symm.trans ho
        exact hkeys
    | @unsettled operation settlement hkept hstore =>
        refine h.next rfl hnow (.inl (Broker.stored?_congr hstore _))
          fun other ho => hboarded other ?_
        rw [← ho, hkept]
        rfl
    | @settled operation settlement hkept hupdate =>
        have hstep : operation.Next (Broker.ended operation settlement r.broker.now) := by
          cases settlement with
          | completed => exact .completed hready.2.1 (hstarted _ hready.1)
          | failed message => exact .failed (.inr hready.2.1) (hstarted _ hready.1)
        refine h.next rfl hnow (hwritten hready.1 hstep (.inr hupdate)) fun other ho => ?_
        have hlands : c.flight? operation.id = none := by
          rw [hkept]
          exact (Executor.flight?_land _ _ _).trans (if_pos rfl)
        cases hlands.symm.trans ho
  · obtain ⟨hstored, hflight⟩ := hdoes.others hid
    exact h.next rfl hnow (.inl hstored) fun flight hf => h.boarded flight (hflight ▸ hf)

/-- **One step.** -/
theorem step (h : r.Traced id) (hstep : Step Partition.Changes r arrivals r')
    (hnow : r.broker.now ≤ r'.broker.now) : r'.Traced id := by
  cases hstep with
  | noted => exact h.next rfl hnow (.inl rfl) h.boarded
  | rounds hrounds => exact h.kept rfl rfl hnow h.boarded
  | sent streamId request =>
      exact h.kept rfl (Broker.stored?_congr (congrArg _ (r.broker.store_send _ _)) id) hnow
        fun flight hf =>
          h.boarded flight ((Broker.flight?_congr (r.broker.executor_send _ _) id).symm.trans hf)
  | took hheld => exact h.kept rfl rfl hnow h.boarded
  | arrived harrival => exact h.kept rfl rfl hnow h.boarded
  | connected store hstore => exact h.kept rfl (Broker.stored?_congr hstore id) hnow h.boarded
  | scheduled request => exact h.scheduled request
  | polled other =>
      refine h.kept rfl ?_ hnow fun flight hf => ?_
      · exact Broker.stored?_congr (congrArg _ (r.broker.store_poll other)) id
      · rcases r.broker.flight?_poll other id with ⟨-, hnone⟩ | ⟨old, polled, hold, hpolled, hkeys⟩
        · cases hnone.symm.trans hf
        · cases hpolled.symm.trans hf
          rw [hkeys]
          exact h.boarded old hold
  | turn hready => exact h.turn hready

theorem steps (h : r.Traced id) (hsteps : Steps Partition.Changes r arrivals r') :
    (r.broker.now :: arrivals.flatMap Arrival.times).Pairwise (· ≤ ·) → r'.Traced id := by
  induction hsteps with
  | refl => exact fun _ => h
  | head hstep _ ih =>
      intro htimes
      rw [List.flatMap_append] at htimes
      obtain ⟨hnow, hlater⟩ := hstep.now_le htimes
      exact ih (h.step hstep hnow) hlater

end Traced

/-- At the start nothing is stored. -/
theorem traced_of_open {site : Site} {settings : BrokerSettings} {b : Broker}
    (hempty : site.store.store.entries = []) (hopen : Broker.open site settings = .ok b)
    (id : Uuid) : Traced { broker := b } id := by
  have hnone := stored?_of_open hempty hopen id
  have htrail : Service.trail { broker := b } id = [] := by
    rw [trail_eq, hnone]
    rfl
  refine ⟨?_, ?_, fun operation ho => ?_, fun operation ho => ?_, fun flight hf => ?_⟩
  · rw [htrail, hnone]
    rfl
  · rw [htrail]
    exact .nil
  · rw [htrail] at ho
    cases ho
  · cases hnone.symm.trans ho
  · cases (flight?_of_open hopen id).symm.trans hf

/-! ### The main result -/

/-- What the trail of an operation says about it. -/
theorem Traced.wellFormed (h : r.Traced id) :
    (∃ course ∈ [[.scheduled, .sent, .completed], [.scheduled, .sent, .failed],
        [.scheduled, .failed]],
      ((r.trail id).map Operation.state).destutter (· ≠ ·) <+: course) ∧
    ∀ before operation after, r.trail id = before ++ operation :: after →
      operation.WellFormed ∧
      (operation.jobKeys ≠ [] ↔ ∃ version ∈ before ++ [operation], version.state = .sent) ∧
      ∀ version ∈ after, operation.Settles version := by
  obtain ⟨-, hchain, hfirst, -, -⟩ := h
  cases htrail : r.trail id with
  | nil =>
      refine ⟨⟨_, List.mem_cons_self, List.nil_prefix⟩, fun before operation after heq => ?_⟩
      simp at heq
  | cons first rest =>
      rw [htrail] at hchain hfirst
      obtain ⟨now, hscheduled⟩ := hfirst first rfl
      refine ⟨?_, fun before operation after heq => ?_⟩
      · have hcourse := Operation.destutter_mem_courses rest first hchain
        rw [List.map_cons, List.destutter_cons']
        rw [hscheduled.state] at hcourse ⊢
        simp only [courses, List.mem_cons, List.not_mem_nil, or_false] at hcourse
        rcases hcourse with h | h | h | h | h <;> rw [h] <;> decide
      · have hsettles : (first :: rest).Pairwise Operation.Settles :=
          (hchain.imp fun _ _ hnext => hnext.settles).pairwise
        rw [heq] at hchain hsettles
        have hlater := (List.pairwise_cons.mp (List.pairwise_append.mp hsettles).2.1).1
        rw [← and_assoc]
        refine ⟨?_, hlater⟩
        cases before with
        | nil =>
            cases heq
            refine ⟨hscheduled.wellFormed, ?_⟩
            simp [hscheduled.jobKeys, hscheduled.state]
        | cons _ before =>
            cases heq
            rw [List.cons_append, List.append_cons, ← List.cons_append] at hchain
            obtain ⟨hformed, hkeys⟩ := Operation.wellFormed_of_isChain before first operation
              (List.isChain_append.mp hchain).1 hscheduled.wellFormed
            refine ⟨hformed, hkeys.trans ?_⟩
            simp [hscheduled.jobKeys, hscheduled.state]

/-- **The record of an operation stays well formed**, in every run, whatever is refused in it, if
the clock is never set back.  Whatever version was ever stored is on the trail of its identifier,
and the last one there is stored still.  The states on a trail go from scheduled to sent to an end,
or from scheduled to failed.  Each version has an end date just when it is at an end, and then one
that is not before its start; a message just when it has failed; and jobs just when it was sent.
Later versions are about the same subject, and nothing follows an end. -/
theorem records_wellFormed {site : Site} {settings : BrokerSettings} {b : Broker}
    (hempty : site.store.store.entries = []) (hopen : Broker.open site settings = .ok b)
    (actions : List ServiceAction)
    (hclock : (b.now :: (actions.flatMap ServiceAction.arrivals).flatMap Arrival.times).Pairwise
      (· ≤ ·)) :
    let r := Service.runAll { broker := b } actions
    (∀ moment ∈ r.past ++ [r.broker], ∀ operation ∈ moment.store.store.entries,
      operation ∈ r.trail operation.id) ∧
    ∀ id, (r.trail id).getLast? = r.broker.stored? id ∧
      (∃ course ∈ [[.scheduled, .sent, .completed], [.scheduled, .sent, .failed],
          [.scheduled, .failed]],
        ((r.trail id).map Operation.state).destutter (· ≠ ·) <+: course) ∧
      ∀ before operation after, r.trail id = before ++ operation :: after →
        operation.WellFormed ∧
        (operation.jobKeys ≠ [] ↔ ∃ version ∈ before ++ [operation], version.state = .sent) ∧
        ∀ version ∈ after, operation.Settles version := by
  intro r
  obtain ⟨arrivals, hsublist, hsteps⟩ := runAll_steps actions { broker := b }
  have htimes : (b.now :: arrivals.flatMap Arrival.times).Pairwise (· ≤ ·) :=
    hclock.sublist ((List.Sublist.flatMap hsublist _).cons_cons _)
  refine ⟨fun moment hm operation ho => ?_, fun id => ?_⟩
  · exact List.mem_filterMap.mpr ⟨moment, hm, OperationStore.get?_of_mem ho⟩
  · have htraced := (traced_of_open hempty hopen id).steps hsteps htimes
    exact ⟨htraced.last, htraced.wellFormed⟩

/-- An operation is sent, and completed an hour later. -/
def attended : List ServiceAction :=
  BrokerRun.exhaustingRequests.map .submit ++
    [.processUntilIdle 3, .event (.schedule ⟨[{}], .updateRetries⟩), .event .execute,
      .processUntilIdle 3, .event (.arrive (.setClock ⟨Instant.epoch.add ⟨3600000000000⟩⟩) rfl),
      .event .execute]

theorem records_wellFormed_attended :
    let r := Service.runAll { broker := BrokerRun.fresh } attended
    ∃ operation ∈ r.broker.store.store.entries, operation.state = .completed ∧
      ((r.trail operation.id).map Operation.state).destutter (· ≠ ·) =
        [.scheduled, .sent, .completed] ∧ operation.WellFormed := by
  intro r
  have hrun : ∃ operation ∈ r.broker.store.store.entries, operation.state = .completed ∧
      ((r.trail operation.id).map Operation.state).destutter (· ≠ ·) =
        [.scheduled, .sent, .completed] := by decide +kernel
  obtain ⟨operation, ho, hcompleted, hstates⟩ := hrun
  obtain ⟨hall, hrecords⟩ :=
    records_wellFormed rfl BrokerRun.open_fresh attended (by decide +kernel)
  obtain ⟨before, after, htrail⟩ := List.append_of_mem
    (hall r.broker (List.mem_append_right _ List.mem_cons_self) operation ho)
  exact ⟨operation, ho, hcompleted, hstates,
    ((hrecords operation.id).2.2 before operation after htrail).1⟩

end Service

end Workflow
