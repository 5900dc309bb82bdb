/-
The life of a job.

What is told of a job is a part of the history of the engine: its own events, and the batches of
activated jobs that it is in.  `JobRun` says which sequences of such reports are a beginning of a
life.  A lease begins with an activation, and only a job that is ready can be activated; it ends
with completion, failure, reclaim or cancel, and each of these leaves the job in a phase in which
no second end is possible.

A phase carries what the next report is held against: the retries, and the deadline of the lease.
-/
import Workflow.Proofs.Engine.History

namespace Workflow

/-! ### What is told of a job -/

/-- What is told of a job. -/
inductive JobNews where
  /-- An event of the job. -/
  | event (intent : JobIntent)
  /-- The job is in a batch of jobs that were activated. -/
  | activated
deriving DecidableEq

/-- Whether a lease ends and the record says so; a cancel may end one too. -/
def JobNews.endsLease : JobNews → Bool
  | .event .completed => true
  | .event .failed => true
  | .event .timedOut => true
  | _ => false

/-- A report about a job. -/
structure JobReport where
  /-- What is told. -/
  news : JobNews
  /-- The job as the record shows it. -/
  job : Option JobPayload
  /-- The time of the command that the record follows from. -/
  time : Instant

/-- What an entry of a history reports about a job. -/
def jobReport? (key : Nat) (entry : Record × Draft) : Option JobReport :=
  if entry.2.kind = .event then
    match entry.2.intent with
    | .job intent =>
        if entry.2.key = some key then
          some ⟨.event intent, entry.2.value.job?, entry.1.timestamp⟩
        else none
    | .jobBatch .activated =>
        (entry.2.value.jobBatch?.filter fun batch => batch.jobKeys.contains key).map fun batch =>
          ⟨.activated, (batch.jobKeys.zip batch.jobs).lookup key, entry.1.timestamp⟩
    | _ => none
  else none

/-- What a history reports about a job, in order. -/
def jobReports (key : Nat) (history : List (Record × Draft)) : List JobReport :=
  history.filterMap (jobReport? key)

/-! ### The life of a job -/

/-- Where a job is in its life. -/
inductive JobPhase where
  /-- It does not exist yet. -/
  | unborn
  /-- It was created and will be offered at once. -/
  | created (retries : Nat)
  /-- It can be activated. -/
  | ready (retries : Nat)
  /-- A worker holds it until a deadline. -/
  | leased (retries : Nat) (deadline : Instant)
  /-- It is out of retries. -/
  | dead
  /-- It got new retries and will be offered at once. -/
  | revived (retries : Nat)
  /-- It is gone. -/
  | ended

/-- Whether the job can be canceled. -/
def JobPhase.isLive : JobPhase → Bool
  | .ready _ => true
  | .leased _ _ => true
  | .dead => true
  | _ => false

/-- What may be told next of a job, and the phase after it. -/
inductive JobStep : JobPhase → JobReport → JobPhase → Prop
  | created {job : JobPayload} {time : Instant} :
      JobStep .unborn ⟨.event .created, some job, time⟩ (.created job.retries)
  | activatable {retries : Nat} {job : JobPayload} {time : Instant}
      (hretries : job.retries = retries) :
      JobStep (.created retries) ⟨.event .activatable, some job, time⟩ (.ready retries)
  | activated {retries : Nat} {deadline : Instant} {job : JobPayload} {time : Instant}
      (hretries : job.retries = retries) (hdeadline : job.deadline = some deadline) :
      JobStep (.ready retries) ⟨.activated, some job, time⟩ (.leased retries deadline)
  | completed {retries : Nat} {deadline : Instant} {job : JobPayload} {time : Instant} :
      JobStep (.leased retries deadline) ⟨.event .completed, some job, time⟩ .ended
  /-- The lease is over, and the job keeps its retries. -/
  | timedOut {retries : Nat} {deadline : Instant} {job : JobPayload} {time : Instant}
      (hretries : job.retries = retries) (hlate : deadline < time) :
      JobStep (.leased retries deadline) ⟨.event .timedOut, some job, time⟩ (.ready retries)
  /-- A retry is used up, and others are left. -/
  | failed {retries : Nat} {deadline : Instant} {job : JobPayload} {time : Instant}
      (hretries : job.retries + 1 = retries) (hleft : 0 < job.retries) :
      JobStep (.leased retries deadline) ⟨.event .failed, some job, time⟩ (.ready job.retries)
  /-- The last retry is used up. -/
  | exhausted {retries : Nat} {deadline : Instant} {job : JobPayload} {time : Instant}
      (hretries : job.retries + 1 = retries) (hnone : job.retries = 0) :
      JobStep (.leased retries deadline) ⟨.event .failed, some job, time⟩ .dead
  | updatedReady {retries : Nat} {job : JobPayload} {time : Instant} :
      JobStep (.ready retries) ⟨.event .retriesUpdated, some job, time⟩ (.ready job.retries)
  | updatedLeased {retries : Nat} {deadline : Instant} {job : JobPayload} {time : Instant} :
      JobStep (.leased retries deadline) ⟨.event .retriesUpdated, some job, time⟩
        (.leased job.retries deadline)
  | revived {job : JobPayload} {time : Instant} :
      JobStep .dead ⟨.event .retriesUpdated, some job, time⟩ (.revived job.retries)
  | offered {retries : Nat} {job : JobPayload} {time : Instant} (hretries : job.retries = retries) :
      JobStep (.revived retries) ⟨.event .activatable, some job, time⟩ (.ready retries)
  | canceled {phase : JobPhase} {job : JobPayload} {time : Instant} (hlive : phase.isLive = true) :
      JobStep phase ⟨.event .canceled, some job, time⟩ .ended

/-- What may be told of a job one after the other. -/
inductive JobRun : JobPhase → List JobReport → JobPhase → Prop
  | nil (phase : JobPhase) : JobRun phase [] phase
  | cons {phase next final : JobPhase} {report : JobReport} {reports : List JobReport}
      (hfirst : JobStep phase report next) (hrest : JobRun next reports final) :
      JobRun phase (report :: reports) final

namespace JobRun

variable {phase final : JobPhase} {reports : List JobReport}

theorem single {report : JobReport} (h : JobStep phase report final) :
    JobRun phase [report] final := .cons h (.nil final)

theorem append {next : JobPhase} {others : List JobReport} (h : JobRun phase reports next)
    (h' : JobRun next others final) : JobRun phase (reports ++ others) final := by
  induction h with
  | nil => exact h'
  | cons hfirst _ ih => exact .cons hfirst (ih h')

theorem split {others : List JobReport} (h : JobRun phase (reports ++ others) final) :
    ∃ next, JobRun phase reports next ∧ JobRun next others final := by
  induction reports generalizing phase with
  | nil => exact ⟨phase, .nil phase, h⟩
  | cons report rest ih =>
      cases h with
      | cons hfirst hrest =>
          obtain ⟨next, hrun, hothers⟩ := ih hrest
          exact ⟨next, .cons hfirst hrun, hothers⟩

/-- Splitting a run at one report gives the phase before it and the one after it. -/
theorem split_at {report : JobReport} {others : List JobReport}
    (h : JobRun phase (reports ++ report :: others) final) :
    ∃ before after, JobRun phase reports before ∧ JobStep before report after ∧
      JobRun after others final := by
  obtain ⟨before, hbefore, hothers⟩ := h.split
  cases hothers with
  | cons hstep hafter => exact ⟨before, _, hbefore, hstep, hafter⟩

/-- Every beginning of a life can be carried on to an end. -/
theorem exists_end (phase : JobPhase) : ∃ rest, JobRun phase rest .ended := by
  have hlive : ∀ phase : JobPhase, phase.isLive = true → ∃ rest, JobRun phase rest .ended :=
    fun phase hlive => ⟨[⟨.event .canceled, some default, default⟩], .single (.canceled hlive)⟩
  have hoffered : ∀ retries : Nat, ∃ rest, JobRun (.created retries) rest .ended ∧
      JobRun (.revived retries) rest .ended := by
    intro retries
    obtain ⟨rest, hrest⟩ := hlive (.ready retries) rfl
    have hjob : ({ (default : JobPayload) with retries } : JobPayload).retries = retries := rfl
    exact ⟨⟨.event .activatable, some { (default : JobPayload) with retries }, default⟩ :: rest,
      .cons (.activatable hjob) hrest, .cons (.offered hjob) hrest⟩
  cases phase with
  | unborn =>
      obtain ⟨rest, hrest, -⟩ := hoffered (default : JobPayload).retries
      exact ⟨⟨.event .created, some default, default⟩ :: rest, .cons .created hrest⟩
  | created retries =>
      obtain ⟨rest, hrest, -⟩ := hoffered retries
      exact ⟨rest, hrest⟩
  | ready retries => exact hlive _ rfl
  | leased retries deadline => exact hlive _ rfl
  | dead => exact hlive _ rfl
  | revived retries =>
      obtain ⟨rest, -, hrest⟩ := hoffered retries
      exact ⟨rest, hrest⟩
  | ended => exact ⟨[], .nil _⟩

/-- A job that is leased was activated, with this deadline, and has had nothing but new retries
since, unless it was leased all along. -/
theorem activation {retries : Nat} {deadline : Instant}
    (h : JobRun phase reports (.leased retries deadline)) :
    (∃ before, phase = .leased before deadline ∧
        ∀ report ∈ reports, report.news = .event .retriesUpdated) ∨
      ∃ earlier activation updates, reports = earlier ++ activation :: updates ∧
        activation.news = .activated ∧
        activation.job.bind JobPayload.deadline = some deadline ∧
        ∀ report ∈ updates, report.news = .event .retriesUpdated := by
  generalize hleased : JobPhase.leased retries deadline = final at h
  induction h with
  | nil phase => exact .inl ⟨retries, hleased.symm, fun report hr => absurd hr List.not_mem_nil⟩
  | @cons phase next final report reports hfirst _ ih =>
      rcases ih hleased with
        ⟨before, hnext, hupdates⟩ | ⟨earlier, activation, updates, hsplit, hnews⟩
      · rw [hnext] at hfirst
        cases hfirst with
        | activated hretries hdeadline =>
            exact .inr ⟨[], _, reports, rfl, rfl, hdeadline, hupdates⟩
        | updatedLeased =>
            refine .inl ⟨_, rfl, fun other ho => ?_⟩
            rcases List.mem_cons.mp ho with heq | hin
            · rw [heq]
            · exact hupdates other hin
      · exact .inr ⟨report :: earlier, activation, updates, by rw [hsplit]; rfl, hnews⟩

/-- While no end of a lease is told, a job that is leased stays so, or it is canceled. -/
theorem stays_leased {retries : Nat} {deadline : Instant}
    (h : JobRun (.leased retries deadline) reports final)
    (hnone : ∀ report ∈ reports, report.news.endsLease = false) :
    (∃ left, final = .leased left deadline) ∨ final = .ended := by
  generalize hleased : JobPhase.leased retries deadline = phase at h
  induction h generalizing retries with
  | nil phase => exact .inl ⟨retries, hleased.symm⟩
  | cons hfirst hrest ih =>
      have hfirst_none := hnone _ List.mem_cons_self
      have hrest_none := fun report hr => hnone report (List.mem_cons_of_mem _ hr)
      subst hleased
      cases hfirst with
      | completed => cases hfirst_none
      | timedOut => cases hfirst_none
      | failed => cases hfirst_none
      | exhausted => cases hfirst_none
      | updatedLeased => exact ih hrest_none rfl
      | canceled =>
          cases hrest with
          | nil => exact .inr rfl
          | cons hnext => cases hnext with | canceled hlive => cases hlive

/-- Nothing follows the end of a job. -/
theorem of_ended (h : JobRun .ended reports final) : reports = [] := by
  cases h with
  | nil => rfl
  | cons hfirst => cases hfirst with | canceled hlive => cases hlive

end JobRun

end Workflow
