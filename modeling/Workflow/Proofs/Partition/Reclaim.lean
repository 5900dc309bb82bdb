/-
Remembered leases are reclaimed.

The checker remembers the leases that it appended time-out commands for, and forgets one when it
finds that no job is under it.  A lease is a job and a deadline.  Were the job leased again until
the very same instant, the checker would take that for the lease it remembers, append nothing, and
the job would never be free again.

`Remembers` says why this does not happen while the clock is not set back.  A remembered lease is
over.  Its command is still to come; or no job is under it, and every command that is left is later
than its end.  A lease that such a command grants ends later, too, except at the end of the
calendar, where deadlines cannot grow (`Instant.lt_add_of_lt`).
-/
import Workflow.Proofs.Job.Booking
import Workflow.Proofs.Partition.Forward
import Workflow.Proofs.Timer.Turn

namespace Workflow

namespace Partition

variable {evaluator : Evaluator} {p q : Partition}

/-- A time-out command for the lease is in the log and is not applied. -/
def Reclaims (p : Partition) (lease : Lease) : Prop :=
  ∃ command ∈ p.unapplied, ∃ now job, lease.deadline < now ∧
    command.toDraft = timeOutCommand now lease job

/-- The leases that are remembered are over, and will not be granted again. -/
structure Remembers (p : Partition) : Prop where
  /-- They are over. -/
  past : ∀ lease ∈ p.pendingTimeouts, lease.deadline < p.now
  /-- They are reclaimed, or no job is under them and what is left is later than they are. -/
  awaits : ∀ lease ∈ p.pendingTimeouts, lease.deadline < Instant.latest → p.Reclaims lease ∨
    lease ∉ p.state.jobs.leases ∧ ∀ command ∈ p.unapplied, lease.deadline < command.timestamp

/-- Where nothing is remembered there is nothing to reclaim. -/
theorem Remembers.of_nothing (hnothing : p.pendingTimeouts = []) : p.Remembers := by
  refine ⟨fun lease hl => ?_, fun lease hl => ?_⟩
  · rw [hnothing] at hl
    exact absurd hl List.not_mem_nil
  · rw [hnothing] at hl
    exact absurd hl List.not_mem_nil

/-- In a state that is not ahead of the log, the leases are those that jobs are under. -/
theorem Sourced.booked (h : Sourced evaluator p) (hcurrent : p.cursor.needsRecovery = false) :
    p.state.jobs.Booked := by
  unfold state
  rw [h.current hcurrent]
  exact Processor.booked_after _ _ _

/-- What arrives is later than the leases that are over, and a lease is remembered only together
with its time-out command. -/
theorem Remembers.arrived (hremembers : p.Remembers) (h : Sourced evaluator p)
    (hcurrent : p.cursor.needsRecovery = false) {drafts : List Draft} (hstate : q.state = p.state)
    (hcursor : q.cursor = p.cursor)
    (hlog : q.records = p.records ++ Log.numbered (p.host.link.log.size + 1) drafts)
    (hstamped : ∀ draft ∈ drafts, draft.timestamp = p.now)
    (hlet : ∀ lease ∈ q.pendingTimeouts, lease ∈ p.pendingTimeouts ∨
      lease ∈ p.unreclaimed ∧ ∀ job, p.state.jobs.get? lease.key = some job →
        timeOutCommand p.now lease job ∈ drafts)
    (hnow : p.now ≤ q.now) : q.Remembers := by
  have hleft := unapplied_extend h.cursor_le hcursor hlog
  refine ⟨fun lease hl => ?_, fun lease hl hsmall => ?_⟩
  · refine Instant.lt_of_lt_of_le ?_ hnow
    rcases hlet lease hl with hold | ⟨hnew, -⟩
    · exact hremembers.past lease hold
    · exact (JobLedger.mem_expiredLeases_iff.mp (List.mem_of_mem_filter hnew)).2
  · rcases hlet lease hl with hold | ⟨hnew, hdrafts⟩
    · rcases hremembers.awaits lease hold hsmall with
        ⟨command, hc, hreclaims⟩ | ⟨hfree, hlate⟩
      · refine .inl ⟨command, ?_, hreclaims⟩
        rw [hleft]
        exact List.mem_append_left _ hc
      · refine .inr ⟨by rw [hstate]; exact hfree, fun command hc => ?_⟩
        rw [hleft] at hc
        rcases List.mem_append.mp hc with hearlier | hcomes
        · exact hlate command hearlier
        · have hdraft := Log.toDraft_mem_of_mem_numbered (List.mem_of_mem_filter hcomes)
          rw [hstamped _ hdraft]
          exact hremembers.past lease hold
    · obtain ⟨hheld, hover⟩ := JobLedger.mem_expiredLeases_iff.mp (List.mem_of_mem_filter hnew)
      obtain ⟨job, hjob, -⟩ := ((h.booked hcurrent).lease lease).mp hheld
      obtain ⟨command, hc, hcommand⟩ :=
        h.exists_unapplied hcursor hlog (hdrafts job hjob) rfl
      exact .inl ⟨command, hc, p.now, job, hover, hcommand⟩

/-- A lease that awaited the command that is applied is not held any more, and one that nobody was
under is not granted. -/
theorem Remembers.advanced (hremembers : p.Remembers) (h : Sourced evaluator p) (htimed : p.Timed)
    (hcurrent : p.cursor.needsRecovery = false) {command : Record} {rest : List Record}
    {link : LogLink} (hnext : p.unapplied = command :: rest)
    (hlog : link.log.records = p.records ++ Log.numbered (p.host.link.log.size + 1)
      (p.processor.apply command).1.followUps) : (p.advanced link command).Remembers := by
  obtain ⟨-, hleft⟩ := h.applied_advanced hnext hlog
  have hbooked := h.booked hcurrent
  refine ⟨fun lease hl => ?_, fun lease hl hsmall => ?_⟩
  · rw [advanced_pendingTimeouts] at hl
    rw [advanced_now]
    exact hremembers.past lease hl
  · rw [advanced_pendingTimeouts] at hl
    rw [advanced_state, hleft]
    rcases hremembers.awaits lease hl hsmall with
      ⟨found, hfound, now, job, hover, hdraft⟩ | ⟨hfree, hlate⟩
    · rw [hnext] at hfound
      rcases List.mem_cons.mp hfound with heq | hin
      · rw [heq] at hdraft
        refine .inr ⟨Processor.not_held_of_timeOut h.builtin hbooked hdraft hover,
          fun other ho => ?_⟩
        have htime : command.timestamp = now := congrArg Draft.timestamp hdraft
        exact Instant.lt_of_lt_of_le (by rw [htime]; exact hover)
          (htimed.le_of_next h hnext other ho)
      · exact .inl ⟨found, by rw [hleft]; exact hin, now, job, hover, hdraft⟩
    · rw [hnext] at hlate
      refine .inr ⟨fun hheld => ?_, fun other ho => hlate other (List.mem_cons_of_mem _ ho)⟩
      rcases (Processor.booked_apply h.builtin hbooked command).2 lease hheld with
        hold | ⟨timeout, hgranted⟩
      · exact hfree hold
      · have hlater := Instant.lt_add_of_lt hsmall (hlate command List.mem_cons_self) timeout
        rw [← hgranted] at hlater
        exact StrictOrder.irrefl _ hlater

/-- **A move that does not set the clock back keeps what is remembered in order.** -/
theorem Remembers.move (h : Sourced evaluator p) (hid : p.config.partitionId ≤ maxPartitionId)
    (htimed : p.Timed) (hremembers : p.cursor.needsRecovery = false → p.Remembers)
    (hmove : Move evaluator p q) (hnow : p.now ≤ q.now)
    (hcurrent : q.cursor.needsRecovery = false) : q.Remembers := by
  cases hmove.effect h hid with
  | arrived drafts hconfig hprocessor hcursor hreads hcalm hlog harrives hwatch hlet =>
      rw [hcursor] at hcurrent
      have hstate : q.state = p.state := by
        unfold state
        rw [hprocessor]
      exact (hremembers hcurrent).arrived h hcurrent hstate hcursor hlog
        (fun draft hd => (harrives draft hd).stamped) hlet hnow
  | applied command rest link hcurrent' hnext hbeside hend hlog =>
      rw [hend]
      exact (hremembers hcurrent').advanced h htimed hcurrent' hnext hlog
  | spoiled command link hbeside hend hlog =>
      rw [hend] at hcurrent
      cases hcurrent
  | rebuilt hsourced hsame hlog hcurrent' hengine hwatch hlet => exact .of_nothing hlet

/-- Any number of moves do. -/
theorem Remembers.moves (h : Sourced evaluator p) (hid : p.config.partitionId ≤ maxPartitionId)
    (htimed : p.Timed) (hremembers : p.cursor.needsRecovery = false → p.Remembers)
    (hmoves : ForwardMoves evaluator p q) (hcurrent : q.cursor.needsRecovery = false) :
    q.Remembers := by
  have hboth : q.Timed ∧ (q.cursor.needsRecovery = false → q.Remembers) :=
    h.induct (fun r => r.Timed ∧ (r.cursor.needsRecovery = false → r.Remembers)) And.left
      (fun hmid hidMid hmove hold => ⟨hold.1.move hmid hidMid hmove.1 hmove.2,
        Remembers.move hmid hidMid hold.1 hold.2 hmove.1 hmove.2⟩)
      hid hmoves ⟨htimed, hremembers⟩
  exact hboth.2 hcurrent

end Partition

end Workflow
