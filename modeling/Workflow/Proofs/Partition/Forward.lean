/-
Runs whose clock is never set back.

Nothing else in the theory of a partition asks this of the clock.  What needs it is the comparison
of times that were taken at different moments: a lease that was over when it was looked at is over
when its command is applied, and all that is written later is stamped with a later time.

`ForwardMoves` are moves like others, each of which ends no earlier than it begins.  A run consists
of them when the times that it moves the clock to ascend (`runAll_forward`); rounds never move
the clock.  The invariant they keep is that commands stand in the log in the order of their times
(`Timed`).
-/
import Workflow.Proofs.Partition.Run
import Workflow.Proofs.Time.Instant

namespace Workflow

namespace Partition

variable {evaluator : Evaluator} {p q : Partition}

/-- Any number of moves that do not set the clock back. -/
abbrev ForwardMoves (evaluator : Evaluator) : Partition → Partition → Prop :=
  Relation.ReflTransGen fun p q => Move evaluator p q ∧ p.now ≤ q.now

theorem ForwardMoves.moves (h : ForwardMoves evaluator p q) : Moves evaluator p q :=
  Relation.ReflTransGen.mono (fun _ _ => And.left) _ _ h

theorem SteadyMoves.forward (h : SteadyMoves evaluator p q) : ForwardMoves evaluator p q := by
  refine Relation.ReflTransGen.mono (fun p q hmove => ⟨hmove.move, ?_⟩) _ _ h
  rw [hmove.now]
  exact Instant.le_refl _

end Partition

/-! ### Runs -/

namespace Arrival

variable {evaluator : Evaluator} {p : Partition} {later : List Instant}

/-- The times that the clock is moved to. -/
def times : Arrival → List Instant
  | .setClock clock => [clock.now]
  | _ => []

/-- An arrival ends no earlier than it begins if the times ascend, and the later ones still do. -/
theorem now_le (arrival : Arrival) (h : (p.now :: (arrival.times ++ later)).Pairwise (· ≤ ·)) :
    p.now ≤ (arrival.run p).now ∧ ((arrival.run p).now :: later).Pairwise (· ≤ ·) := by
  have hsame : (arrival.run p).now = p.now → arrival.times = [] →
      p.now ≤ (arrival.run p).now ∧ ((arrival.run p).now :: later).Pairwise (· ≤ ·) := by
    intro hnow htimes
    rw [htimes] at h
    rw [hnow]
    exact ⟨Instant.le_refl _, h⟩
  cases arrival with
  | setClock clock =>
      obtain ⟨hfirst, hrest⟩ := List.pairwise_cons.mp h
      exact ⟨hfirst _ List.mem_cons_self, hrest⟩
  | submit request correlation =>
      refine hsame ?_ rfl
      rcases p.submit_cases request correlation with
        ⟨e, heq⟩ | ⟨link, -, -, ⟨e, heq, -⟩ | ⟨heq, -⟩⟩ <;> rw [run, heq] <;> rfl
  | submitInternal request =>
      refine hsame ?_ rfl
      obtain ⟨link, -, heq, -⟩ := p.submitInternal_cases request
      rw [run, heq]
      rfl
  | take pending => exact hsame rfl rfl
  | outage appends => exact hsame rfl rfl
  | refuseNext count => exact hsame rfl rfl

theorem forward (arrivals : List Arrival) :
    ∀ p : Partition, (p.now :: (arrivals.flatMap times ++ later)).Pairwise (· ≤ ·) →
      Partition.ForwardMoves evaluator p (arrivals.foldl run p) ∧
        ((arrivals.foldl run p).now :: later).Pairwise (· ≤ ·) := by
  induction arrivals with
  | nil => intro p h; exact ⟨.refl, h⟩
  | cons arrival rest ih =>
      intro p h
      rw [List.flatMap_cons, List.append_assoc] at h
      obtain ⟨hle, hrest⟩ := now_le arrival h
      obtain ⟨hmoves, hlater⟩ := ih (arrival.run p) hrest
      exact ⟨.head ⟨arrival.move, hle⟩ hmoves, hlater⟩

end Arrival

namespace PartitionAction

variable {evaluator : Evaluator} {p : Partition} {later : List Instant}

/-- The times that the clock is moved to. -/
def times : PartitionAction → List Instant
  | .arrive arrival => arrival.times
  | .runBatch _ arrivals => arrivals.flatMap Arrival.times
  | _ => []

/-- An action consists of forward moves if the times ascend, and the later ones still do. -/
theorem forward (h : p.Sourced evaluator) (hid : p.config.partitionId ≤ maxPartitionId)
    (action : PartitionAction) (htimes : (p.now :: (action.times ++ later)).Pairwise (· ≤ ·)) :
    Partition.ForwardMoves evaluator p (action.run evaluator p) ∧
      ((action.run evaluator p).now :: later).Pairwise (· ≤ ·) := by
  have hsteady : ∀ {q : Partition}, Partition.SteadyMoves evaluator p q → action.times = [] →
      Partition.ForwardMoves evaluator p q ∧ (q.now :: later).Pairwise (· ≤ ·) := by
    intro q hmoves hnone
    rw [hnone] at htimes
    exact ⟨hmoves.forward, by rw [hmoves.kept.1]; exact htimes⟩
  cases action with
  | arrive arrival =>
      obtain ⟨hle, hlater⟩ := Arrival.now_le arrival htimes
      exact ⟨.single ⟨arrival.move, hle⟩, hlater⟩
  | prepareRound max =>
      obtain ⟨result, q, heq, hmoves, -⟩ := Partition.prepareRound_steady h hid max
      rw [run, heq]
      exact hsteady hmoves rfl
  | processRound => exact hsteady (Partition.processRound_steady h hid).1 rfl
  | runBatch max arrivals =>
      obtain ⟨q, hmoves, ⟨e, -, heq⟩ | ⟨commands, -, -, happly, -⟩⟩ :=
        Partition.runBatch_parts h hid max arrivals
      · rw [run, heq, hmoves.kept.1]
        exact ⟨hmoves.forward, htimes.sublist
          (List.Sublist.cons_cons _ (List.sublist_append_right _ _))⟩
      · rw [← hmoves.kept.1] at htimes
        obtain ⟨harrive, hlater⟩ : Partition.ForwardMoves evaluator q _ ∧ _ :=
          Arrival.forward arrivals q htimes
        rw [← happly.kept.1] at hlater
        exact ⟨(hmoves.forward.trans harrive).trans happly.forward, hlater⟩
  | processUntilIdle rounds =>
      exact hsteady (Partition.processUntilIdle_steady rounds p h hid).1 rfl
  | recover => exact hsteady (.single (.of_kept .recover p.recover_kept)) rfl
  | reopen count =>
      obtain ⟨calls, hopen⟩ := h.open_eq hid
        (rfl : (⟨p.config.partitionId, count⟩ : PartitionConfig).partitionId = _)
      simp only [run, hopen]
      exact ⟨.single ⟨.reopen ⟨p.config.partitionId, count⟩ rfl hopen, Instant.le_refl _⟩, htimes⟩

/-- **A run consists of forward moves** if the times that it moves the clock to ascend. -/
theorem runAll_forward (actions : List PartitionAction) :
    ∀ p : Partition, p.Sourced evaluator → p.config.partitionId ≤ maxPartitionId →
      (p.now :: actions.flatMap times).Pairwise (· ≤ ·) →
      Partition.ForwardMoves evaluator p (runAll evaluator p actions) := by
  induction actions with
  | nil => intro p _ _ _; exact .refl
  | cons action rest ih =>
      intro p h hid htimes
      rw [List.flatMap_cons] at htimes
      obtain ⟨hmoves, hlater⟩ := forward h hid action htimes
      obtain ⟨hnext, hsame⟩ := h.moves hid hmoves.moves
      exact hmoves.trans (ih _ hnext (by rw [hsame]; exact hid) hlater)

end PartitionAction

/-! ### The times of commands -/

namespace Partition

variable {evaluator : Evaluator} {p q : Partition}

/-- Commands stand in the log in the order of their times, and none is from the future. -/
structure Timed (p : Partition) : Prop where
  ascending : (p.records.filter Record.isCommand).Pairwise fun early late =>
    early.timestamp ≤ late.timestamp
  past : ∀ command ∈ p.records, command.isCommand = true → command.timestamp ≤ p.now

/-- With an empty log there is nothing to compare. -/
theorem timed_of_nil (h : p.records = []) : p.Timed := by
  refine ⟨?_, fun command hc => ?_⟩
  · rw [h]
    exact .nil
  · rw [h] at hc
    exact absurd hc List.not_mem_nil

/-- Records that are stamped with the time keep the order. -/
theorem Timed.extend (h : p.Timed) {drafts : List Draft} {position : Nat}
    (hlog : q.records = p.records ++ Log.numbered position drafts)
    (hstamped : ∀ draft ∈ drafts, draft.kind = .command → draft.timestamp = p.now)
    (hnow : p.now ≤ q.now) : q.Timed := by
  have hnew : ∀ command ∈ Log.numbered position drafts, command.isCommand = true →
      command.timestamp = p.now := fun command hc hkind =>
    hstamped _ (Log.toDraft_mem_of_mem_numbered hc) (by simpa [Record.isCommand] using hkind)
  refine ⟨?_, fun command hc hkind => ?_⟩
  · rw [hlog, List.filter_append, List.pairwise_append]
    refine ⟨h.ascending, ?_, fun early he late hl => ?_⟩
    · refine List.pairwise_of_forall_mem_list fun early he late hl => ?_
      obtain ⟨he, hkind⟩ := List.mem_filter.mp he
      obtain ⟨hl, hkind'⟩ := List.mem_filter.mp hl
      rw [hnew early he hkind, hnew late hl hkind']
      exact Instant.le_refl _
    · obtain ⟨he, hkind⟩ := List.mem_filter.mp he
      obtain ⟨hl, hkind'⟩ := List.mem_filter.mp hl
      rw [hnew late hl hkind']
      exact h.past early he hkind
  · rw [hlog] at hc
    rcases List.mem_append.mp hc with hold | hin
    · exact Instant.le_trans (h.past command hold hkind) hnow
    · rw [hnew command hin hkind]
      exact hnow

theorem Timed.move (h : p.Timed) (hp : Sourced evaluator p)
    (hid : p.config.partitionId ≤ maxPartitionId) (hmove : Move evaluator p q)
    (hnow : p.now ≤ q.now) : q.Timed := by
  have hsame : q.records = p.records → q.Timed := by
    intro hlog
    have hnone : q.records = p.records ++ Log.numbered 0 [] := by
      rw [hlog]
      exact (List.append_nil _).symm
    exact h.extend hnone (fun draft hd => absurd hd List.not_mem_nil) hnow
  cases hmove.effect hp hid with
  | arrived drafts hconfig hprocessor hcursor hreads hcalm hlog harrives =>
      exact h.extend hlog (fun draft hd _ => (harrives draft hd).stamped) hnow
  | applied command rest link hcurrent hnext hbeside hend hlog =>
      have hrecords : q.records = p.records ++ Log.numbered (p.host.link.log.size + 1)
          (p.processor.apply command).1.followUps := by
        rw [hend]
        exact (p.advanced_records link command).trans hlog
      refine h.extend hrecords (fun draft hd hkind => ?_) hnow
      exact absurd hkind (Processor.of_mem_followUps_apply hp.builtin hd).2
  | spoiled command link hbeside hend hlog =>
      refine hsame ?_
      rw [hend]
      exact hlog
  | rebuilt hsourced hsameId hlog => exact hsame hlog

theorem Timed.moves (h : p.Timed) (hp : Sourced evaluator p)
    (hid : p.config.partitionId ≤ maxPartitionId) (hmoves : ForwardMoves evaluator p q) :
    q.Timed :=
  hp.induct Timed And.left (fun hmid hidMid hmove hold => hold.move hmid hidMid hmove.1 hmove.2) hid
    hmoves h

/-- The commands that are left are no earlier than the next one. -/
theorem Timed.le_of_next (h : p.Timed) (hp : Sourced evaluator p) {command : Record}
    {rest : List Record} (hnext : p.unapplied = command :: rest) :
    ∀ other ∈ rest, command.timestamp ≤ other.timestamp := by
  have hpairs := h.ascending
  rw [commands_eq hp.numbered, hnext, List.pairwise_append, List.pairwise_cons] at hpairs
  exact hpairs.2.1.1

end Partition

end Workflow
