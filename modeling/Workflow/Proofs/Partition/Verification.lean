/-
What the log holds when a partition opens on it.

Opening rebuilds the state, so each command up to the last source is verified: the log holds what
that command leaves behind when all commands are applied in order from the empty state.  This is
all that is verified.  A record may have a source at which there is no command; nobody looks at that
record, but if its source is the last one the cursor goes there, and what arrives at or before that
position is taken for applied.

If every source is a command, each record with a source is accounted for, the cursor is at a
command, and nothing that arrives later is skipped.  `open_skips_unclaimed` is a log of one record
that shows what happens otherwise.
-/
import Workflow.Proofs.Partition.Rebuild
import Workflow.Proofs.Partition.Response

namespace Workflow

namespace Recovery

/-- Whatever follows from a position follows from a command. -/
def Claimed (records : List Record) : Prop :=
  ∀ record ∈ records, ∀ source ∈ record.sourcePosition,
    ∃ command ∈ records, command.isCommand ∧ command.position = source

instance (records : List Record) : Decidable (Claimed records) :=
  inferInstanceAs (Decidable (∀ record ∈ records, ∀ source ∈ record.sourcePosition,
    ∃ command ∈ records, command.isCommand ∧ command.position = source))

/-- Beyond the last source nothing follows from any position. -/
theorem followUpsOf_of_lastSource {records : List Record} {position : Nat}
    (h : ∀ last, lastSource? records = some last → last < position) :
    followUpsOf records position = [] := by
  refine followUpsOf_eq_nil fun record hr hs => ?_
  obtain ⟨last, hlast, hle⟩ := le_lastSource hr hs
  exact absurd hle (Nat.not_le_of_lt (h last hlast))

/-- The last source is at or after a position if and only if some source is. -/
theorem exists_source_iff {records : List Record} {position : Nat} :
    ((lastSource? records).any fun last => decide (position ≤ last)) = true ↔
      ∃ record ∈ records, ∃ source, record.sourcePosition = some source ∧ position ≤ source := by
  constructor
  · intro h
    cases hlast : lastSource? records with
    | none =>
        rw [hlast] at h
        cases h
    | some last =>
        rw [hlast] at h
        obtain ⟨record, hr, hs⟩ := exists_of_lastSource hlast
        exact ⟨record, hr, last, hs, of_decide_eq_true h⟩
  · rintro ⟨record, hr, source, hs, hle⟩
    obtain ⟨last, hlast, hsource⟩ := le_lastSource hr hs
    rw [hlast]
    exact decide_eq_true (Nat.le_trans hle hsource)

end Recovery

namespace Partition

variable {evaluator : Evaluator} {p : Partition}

/-- A partition that opens was rebuilt, and every command that counts as applied was verified. -/
theorem verified_of_open {host : Host} {registry : Registry} {config : PartitionConfig}
    (hnum : host.link.log.Numbered)
    (hopen : Partition.open host registry evaluator config = .ok p) :
    ∃ reads, p = rebuilt
        { config, host, processor := .start config.partitionId registry evaluator }
        (host.link.withReads reads) ∧
      Recovery.Verified host.link.log.records (.start config.partitionId registry evaluator)
        (Recovery.appliedCommands host.link.log.records) := by
  unfold Partition.open at hopen
  split at hopen
  · cases hopen
  obtain ⟨reads, ⟨e, heq⟩ | ⟨before, command, rest, -, -, heq⟩ | ⟨hverified, heq⟩⟩ :=
    recover_cases (p := { config, host, processor := .start config.partitionId registry evaluator })
      hnum
  · rw [heq] at hopen
    cases hopen
  · rw [heq] at hopen
    cases hopen
  · rw [heq] at hopen
    cases hopen
    exact ⟨reads, rfl, hverified⟩

/-- **What opening verifies.**  The cursor is at the last source of the log, and the state is the
fold of the commands up to there.  Each of them has the follow-ups in the log that it has in that
fold, where the two zeros count as one, and the commands behind have none.  A position behind the
end of the log counts as applied if and only if some source is not before it.  If every source is
a command, then all records with a source are accounted for, the cursor is at a command, and no
position behind the end of the log counts as applied. -/
theorem open_verifies {host : Host} {config : PartitionConfig} (hnum : host.link.log.Numbered)
    (hopen : Partition.open host .builtin evaluator config = .ok p) :
    p.records = host.link.log.records ∧ p.config = config ∧
    p.cursor = ⟨Recovery.lastSource? p.records, false⟩ ∧
    p.processor = (p.initialEngine evaluator).after p.applied ∧
    (∀ command ∈ p.records, command.isCommand →
      (Recovery.followUpsOf p.records command.position).map Draft.plainZeros =
        if p.isProcessed command.position then
          (p.outcomeOf evaluator command).followUps.map Draft.plainZeros
        else []) ∧
    (∀ position, p.records.length < position → (p.isProcessed position = true ↔
      ∃ record ∈ p.records, ∃ source, record.sourcePosition = some source ∧ position ≤ source)) ∧
    (Recovery.Claimed p.records →
      (∀ record ∈ p.records, ∀ source, record.sourcePosition = some source →
        ∃ command ∈ p.records, command.isCommand ∧ command.position = source ∧
          (Recovery.followUpsOf p.records source).map Draft.plainZeros =
            (p.outcomeOf evaluator command).followUps.map Draft.plainZeros) ∧
      (∀ last, p.cursor.lastProcessed = some last →
        ∃ command ∈ p.records, command.isCommand ∧ command.position = last) ∧
      ∀ position, p.records.length < position → p.isProcessed position = false) := by
  obtain ⟨reads, rfl, hverified⟩ := verified_of_open hnum hopen
  let q : Partition := { config, host, processor := .start config.partitionId .builtin evaluator }
  let p := q.rebuilt (host.link.withReads reads)
  have hcount : ∀ command ∈ p.records, command.isCommand →
      (Recovery.followUpsOf p.records command.position).map Draft.plainZeros =
        if p.isProcessed command.position then
          (p.outcomeOf evaluator command).followUps.map Draft.plainZeros
        else [] := by
    intro command hc hkind
    by_cases hprocessed : p.isProcessed command.position
    · rw [if_pos hprocessed]
      have hmem : command ∈ p.applied := mem_applied_iff.mpr ⟨hc, hkind, hprocessed⟩
      obtain ⟨before, rest, hsplit⟩ := List.append_of_mem hmem
      have hcommands := commands_eq (p := p) hnum
      rw [hsplit, List.append_assoc, List.cons_append] at hcommands
      have hagrees := hverified before command rest hsplit
      unfold outcomeOf
      rw [commandsBefore_eq (p := p) hnum hcommands]
      exact hagrees.symm
    · rw [if_neg hprocessed, Recovery.followUpsOf_of_lastSource, List.map_nil]
      intro last hlast
      by_contra hle
      refine hprocessed ?_
      show (Recovery.lastSource? p.records).any _ = true
      rw [hlast]
      exact decide_eq_true (Nat.not_lt.mp hle)
  refine ⟨rfl, rfl, rfl, rfl, hcount, fun position _ => Recovery.exists_source_iff, ?_⟩
  intro hclaimed
  refine ⟨?accounted, ?cursor, ?later⟩
  case accounted =>
    intro record hr source hs
    obtain ⟨command, hc, hkind, rfl⟩ := hclaimed record hr source hs
    refine ⟨command, hc, hkind, rfl, ?_⟩
    rw [hcount command hc hkind, if_pos]
    exact Recovery.exists_source_iff.mpr ⟨record, hr, _, hs, Nat.le_refl _⟩
  case cursor =>
    intro last hlast
    obtain ⟨record, hr, hs⟩ := Recovery.exists_of_lastSource hlast
    exact hclaimed record hr last hs
  case later =>
    intro position hlate
    by_contra hprocessed
    obtain ⟨record, hr, source, hs, hle⟩ :=
      Recovery.exists_source_iff.mp (Bool.not_eq_false _ ▸ hprocessed)
    obtain ⟨command, hc, -, rfl⟩ := hclaimed record hr source hs
    exact absurd (Nat.lt_of_lt_of_le hlate hle)
      (Nat.not_lt_of_le (hnum.position_le hc))

/-- A log in which a job is created, with the follow-ups that its command leaves behind. -/
def createdLog : Log :=
  let command : Record :=
    .ofDraft 1 (.command none (.job .create) (.job { jobType := "task", retries := 1 }))
  let engine : Processor := .start ({} : PartitionConfig).partitionId .builtin .unavailable
  { records := command :: Log.numbered 2 (engine.apply command).1.followUps }

theorem open_verifies_created :
    ∃ p, Partition.open { link := { log := createdLog } } .builtin .unavailable {} = .ok p ∧
      createdLog.Numbered ∧ createdLog.size = 3 ∧ Recovery.Claimed p.records ∧
      (∃ command ∈ p.records, command.isCommand ∧ command.position = 1 ∧
        (Recovery.followUpsOf p.records 1).map Draft.plainZeros =
          (p.outcomeOf .unavailable command).followUps.map Draft.plainZeros) ∧
      ∀ position, p.records.length < position → p.isProcessed position = false := by
  have hnum : createdLog.Numbered := by
    unfold Log.Numbered
    decide +kernel
  have hclaimed : Recovery.Claimed createdLog.records := by decide +kernel
  have hsource : ∃ record ∈ createdLog.records, record.sourcePosition = some 1 := by
    decide +kernel
  cases hopen : Partition.open { link := { log := createdLog } } .builtin .unavailable {} with
  | error cause =>
      have hok : (Partition.open { link := { log := createdLog } } .builtin .unavailable
        {}).toOption.isSome = true := by decide +kernel
      rw [hopen] at hok
      cases hok
  | ok p =>
      obtain ⟨hrecords, -, -, -, -, -, hconclude⟩ := open_verifies hnum hopen
      have hrecords' : p.records = createdLog.records := hrecords
      obtain ⟨haccounted, -, hlater⟩ := hconclude (hrecords'.symm ▸ hclaimed)
      obtain ⟨record, hr, hs⟩ := hsource
      exact ⟨p, rfl, hnum, by decide +kernel, hrecords'.symm ▸ hclaimed,
        haccounted record (hrecords'.symm ▸ hr) 1 hs, hlater⟩

/-- An event that follows from a position at which there is no command. -/
def unclaimedEvent : Record :=
  .ofDraft 1
    { sourcePosition := some 5, key := some 1, kind := .event, valueType := .job,
      intent := .job .created, value := .job { jobType := "a", retries := 1 },
      timestamp := .epoch }

/-- A partition opens on a log that holds such an event alone.  The position counts as the last one
that was applied, so the command that arrives next is skipped, and it never has an effect. -/
theorem open_skips_unclaimed :
    let host : Host := { link := { log := { records := [unclaimedEvent] } } }
    let p := (unbuilt host .unavailable {}).rebuilt (host.link.afterReads 2)
    let q := (p.submitInternal ⟨none, .job .create, .job { jobType := "a", retries := 1 }⟩).2
    let idle := processUntilIdle 2 q
    host.link.log.Numbered ∧ Partition.open host .builtin .unavailable {} = .ok p ∧
      (∀ record ∈ p.records, ¬ record.isCommand) ∧ p.cursor.lastProcessed = some 5 ∧
      q.records.map Record.isCommand = [false, true] ∧ q.isProcessed 2 = true ∧
      idle.1 = .idle 0 ∧ idle.2.records = q.records := by
  refine ⟨?_, rfl, ?_⟩
  · unfold Log.Numbered
    decide +kernel
  · decide +kernel

end Partition

end Workflow
