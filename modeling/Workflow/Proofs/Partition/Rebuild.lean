/-
A rebuild over any log.

Nothing is asked of the log but that its positions have no gaps: another writer may have appended to
it, or what it holds may be damaged.  A rebuild then ends in one of three ways (`recover_cases`).  A
read is refused, and the partition stays as it is.  Or a command is refuted, since the log does not
hold what it leaves behind; then the engine stays where the replay has led, after that command.  Or
every command up to the last source is verified.

What is compared are the follow-ups of those commands.  A record whose source is no command is
never looked at, but its source counts for where the cursor goes (`open_verifies`).
-/
import Workflow.Proofs.Partition.Reads

namespace Workflow

/-! ### Replays -/

namespace Recovery

/-- The records hold what the command leaves behind, where the two zeros count as one. -/
def Agrees (records : List Record) (engine : Processor) (command : Record) : Prop :=
  (engine.apply command).1.followUps.map Draft.plainZeros =
    (followUpsOf records command.position).map Draft.plainZeros

instance (records : List Record) (engine : Processor) (command : Record) :
    Decidable (Agrees records engine command) := inferInstanceAs (Decidable (_ = _))

/-- The records hold what each command leaves behind when the commands are applied in order. -/
def Verified (records : List Record) (engine : Processor) (commands : List Record) : Prop :=
  ∀ before command rest, commands = before ++ command :: rest →
    Agrees records (engine.after before) command

theorem Verified.cons {records : List Record} {engine : Processor} {command : Record}
    {rest : List Record} (hfirst : Agrees records engine command)
    (hrest : Verified records (engine.apply command).2 rest) :
    Verified records engine (command :: rest) := by
  intro before other more heq
  cases before with
  | nil =>
      cases heq
      exact hfirst
  | cons head before =>
      obtain ⟨rfl, hsplit⟩ := List.cons.inj heq
      exact hrest before other more hsplit

/-- A replay verifies all commands, or it ends after the first one that is refuted. -/
theorem replay_cases (records commands : List Record) : ∀ engine : Processor,
    (Verified records engine commands ∧
      replay records commands engine = (.ok commands.length, engine.after commands)) ∨
    ∃ before command rest, commands = before ++ command :: rest ∧
      Verified records engine before ∧ ¬ Agrees records (engine.after before) command ∧
      replay records commands engine =
        (.error (.replay command.position (describeMismatch
            (followUpsOf records command.position)
            ((engine.after before).apply command).1.followUps)),
          engine.after (before ++ [command])) := by
  induction commands with
  | nil => intro engine; exact .inl ⟨fun before command rest heq => by simp at heq, rfl⟩
  | cons command rest ih =>
      intro engine
      by_cases hagrees : Agrees records engine command
      · have hstep : replay records (command :: rest) engine =
            ((replay records rest (engine.apply command).2).1.map (· + 1),
              (replay records rest (engine.apply command).2).2) := by
          unfold Agrees at hagrees
          rw [replay]
          exact if_pos hagrees
        rcases ih (engine.apply command).2 with
          ⟨hverified, heq⟩ | ⟨before, refuted, more, rfl, hverified, hnot, heq⟩
        · refine .inl ⟨.cons hagrees hverified, ?_⟩
          rw [hstep, heq]
          rfl
        · refine .inr ⟨command :: before, refuted, more, rfl, .cons hagrees hverified, hnot, ?_⟩
          rw [hstep, heq]
          rfl
      · refine .inr ⟨[], command, rest, rfl, fun before other more heq => by simp at heq, hagrees,
          ?_⟩
        unfold Agrees at hagrees
        rw [replay]
        exact if_neg hagrees

end Recovery

/-! ### Reading with outages -/

namespace LogLink

theorem eq_withReads (link : LogLink) :
    (link.withReads .none).Readable ∧ (link.withReads .none).withReads link.reads = link :=
  ⟨fun _ => rfl, rfl⟩

/-- Reading moves only the count of the reads. -/
theorem readRest_link (calls : Nat) : ∀ (link : LogLink) (after : Option Nat),
    ∃ reads, (readRest calls link after).2 = link.withReads reads := by
  induction calls with
  | zero => intro link after; exact ⟨link.reads, rfl⟩
  | succ calls ih =>
      intro link after
      unfold readRest readAfter
      dsimp only [Outage.next]
      by_cases hrefused : link.reads.refuses link.reads.calls
      · rw [if_pos hrefused]
        exact ⟨_, rfl⟩
      · rw [if_neg hrefused]
        dsimp only
        cases (link.log.readAfter after chunkSize).getLast? with
        | none => exact ⟨_, rfl⟩
        | some last =>
            obtain ⟨reads, heq⟩ := ih
              { link with reads := { link.reads with calls := link.reads.calls + 1 } }
              (some last.position)
            exact ⟨reads, heq⟩

/-- The whole log is read, or a read is refused. -/
theorem readAll_cases {link : LogLink} (hnum : link.log.Numbered) :
    ∃ reads, (∃ e, link.readAll = (.error e, link.withReads reads)) ∨
      link.readAll = (.ok link.log.records, link.withReads reads) := by
  obtain ⟨reads, hlink⟩ := readRest_link (link.log.size + 1) link none
  refine ⟨reads, ?_⟩
  cases hread : link.readAll with
  | mk result link' =>
      have hsame : link' = link.withReads reads := by
        unfold readAll at hread
        rw [hread] at hlink
        exact hlink
      rw [hsame]
      cases result with
      | error e => exact .inl ⟨e, rfl⟩
      | ok found =>
          obtain ⟨hquiet, hself⟩ := link.eq_withReads
          obtain ⟨quiet, reads', hfound, -⟩ := readRest_withReads (link.log.size + 1)
            (link.withReads .none) link.reads none found link' hquiet hread
          obtain ⟨count, hall⟩ := readAll_eq hquiet hnum
          have heq := congrArg Prod.fst (hfound.symm.trans hall)
          cases heq
          exact .inr rfl

end LogLink

/-! ### Rebuilds -/

namespace Partition

variable {evaluator : Evaluator} {p : Partition}

/-- **How a rebuild ends, whatever the log holds.** -/
theorem recover_cases (hnum : p.host.link.log.Numbered) :
    ∃ reads,
      (∃ e, p.recover = (.error (.log e), p.withReads reads)) ∨
      (∃ before command rest,
        Recovery.appliedCommands p.records = before ++ command :: rest ∧
        ¬ Recovery.Agrees p.records (p.processor.reset.after before) command ∧
        p.recover = (.error (.replay command.position (Recovery.describeMismatch
            (Recovery.followUpsOf p.records command.position)
            ((p.processor.reset.after before).apply command).1.followUps)),
          { p.withReads reads with
            processor := p.processor.reset.after (before ++ [command]) })) ∨
      (Recovery.Verified p.records p.processor.reset (Recovery.appliedCommands p.records) ∧
        p.recover = (.ok (Recovery.appliedCommands p.records).length,
          p.rebuilt (p.host.link.withReads reads))) := by
  obtain ⟨reads, ⟨e, hread⟩ | hread⟩ := LogLink.readAll_cases hnum
  · refine ⟨reads, .inl ⟨e, ?_⟩⟩
    unfold recover
    rw [hread]
    rfl
  · refine ⟨reads, .inr ?_⟩
    unfold recover
    rw [hread]
    dsimp only
    rcases Recovery.replay_cases p.host.link.log.records
      (Recovery.appliedCommands p.host.link.log.records)
      (p.withLink (p.host.link.withReads reads)).processor.reset with
      ⟨hverified, heq⟩ | ⟨before, command, rest, hsplit, -, hnot, heq⟩
    · refine .inr ⟨hverified, ?_⟩
      rw [heq]
      rfl
    · refine .inl ⟨before, command, rest, hsplit, hnot, ?_⟩
      rw [heq]
      rfl

end Partition

end Workflow
