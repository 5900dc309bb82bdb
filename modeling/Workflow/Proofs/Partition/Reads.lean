/-
Rounds during outages of reads.

A read that is refused ends what needs it with an error.  Otherwise an outage shows nowhere but in
the count of reads, so a round that succeeds in spite of one does just what it does when no read is
refused.  Whatever is known of rounds that may read is then known of all rounds that succeed.
-/
import Workflow.Proofs.Partition.Moves
import Workflow.Proofs.Partition.Recast

namespace Workflow

/-! ### Reading -/

namespace LogLink

/-- The connection with other outages of reads. -/
def withReads (link : LogLink) (reads : Outage) : LogLink := { link with reads }

variable {link link' : LogLink} {reads : Outage} {found : List Record}

/-- A read that is not refused finds what it finds without an outage. -/
theorem readAfter_withReads (hread : link.Readable) {after : Option Nat} {limit : Nat}
    (hok : (link.withReads reads).readAfter after limit = (.ok found, link')) :
    link.readAfter after limit = (.ok found, link.afterReads 1) ∧
      ∃ reads', link' = (link.afterReads 1).withReads reads' := by
  rw [readAfter_eq hread]
  unfold readAfter at hok
  cases hrefused : reads.refuses reads.calls with
  | true => simp [Outage.next, withReads, hrefused] at hok
  | false =>
      simp only [Outage.next, withReads, hrefused, Bool.false_eq_true, if_false, Prod.mk.injEq,
        Except.ok.injEq] at hok
      obtain ⟨rfl, rfl⟩ := hok
      exact ⟨rfl, _, rfl⟩

theorem readRest_withReads (calls : Nat) :
    ∀ (link : LogLink) (reads : Outage) (after : Option Nat) (found : List Record)
      (link' : LogLink), link.Readable →
      readRest calls (link.withReads reads) after = (.ok found, link') →
      ∃ quiet reads', readRest calls link after = (.ok found, quiet) ∧
        link' = quiet.withReads reads' := by
  induction calls with
  | zero =>
      intro link reads after found link' _ hok
      cases hok
      exact ⟨link, reads, rfl, rfl⟩
  | succ calls ih =>
      intro link reads after found link' hread hok
      unfold readRest at hok ⊢
      rcases hchunk : (link.withReads reads).readAfter after chunkSize with ⟨e | chunk, link₁⟩
      · rw [hchunk] at hok
        cases hok
      · obtain ⟨hquiet, reads₁, rfl⟩ := readAfter_withReads hread hchunk
        rw [hchunk] at hok
        rw [hquiet]
        dsimp only at hok ⊢
        cases hlast : chunk.getLast? with
        | none =>
            rw [hlast] at hok
            cases hok
            exact ⟨_, reads₁, rfl, rfl⟩
        | some last =>
            rw [hlast] at hok
            dsimp only at hok ⊢
            rcases hrest : readRest calls ((link.afterReads 1).withReads reads₁)
              (some last.position) with ⟨e | rest, link₂⟩
            · rw [hrest] at hok
              cases hok
            · obtain ⟨quiet, reads₂, hquiet, rfl⟩ := ih _ _ _ _ _ (hread.afterReads 1) hrest
              rw [hrest] at hok
              rw [hquiet]
              cases hok
              exact ⟨quiet, reads₂, rfl, rfl⟩

theorem readCommandsFrom_withReads (calls : Nat) :
    ∀ (link : LogLink) (reads : Outage) (after : Option Nat) (max : Nat) (found : List Record)
      (link' : LogLink), link.Readable →
      readCommandsFrom calls (link.withReads reads) after max = (.ok found, link') →
      ∃ quiet reads', readCommandsFrom calls link after max = (.ok found, quiet) ∧
        link' = quiet.withReads reads' := by
  induction calls with
  | zero =>
      intro link reads after max found link' _ hok
      cases hok
      exact ⟨link, reads, rfl, rfl⟩
  | succ calls ih =>
      intro link reads after max found link' hread hok
      cases max with
      | zero =>
          cases hok
          exact ⟨link, reads, rfl, rfl⟩
      | succ max =>
          unfold readCommandsFrom at hok ⊢
          rcases hchunk : (link.withReads reads).readAfter after chunkSize with ⟨e | chunk, link₁⟩
          · rw [hchunk] at hok
            cases hok
          · obtain ⟨hquiet, reads₁, rfl⟩ := readAfter_withReads hread hchunk
            rw [hchunk] at hok
            rw [hquiet]
            dsimp only at hok ⊢
            cases hlast : chunk.getLast? with
            | none =>
                rw [hlast] at hok
                cases hok
                exact ⟨_, reads₁, rfl, rfl⟩
            | some last =>
                rw [hlast] at hok
                dsimp only at hok ⊢
                rcases hrest : readCommandsFrom calls ((link.afterReads 1).withReads reads₁)
                  (some last.position) (max + 1 -
                    ((chunk.filter Record.isCommand).take (max + 1)).length) with
                  ⟨e | rest, link₂⟩
                · rw [hrest] at hok
                  cases hok
                · obtain ⟨quiet, reads₂, hquiet, rfl⟩ :=
                    ih _ _ _ _ _ _ (hread.afterReads 1) hrest
                  rw [hrest] at hok
                  rw [hquiet]
                  cases hok
                  exact ⟨quiet, reads₂, rfl, rfl⟩

end LogLink

namespace Partition

variable {evaluator : Evaluator} {p q : Partition} {reads : Outage}

/-- The partition with other outages of reads. -/
def withReads (p : Partition) (reads : Outage) : Partition :=
  p.withLink (p.host.link.withReads reads)

/-! ### What does not read -/

theorem appendBatch_withReads (hcalm : p.host.link.rebuildDue = false) (reads : Outage)
    (applying : Bool) (drafts : List Draft) :
    (p.withReads reads).appendBatch applying drafts =
      ((p.appendBatch applying drafts).1, (p.appendBatch applying drafts).2.withReads reads) := by
  have hplain : p.rebuildIfDue applying = p := by simp [rebuildIfDue, hcalm]
  have hplain' : (p.withReads reads).rebuildIfDue applying = p.withReads reads := by
    have hcalm' : (p.withReads reads).host.link.rebuildDue = false := hcalm
    simp [rebuildIfDue, hcalm']
  have hlink : (p.host.link.withReads reads).appendBatch drafts =
      ((p.host.link.appendBatch drafts).1, (p.host.link.appendBatch drafts).2.withReads reads) := by
    unfold LogLink.appendBatch LogLink.guardAppend LogLink.withReads
    dsimp only
    cases (p.host.link.appends.next).1 <;> rfl
  have hlink' : (p.withReads reads).host.link.appendBatch drafts = _ := hlink
  unfold appendBatch
  rw [hplain, hplain']
  dsimp only
  rw [hlink']
  rcases p.host.link.appendBatch drafts with ⟨e | positions, link⟩ <;> rfl

/-- Other outages of reads, as a change to the host. -/
def otherReads (reads : Outage) : Recast := { link := (·.withReads reads) }

theorem checkDueTimers_withReads (hcalm : p.host.link.rebuildDue = false) (reads : Outage) :
    (p.withReads reads).checkDueTimers =
      (p.checkDueTimers.1, p.checkDueTimers.2.withReads reads) :=
  checkDueTimers_on (otherReads reads)
    (appendBatch_withReads (p := p.withTriggers) hcalm reads false _)

theorem sweepExpiredLeases_withReads (hcalm : p.host.link.rebuildDue = false) (reads : Outage) :
    (p.withReads reads).sweepExpiredLeases =
      (p.sweepExpiredLeases.1, p.sweepExpiredLeases.2.withReads reads) :=
  sweepExpiredLeases_on (otherReads reads)
    (appendBatch_withReads (p := p.withTimeouts) hcalm reads false _)

theorem applyCommand_withReads (hcalm : p.host.link.rebuildDue = false) (reads : Outage)
    (command : Record) :
    (p.withReads reads).applyCommand command =
      ((p.applyCommand command).1, (p.applyCommand command).2.withReads reads) := by
  have hdeliver : ∀ (q : Partition) (response : Option Response),
      (q.withReads reads).deliver response = (q.deliver response).withReads reads := by
    intro q response
    cases response <;> rfl
  have happend := appendBatch_withReads (p := { p with processor := (p.processor.apply command).2 })
    hcalm reads true (p.processor.apply command).1.followUps
  exact applyCommand_on (otherReads reads) rfl rfl rfl rfl happend fun q => hdeliver q _

theorem applyCommands_withReads (commands : List Record) (reads : Outage) :
    ∀ p : Partition, p.host.link.rebuildDue = false →
      applyCommands commands (p.withReads reads) =
        ((applyCommands commands p).1, (applyCommands commands p).2.withReads reads) := by
  intro p hcalm
  have hstep : ∀ (p : Partition) (command : Record), p.host.link.rebuildDue = false →
      (p.withReads reads).applyCommand command =
          ((p.applyCommand command).1, (p.applyCommand command).2.withReads reads) ∧
        (p.applyCommand command).2.host.link.rebuildDue = false := fun p command hcalm =>
    ⟨applyCommand_withReads hcalm reads command, (applyCommand_kept hcalm command).1⟩
  have hall := applyCommands_on (otherReads reads) (fun _ => rfl) (fun _ => rfl) hstep commands p
    hcalm
  rwa [List.map_id'] at hall

/-! ### What reads -/

theorem recover_withReads (hread : p.host.link.Readable) {count : Nat}
    (hok : (p.withReads reads).recover = (.ok count, q)) :
    ∃ quiet reads', p.recover = (.ok count, quiet) ∧ q = quiet.withReads reads' := by
  unfold recover at hok ⊢
  have hsame : (p.withReads reads).host.link = p.host.link.withReads reads := rfl
  rw [hsame] at hok
  rcases hall : (p.host.link.withReads reads).readAll with ⟨e | records, link⟩
  · rw [hall] at hok
    cases hok
  · obtain ⟨quiet, reads', hquiet, rfl⟩ :=
      LogLink.readRest_withReads _ p.host.link reads none records link hread hall
    have hquiet' : p.host.link.readAll = (.ok records, quiet) := hquiet
    rw [hall] at hok
    rw [hquiet']
    dsimp only at hok ⊢
    have hengine : ((p.withReads reads).withLink (quiet.withReads reads')).processor.reset =
        (p.withLink quiet).processor.reset := rfl
    rw [hengine] at hok
    rcases hreplay : Recovery.replay records (Recovery.appliedCommands records)
      (p.withLink quiet).processor.reset with ⟨e | replayed, processor⟩
    · rw [hreplay] at hok
      cases hok
    · rw [hreplay] at hok
      cases hok
      exact ⟨_, reads', rfl, rfl⟩

theorem recoverIfNeeded_withReads (hread : p.host.link.Readable)
    (hok : (p.withReads reads).recoverIfNeeded = (.ok (), q)) :
    ∃ quiet reads', p.recoverIfNeeded = (.ok (), quiet) ∧ q = quiet.withReads reads' := by
  cases hneeds : p.cursor.needsRecovery with
  | false =>
      rw [recoverIfNeeded_of_current hneeds]
      have hneeds' : (p.withReads reads).cursor.needsRecovery = false := hneeds
      rw [recoverIfNeeded_of_current hneeds'] at hok
      cases hok
      exact ⟨p, reads, rfl, rfl⟩
  | true =>
      have hneeds' : (p.withReads reads).cursor.needsRecovery = true := hneeds
      unfold recoverIfNeeded at hok ⊢
      rw [if_pos hneeds'] at hok
      rw [if_pos hneeds]
      rcases hrecover : (p.withReads reads).recover with ⟨e | count, p₁⟩
      · rw [hrecover] at hok
        cases hok
      · obtain ⟨quiet, reads', hquiet, rfl⟩ := recover_withReads hread hrecover
        rw [hrecover] at hok
        rw [hquiet]
        cases hok
        exact ⟨quiet, reads', rfl, rfl⟩

theorem readUnprocessed_withReads (hread : p.host.link.Readable) {max : Nat}
    {commands : List Record} (hok : (p.withReads reads).readUnprocessed max = (.ok commands, q)) :
    ∃ quiet reads', p.readUnprocessed max = (.ok commands, quiet) ∧
      q = quiet.withReads reads' := by
  unfold readUnprocessed at hok ⊢
  have hsame : (p.withReads reads).host.link = p.host.link.withReads reads := rfl
  rw [hsame] at hok
  rcases hfound : (p.host.link.withReads reads).readCommands p.cursor.lastProcessed max with
    ⟨e | found, link⟩
  · have hfound' : (p.host.link.withReads reads).readCommands
        (p.withReads reads).cursor.lastProcessed max = _ := hfound
    rw [hfound'] at hok
    cases hok
  · obtain ⟨quiet, reads', hquiet, rfl⟩ := LogLink.readCommandsFrom_withReads _ p.host.link reads
      p.cursor.lastProcessed max found link hread hfound
    have hquiet' : p.host.link.readCommands p.cursor.lastProcessed max = (.ok found, quiet) :=
      hquiet
    have hfound' : (p.host.link.withReads reads).readCommands
        (p.withReads reads).cursor.lastProcessed max = _ := hfound
    rw [hfound'] at hok
    rw [hquiet']
    cases hok
    exact ⟨_, reads', rfl, rfl⟩

/-! ### Rounds -/

theorem prepareRound_withReads (h : Sourced evaluator p)
    (hid : p.config.partitionId ≤ maxPartitionId) {max : Nat} {commands : List Record}
    (hok : (p.withReads reads).prepareRound max = (.ok commands, q)) :
    ∃ quiet reads', p.prepareRound max = (.ok commands, quiet) ∧ q = quiet.withReads reads' := by
  obtain ⟨p₁, hrecover₁, hmoves₁, -⟩ := recoverIfNeeded_steady h
  obtain ⟨h₁, hsame₁⟩ := h.moves hid hmoves₁.moves
  have hid₁ : p₁.config.partitionId ≤ maxPartitionId := by
    rw [hsame₁]
    exact hid
  have hmove₂ : Move evaluator p₁ p₁.checkDueTimers.2 := .timers
  obtain ⟨h₂, hsame₂⟩ := h₁.move hid₁ hmove₂
  have hmove₃ : Move evaluator p₁.checkDueTimers.2 p₁.checkDueTimers.2.sweepExpiredLeases.2 :=
    .leases
  obtain ⟨h₃, -⟩ := h₂.move (by rw [hsame₂]; exact hid₁) hmove₃
  unfold prepareRound at hok ⊢
  rcases hrecover : (p.withReads reads).recoverIfNeeded with ⟨e | _, q₁⟩
  · rw [hrecover] at hok
    cases hok
  · obtain ⟨quiet, reads₁, hquiet, rfl⟩ := recoverIfNeeded_withReads h.readable hrecover
    rw [hrecover₁] at hquiet
    cases hquiet
    rw [hrecover] at hok
    rw [hrecover₁]
    dsimp only at hok ⊢
    rw [checkDueTimers_withReads h₁.calm] at hok
    rcases htimers : p₁.checkDueTimers with ⟨e | _, p₂⟩
    · rw [htimers] at hok
      cases hok
    · rw [htimers] at hok h₂ h₃
      dsimp only at hok h₂ h₃ ⊢
      rw [sweepExpiredLeases_withReads h₂.calm] at hok
      rcases hleases : p₂.sweepExpiredLeases with ⟨e | _, p₃⟩
      · rw [hleases] at hok
        cases hok
      · rw [hleases] at hok h₃
        exact readUnprocessed_withReads h₃.readable hok

/-- **A round that succeeds during an outage of reads does what it does without one.** -/
theorem processRound_withReads (h : Sourced evaluator p)
    (hid : p.config.partitionId ≤ maxPartitionId) {count : Nat}
    (hok : (p.withReads reads).processRound = (.ok count, q)) :
    ∃ quiet reads', p.processRound = (.ok count, quiet) ∧ q = quiet.withReads reads' := by
  obtain ⟨result, p₁, hprepare₁, hmoves, hread⟩ :=
    prepareRound_moves h hid p.config.maxCommandsPerRound
  obtain ⟨h₁, -⟩ := h.moves hid hmoves
  unfold processRound at hok ⊢
  rcases hprepare : (p.withReads reads).prepareRound p.config.maxCommandsPerRound with
    ⟨e | commands, q₁⟩
  · have hprepare' : (p.withReads reads).prepareRound
        (p.withReads reads).config.maxCommandsPerRound = _ := hprepare
    rw [hprepare'] at hok
    cases hok
  · obtain ⟨quiet, reads₁, hquiet, rfl⟩ := prepareRound_withReads h hid hprepare
    have hprepare' : (p.withReads reads).prepareRound
        (p.withReads reads).config.maxCommandsPerRound = _ := hprepare
    rw [hprepare₁] at hquiet
    cases hquiet
    obtain ⟨hcurrent, -⟩ := hread commands rfl
    have hcurrent' : (p₁.withReads reads₁).cursor.needsRecovery = false := hcurrent
    rw [hprepare'] at hok
    rw [hprepare₁]
    dsimp only at hok ⊢
    rw [processCommands_of_current hcurrent', applyCommands_withReads commands reads₁ p₁ h₁.calm,
      Prod.mk.injEq] at hok
    rw [processCommands_of_current hcurrent]
    exact ⟨_, reads₁, Prod.ext hok.1 rfl, hok.2.symm⟩

end Partition

end Workflow
