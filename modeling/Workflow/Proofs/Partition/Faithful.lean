/-
When the state that commands are applied to is the fold of those before.

A state is faithful if it is the fold of the commands that count as applied.  `Trusted` adds what
keeps it so over any log: its sources are within it, and a state that may be ahead of the log is
known to be.  Another writer may append what it likes, as long as it names no source behind the end
of the log, and any appends and reads may be refused.

A rebuild that fails leaves the cursor alone and the engine in the middle of the replay.  If the
cursor asked for the rebuild it still does, so nothing is applied before one succeeds, and all that
is ever applied is applied to a faithful state (`Course.faithful`).  If it did not, it does not ask
afterwards either, and the next command is applied to the state in the middle
(`recover_failed`, `halfway_state_applied`).
-/
import Workflow.Proofs.Partition.Rebuild
import Workflow.Proofs.Partition.Run

namespace Workflow

/-! ### Reading commands with outages -/

namespace LogLink

/-- Reading commands moves only the count of the reads. -/
theorem readCommandsFrom_link (calls : Nat) : ∀ (link : LogLink) (after : Option Nat) (max : Nat),
    ∃ reads, (readCommandsFrom calls link after max).2 = link.withReads reads := by
  induction calls with
  | zero => intro link after max; exact ⟨link.reads, rfl⟩
  | succ calls ih =>
      intro link after max
      cases max with
      | zero => exact ⟨link.reads, rfl⟩
      | succ max =>
          unfold readCommandsFrom readAfter
          dsimp only [Outage.next]
          by_cases hrefused : link.reads.refuses link.reads.calls
          · rw [if_pos hrefused]
            exact ⟨_, rfl⟩
          · rw [if_neg hrefused]
            dsimp only
            cases (link.log.readAfter after chunkSize).getLast? with
            | none => exact ⟨_, rfl⟩
            | some last =>
                obtain ⟨reads, heq⟩ := ih
                  { link with reads := { link.reads with calls := link.reads.calls + 1 } }
                  (some last.position)
                  (max + 1 - (((link.log.readAfter after chunkSize).filter
                    Record.isCommand).take (max + 1)).length)
                exact ⟨reads, heq⟩

/-- The first commands are read, or a read is refused. -/
theorem readCommands_cases {link : LogLink} (hnum : link.log.Numbered) (after : Option Nat)
    (max : Nat) :
    ∃ reads, (∃ e, link.readCommands after max = (.error e, link.withReads reads)) ∨
      link.readCommands after max =
        (.ok (((link.log.records.drop (after.getD 0)).filter Record.isCommand).take max),
          link.withReads reads) := by
  obtain ⟨reads, hlink⟩ := readCommandsFrom_link (link.log.size + 1) link after max
  refine ⟨reads, ?_⟩
  cases hread : link.readCommands after max with
  | mk result link' =>
      have hsame : link' = link.withReads reads := by
        unfold readCommands at hread
        rw [hread] at hlink
        exact hlink
      rw [hsame]
      cases result with
      | error e => exact .inl ⟨e, rfl⟩
      | ok found =>
          obtain ⟨hquiet, -⟩ := link.eq_withReads
          obtain ⟨quiet, reads', hfound, -⟩ := readCommandsFrom_withReads (link.log.size + 1)
            (link.withReads .none) link.reads after max found link' hquiet hread
          obtain ⟨count, hall⟩ := readCommands_eq hquiet hnum after max
          have heq := congrArg Prod.fst (hfound.symm.trans hall)
          cases heq
          exact .inr rfl

end LogLink

/-- What the handlers leave behind follows from the command and is no command itself. -/
def Registry.NamesSource (registry : Registry) : Prop :=
  ∀ (engine : Processor) (command : Record), engine.registry = registry →
    ∀ draft ∈ (engine.apply command).1.followUps,
      draft.sourcePosition = some command.position ∧ draft.kind ≠ .command

theorem Registry.namesSource_builtin : Registry.builtin.NamesSource :=
  fun _ _ hbuiltin _ hd => Processor.of_mem_followUps_apply hbuiltin hd

namespace Partition

variable {p q r : Partition}

/-! ### Faithful states -/

/-- The state is the fold of the commands that count as applied. -/
def Faithful (p : Partition) : Prop := p.processor = p.processor.reset.after p.applied

/-- The state is faithful unless the partition knows better, and the log has nothing that leads the
cursor beyond it. -/
structure Trusted (p : Partition) : Prop where
  /-- The handlers name the commands that their records follow from. -/
  names : p.processor.registry.NamesSource
  /-- Positions have no gaps. -/
  numbered : p.host.link.log.Numbered
  /-- The storage asks for no rebuild. -/
  calm : p.host.link.rebuildDue = false
  /-- Sources are within the log. -/
  within : ∀ record ∈ p.records, ∀ source ∈ record.sourcePosition, source ≤ p.host.link.log.size
  /-- The cursor does not point beyond the log. -/
  cursor_le : p.cursor.lastProcessed.getD 0 ≤ p.host.link.log.size
  /-- The state is faithful, or known to be ahead. -/
  current : p.cursor.needsRecovery = false → p.Faithful

/-- Records come to the log, if any, whose sources are within it.  The engine and the cursor are
left alone. -/
structure Brings (p q : Partition) : Prop where
  processor : q.processor = p.processor
  cursor : q.cursor = p.cursor
  calm : q.host.link.rebuildDue = p.host.link.rebuildDue
  log : ∃ drafts, q.records = p.records ++ Log.numbered (p.host.link.log.size + 1) drafts ∧
    ∀ draft ∈ drafts, ∀ source ∈ draft.sourcePosition,
      source ≤ p.host.link.log.size + drafts.length

namespace Brings

/-- Nothing comes. -/
theorem nothing (hprocessor : q.processor = p.processor) (hcursor : q.cursor = p.cursor)
    (hcalm : q.host.link.rebuildDue = p.host.link.rebuildDue) (hlog : q.records = p.records) :
    Brings p q :=
  ⟨hprocessor, hcursor, hcalm, [], hlog.trans (List.append_nil _).symm,
    fun _ hd => absurd hd List.not_mem_nil⟩

/-- Records come that follow from nothing. -/
theorem commands (hprocessor : q.processor = p.processor) (hcursor : q.cursor = p.cursor)
    (hcalm : q.host.link.rebuildDue = p.host.link.rebuildDue) {drafts : List Draft}
    (hlog : q.records = p.records ++ Log.numbered (p.host.link.log.size + 1) drafts)
    (hsources : ∀ draft ∈ drafts, draft.sourcePosition = none) : Brings p q := by
  refine ⟨hprocessor, hcursor, hcalm, drafts, hlog, fun draft hd source hs => ?_⟩
  rw [hsources draft hd] at hs
  cases hs

end Brings

namespace Trusted

/-- Records come to the log. -/
theorem brings (h : p.Trusted) (hbrings : Brings p q) :
    q.Trusted ∧ q.cursor = p.cursor ∧ p.unapplied <+: q.unapplied := by
  obtain ⟨hprocessor, hcursor, hcalm, drafts, hlog, hwithin⟩ := hbrings
  have hsize : q.host.link.log.size = p.host.link.log.size + drafts.length := by
    simp only [Log.size, show q.host.link.log.records = _ from hlog, records,
      List.length_append, Log.length_numbered]
  refine ⟨⟨hprocessor ▸ h.names, h.numbered.append hlog, hcalm.trans h.calm, ?_, ?_, ?_⟩,
    hcursor, ?_⟩
  · intro record hr source hs
    rw [hlog, List.mem_append] at hr
    rw [hsize]
    rcases hr with hold | hnew
    · exact Nat.le_trans (h.within record hold source hs) (Nat.le_add_right _ _)
    · exact hwithin _ (Log.toDraft_mem_of_mem_numbered hnew) source hs
  · rw [hcursor, hsize]
    exact Nat.le_trans h.cursor_le (Nat.le_add_right _ _)
  · intro hcurrent
    rw [hcursor] at hcurrent
    unfold Faithful
    rw [hprocessor, applied_extend h.cursor_le hcursor hlog]
    exact h.current hcurrent
  · rw [unapplied_extend h.cursor_le hcursor hlog]
    exact List.prefix_append _ _

/-- An engine that is not current is known not to be. -/
theorem suspect (h : p.Trusted) (hregistry : q.processor.registry = p.processor.registry)
    (hlast : q.cursor.lastProcessed = p.cursor.lastProcessed)
    (hdue : q.cursor.needsRecovery = true)
    (hcalm : q.host.link.rebuildDue = p.host.link.rebuildDue) (hlog : q.records = p.records) :
    q.Trusted := by
  have hlog' : q.host.link.log.records = p.host.link.log.records := hlog
  refine ⟨hregistry ▸ h.names, ?_, hcalm.trans h.calm, ?_, ?_, ?_⟩
  · unfold Log.Numbered Log.size
    rw [hlog']
    exact h.numbered
  · unfold Log.size
    rw [hlog, hlog']
    exact h.within
  · unfold Log.size
    rw [hlast, hlog']
    exact h.cursor_le
  · intro hcurrent
    rw [hdue] at hcurrent
    cases hcurrent

/-- The next command is applied. -/
theorem next (h : p.Trusted) (hcurrent : p.cursor.needsRecovery = false) {command : Record}
    {rest : List Record} (hnext : p.unapplied = command :: rest) {link : LogLink}
    (hbeside : Beside p.host.link link)
    (hlog : link.log.records = p.records ++ Log.numbered (p.host.link.log.size + 1)
      (p.processor.apply command).1.followUps) :
    (p.advanced link command).Trusted ∧
      (p.advanced link command).cursor.needsRecovery = false ∧
      (p.advanced link command).unapplied = rest := by
  have hmem : command ∈ p.unapplied := hnext ▸ List.mem_cons_self
  have hposition := h.numbered.position_le (mem_unapplied_iff.mp hmem).1
  obtain ⟨happlied, hleft⟩ := applied_next (q := p.advanced link command) h.numbered hnext
    (by rw [advanced_cursor]) ((p.advanced_records link command).trans hlog)
    fun draft hd => (h.names p.processor command rfl draft hd).2
  have hlog' : (p.advanced link command).host.link.log.records =
      p.host.link.log.records ++ Log.numbered (p.host.link.log.size + 1)
        (p.processor.apply command).1.followUps := (p.advanced_records link command).trans hlog
  have hsize : p.host.link.log.size ≤ (p.advanced link command).host.link.log.size := by
    simp only [Log.size, hlog', List.length_append]
    exact Nat.le_add_right _ _
  refine ⟨⟨?_, ?_, ?_, ?_, ?_, ?_⟩, ?_, hleft⟩
  · rw [advanced_eq]
    exact h.names
  · exact h.numbered.append hlog'
  · rw [advanced_link]
    exact hbeside.rebuildDue.trans h.calm
  · intro record hr source hs
    rw [show (p.advanced link command).records = _ from hlog', List.mem_append] at hr
    rcases hr with hold | hnew
    · exact Nat.le_trans (h.within record hold source hs) hsize
    · have hsource := (h.names p.processor command rfl _
        (Log.toDraft_mem_of_mem_numbered hnew)).1
      cases hsource.symm.trans hs
      exact Nat.le_trans hposition hsize
  · rw [advanced_cursor]
    exact Nat.le_trans hposition hsize
  · intro _
    have hfold : p.processor = p.processor.reset.after p.applied := h.current hcurrent
    unfold Faithful
    rw [happlied, Processor.after_append, advanced_eq]
    show (p.processor.apply command).2 = _
    rw [Processor.apply_reset, ← hfold]
    rfl
  · rw [advanced_cursor]
    exact hcurrent

/-- A rebuild that succeeds leads to a faithful state, and one that the cursor asked for and that
fails is still asked for. -/
theorem recover (h : p.Trusted)
    (hasked : p.cursor.needsRecovery = true ∨ ∃ count, p.recover.1 = .ok count) :
    p.recover.2.Trusted ∧ ∀ count, p.recover.1 = .ok count →
      p.recover.2.cursor.needsRecovery = false := by
  obtain ⟨reads, ⟨e, heq⟩ | ⟨before, command, rest, -, -, heq⟩ | ⟨-, heq⟩⟩ :=
    recover_cases h.numbered
  · rw [heq]
    exact ⟨(h.brings (q := p.withReads reads) (.nothing rfl rfl rfl rfl)).1,
      fun _ hok => by cases hok⟩
  · rw [heq] at hasked ⊢
    obtain hasked | ⟨count, hok⟩ := hasked
    · exact ⟨h.suspect (Processor.after_registry _ _) rfl hasked rfl rfl,
        fun _ hok => by cases hok⟩
    · cases hok
  · rw [heq]
    refine ⟨⟨?_, h.numbered, h.calm, h.within, ?_, ?_⟩, fun _ _ => rfl⟩
    · show (p.processor.reset.after _).registry.NamesSource
      rw [Processor.after_registry]
      exact h.names
    · show (Recovery.lastSource? p.records).getD 0 ≤ p.host.link.log.size
      cases hlast : Recovery.lastSource? p.records with
      | none => exact Nat.zero_le _
      | some last =>
          obtain ⟨record, hr, hs⟩ := Recovery.exists_of_lastSource hlast
          exact h.within record hr last hs
    · intro _
      unfold Faithful
      show p.processor.reset.after _ = (p.processor.reset.after _).reset.after _
      rw [Processor.after_reset]
      rfl

theorem recoverIfNeeded (h : p.Trusted) :
    p.recoverIfNeeded.2.Trusted ∧ (p.recoverIfNeeded.1 = .ok () →
      p.recoverIfNeeded.2.cursor.needsRecovery = false) := by
  unfold Partition.recoverIfNeeded
  by_cases hneeds : p.cursor.needsRecovery
  · rw [if_pos hneeds]
    obtain ⟨htrusted, hcurrent⟩ := h.recover (.inl hneeds)
    refine ⟨htrusted, fun hok => ?_⟩
    cases hresult : p.recover.1 with
    | error e =>
        dsimp only at hok
        rw [hresult] at hok
        cases hok
    | ok count => exact hcurrent count hresult
  · rw [if_neg hneeds]
    exact ⟨h, fun _ => by simpa using hneeds⟩

end Trusted

/-! ### What is applied -/

/-- The commands of a list that are applied, each with the partition that it is applied by. -/
def applications : List Record → Partition → List (Partition × Record)
  | [], _ => []
  | command :: commands, p =>
      if !command.isCommand || p.isProcessed command.position then applications commands p
      else
        (p, command) ::
          match p.applyCommand command with
          | (.error _, _) => []
          | (.ok _, q) => applications commands q

/-- What is applied when records are processed: nothing before the state is rebuilt, if need be. -/
def processed (p : Partition) (commands : List Record) : List (Partition × Record) :=
  match p.recoverIfNeeded with
  | (.error _, _) => []
  | (.ok _, q) => applications commands q

theorem Trusted.applications (commands : List Record) : ∀ p : Partition, p.Trusted →
    p.cursor.needsRecovery = false → commands <+: p.unapplied →
    (applyCommands commands p).2.Trusted ∧
      ∀ entry ∈ Partition.applications commands p, entry.1.Faithful := by
  induction commands with
  | nil => intro p h _ _; exact ⟨h, fun entry he => absurd he List.not_mem_nil⟩
  | cons command rest ih =>
      intro p h hcurrent hfront
      obtain ⟨others, hnext⟩ := hfront
      rw [List.cons_append] at hnext
      unfold applyCommands Partition.applications
      simp only [not_skipped hnext.symm, Bool.false_eq_true, if_false]
      obtain ⟨link, hbeside, ⟨e, heq, hlog⟩ | ⟨heq, hlog⟩⟩ := applyCommand_cases h.calm command
      · rw [heq]
        refine ⟨h.suspect rfl rfl rfl hbeside.rebuildDue hlog, fun entry he => ?_⟩
        rw [List.mem_singleton.mp he]
        exact h.current hcurrent
      · obtain ⟨htrusted, hcurrent', hleft⟩ := h.next hcurrent hnext.symm hbeside hlog
        obtain ⟨hend, hfaithful⟩ := ih (p.advanced link command) htrusted hcurrent'
          (by rw [hleft]; exact List.prefix_append _ _)
        rw [heq]
        exact ⟨hend, List.forall_mem_cons.mpr ⟨h.current hcurrent, hfaithful⟩⟩

end Partition

/-! ### What comes from outside -/

/-- What may come to a partition and its log, also from those who do not go through it. -/
inductive Disturbance where
  /-- Something arrives. -/
  | arrive (arrival : Arrival)
  /-- From now on these reads are refused. -/
  | readOutage (reads : Outage)
  /-- Another writer appends to the log. -/
  | append (drafts : List Draft)

namespace Disturbance

/-- The partition after a disturbance. -/
def run (p : Partition) : Disturbance → Partition
  | .arrive arrival => arrival.run p
  | .readOutage reads => p.withReads reads
  | .append drafts => p.withLink
      { p.host.link with
        log := { p.host.link.log with
          records := p.records ++ Log.numbered (p.host.link.log.size + 1) drafts } }

/-- Another writer names no source behind the end of the log. -/
def Within (p : Partition) : Disturbance → Prop
  | .append drafts => ∀ draft ∈ drafts, ∀ source ∈ draft.sourcePosition,
      source ≤ p.host.link.log.size + drafts.length
  | _ => True

/-- The same for one after the other. -/
def AllWithin : List Disturbance → Partition → Prop
  | [], _ => True
  | disturbance :: rest, p => disturbance.Within p ∧ AllWithin rest (disturbance.run p)

variable {p : Partition}

theorem brings (disturbance : Disturbance) (hwithin : disturbance.Within p) :
    p.Brings (disturbance.run p) := by
  cases disturbance with
  | readOutage reads => exact .nothing rfl rfl rfl rfl
  | append drafts => exact ⟨rfl, rfl, rfl, drafts, rfl, hwithin⟩
  | arrive arrival =>
      cases arrival with
      | submit request correlation =>
          show p.Brings (p.submit request correlation).2
          rcases p.submit_cases request correlation with
            ⟨e, heq⟩ | ⟨link, hbeside, -, ⟨e, heq, hlog⟩ | ⟨heq, hlog⟩⟩
          · rw [heq]
            exact .nothing rfl rfl rfl rfl
          · rw [heq]
            exact .nothing rfl rfl hbeside.rebuildDue hlog
          · rw [heq]
            exact .commands rfl rfl hbeside.rebuildDue hlog fun draft hd => by
              rw [List.mem_singleton.mp hd]
              rfl
      | submitInternal request =>
          show p.Brings (p.submitInternal request).2
          obtain ⟨link, hbeside, heq, hlog | hlog⟩ := p.submitInternal_cases request
          · rw [heq]
            exact .nothing rfl rfl hbeside.rebuildDue hlog
          · rw [heq]
            exact .commands rfl rfl hbeside.rebuildDue hlog fun draft hd => by
              rw [List.mem_singleton.mp hd]
              rfl
      | take pending => exact .nothing rfl rfl rfl rfl
      | setClock clock => exact .nothing rfl rfl rfl rfl
      | outage appends => exact .nothing rfl rfl rfl rfl
      | refuseNext count => exact .nothing rfl rfl rfl rfl

/-- Disturbances keep the trust, and what arrives stands behind what is left to apply. -/
theorem trusted (disturbances : List Disturbance) : ∀ p : Partition, p.Trusted →
    AllWithin disturbances p →
    (disturbances.foldl run p).Trusted ∧ (disturbances.foldl run p).cursor = p.cursor ∧
      p.unapplied <+: (disturbances.foldl run p).unapplied := by
  induction disturbances with
  | nil => intro p h _; exact ⟨h, rfl, List.prefix_rfl⟩
  | cons disturbance rest ih =>
      intro p h hwithin
      obtain ⟨hnext, hcursor, hfront⟩ := h.brings (disturbance.brings hwithin.1)
      obtain ⟨hend, hcursors, hfronts⟩ := ih (disturbance.run p) hnext hwithin.2
      exact ⟨hend, hcursors.trans hcursor, hfront.trans hfronts⟩

end Disturbance

namespace Partition

variable {p q r : Partition}

/-! ### Rounds -/

namespace Trusted

theorem checkDueTimers (h : p.Trusted) : p.Brings p.checkDueTimers.2 := by
  obtain ⟨link, hbeside, ⟨e, heq, hlog⟩ | ⟨heq, hlog⟩⟩ := checkDueTimers_cases h.calm
  · rw [heq]
    exact .nothing rfl rfl hbeside.rebuildDue hlog
  · rw [heq]
    refine .commands rfl rfl hbeside.rebuildDue hlog fun draft hd => ?_
    obtain ⟨timer, -, rfl⟩ := List.mem_map.mp hd
    rfl

theorem sweepExpiredLeases (h : p.Trusted) : p.Brings p.sweepExpiredLeases.2 := by
  obtain ⟨link, hbeside, ⟨e, heq, hlog⟩ | ⟨heq, hlog⟩⟩ := sweepExpiredLeases_cases h.calm
  · rw [heq]
    exact .nothing rfl rfl hbeside.rebuildDue hlog
  · rw [heq]
    refine .commands rfl rfl hbeside.rebuildDue hlog fun draft hd => ?_
    obtain ⟨entry, hentry, rfl⟩ := List.mem_map.mp hd
    obtain ⟨-, job, -, hdraft⟩ := mem_swept hentry
    rw [hdraft]
    rfl

theorem readUnprocessed (h : p.Trusted) (max : Nat) :
    p.Brings (p.readUnprocessed max).2 ∧ ∀ commands, (p.readUnprocessed max).1 = .ok commands →
      commands = p.unapplied.take max := by
  obtain ⟨reads, ⟨e, hread⟩ | hread⟩ :=
    LogLink.readCommands_cases h.numbered p.cursor.lastProcessed max
  · unfold Partition.readUnprocessed
    rw [hread]
    exact ⟨.nothing rfl rfl rfl rfl, fun commands hok => by cases hok⟩
  · unfold Partition.readUnprocessed
    rw [hread]
    refine ⟨.nothing rfl rfl rfl rfl, fun commands hok => ?_⟩
    cases hok
    rw [unapplied_eq h.numbered]
    rfl

/-- Preparing a round keeps the trust, and what it reads is the first part of what is left. -/
theorem prepareRound (h : p.Trusted) (max : Nat) :
    (p.prepareRound max).2.Trusted ∧ ∀ commands, (p.prepareRound max).1 = .ok commands →
      (p.prepareRound max).2.cursor.needsRecovery = false ∧
        commands <+: (p.prepareRound max).2.unapplied := by
  obtain ⟨h₁, hcurrent₁⟩ := h.recoverIfNeeded
  unfold Partition.prepareRound
  rcases hrecover : p.recoverIfNeeded with ⟨e | ⟨⟩, p₁⟩
  · rw [hrecover] at h₁
    exact ⟨h₁, fun commands hok => by cases hok⟩
  · rw [hrecover] at h₁ hcurrent₁
    dsimp only at h₁ hcurrent₁ ⊢
    obtain ⟨h₂, hcursor₂, -⟩ := h₁.brings h₁.checkDueTimers
    rcases htimers : p₁.checkDueTimers with ⟨e | _, p₂⟩
    · rw [htimers] at h₂
      exact ⟨h₂, fun commands hok => by cases hok⟩
    · rw [htimers] at h₂ hcursor₂
      dsimp only at h₂ hcursor₂ ⊢
      obtain ⟨h₃, hcursor₃, -⟩ := h₂.brings h₂.sweepExpiredLeases
      rcases hleases : p₂.sweepExpiredLeases with ⟨e | _, p₃⟩
      · rw [hleases] at h₃
        exact ⟨h₃, fun commands hok => by cases hok⟩
      · rw [hleases] at h₃ hcursor₃
        dsimp only at h₃ hcursor₃ ⊢
        obtain ⟨hbrings, hfound⟩ := h₃.readUnprocessed max
        obtain ⟨h₄, hcursor₄, hfront₄⟩ := h₃.brings hbrings
        refine ⟨h₄, fun commands hok => ⟨?_, ?_⟩⟩
        · rw [hcursor₄, hcursor₃, hcursor₂]
          exact hcurrent₁ rfl
        · rw [hfound commands hok]
          exact (List.take_prefix _ _).trans hfront₄

end Trusted

/-- A round of any size, with disturbances between its reading and its applying. -/
def disturbedRound (p : Partition) (max : Nat) (between : List Disturbance) :
    Except PartitionError Nat × Partition :=
  match p.prepareRound max with
  | (.error e, q) => (.error e, q)
  | (.ok commands, q) => (between.foldl Disturbance.run q).processCommands commands

/-- What such a round applies. -/
def roundApplications (p : Partition) (max : Nat) (between : List Disturbance) :
    List (Partition × Record) :=
  match p.prepareRound max with
  | (.error _, _) => []
  | (.ok commands, q) => (between.foldl Disturbance.run q).processed commands

theorem Trusted.disturbedRound (h : p.Trusted) (max : Nat) (between : List Disturbance)
    (hwithin : Disturbance.AllWithin between (p.prepareRound max).2) :
    (p.disturbedRound max between).2.Trusted ∧
      ∀ entry ∈ p.roundApplications max between, entry.1.Faithful := by
  obtain ⟨hprepared, hread⟩ := h.prepareRound max
  unfold Partition.disturbedRound roundApplications
  rcases hprepare : p.prepareRound max with ⟨e | commands, q⟩
  · rw [hprepare] at hprepared
    exact ⟨hprepared, fun entry he => absurd he List.not_mem_nil⟩
  · rw [hprepare] at hprepared hread hwithin
    obtain ⟨hcurrent, hfront⟩ := hread commands rfl
    obtain ⟨hamid, hcursor, hfronts⟩ := Disturbance.trusted between q hprepared hwithin
    have hcurrent' : (between.foldl Disturbance.run q).cursor.needsRecovery = false := by
      rw [hcursor]
      exact hcurrent
    dsimp only
    unfold processed
    rw [processCommands_of_current hcurrent', recoverIfNeeded_of_current hcurrent']
    exact Trusted.applications commands _ hamid hcurrent' (hfront.trans hfronts)

/-! ### What comes after a rebuild -/

/-- A way for a partition to go on, with all that is applied on it.  Disturbances come at any
moment, rounds of any size are run, and the state is rebuilt, with success or because the cursor
asks for it. -/
inductive Course (p : Partition) : Partition → List (Partition × Record) → Prop
  | here : Course p p []
  | disturbed {q : Partition} {told : List (Partition × Record)} (hcourse : Course p q told)
      (disturbance : Disturbance) (hwithin : disturbance.Within q) :
      Course p (disturbance.run q) told
  | recovered {q : Partition} {told : List (Partition × Record)} (hcourse : Course p q told)
      (hasked : q.cursor.needsRecovery = true ∨ ∃ count, q.recover.1 = .ok count) :
      Course p q.recover.2 told
  | round {q : Partition} {told : List (Partition × Record)} (hcourse : Course p q told)
      (max : Nat) (between : List Disturbance)
      (hwithin : Disturbance.AllWithin between (q.prepareRound max).2) :
      Course p (q.disturbedRound max between).2 (told ++ q.roundApplications max between)

/-- **All that is applied on the way of a trusted partition is applied to a faithful state.** -/
theorem Course.faithful {told : List (Partition × Record)} (hcourse : Course p q told)
    (h : p.Trusted) : q.Trusted ∧ ∀ entry ∈ told, entry.1.Faithful := by
  induction hcourse with
  | here => exact ⟨h, fun entry he => absurd he List.not_mem_nil⟩
  | disturbed hcourse disturbance hwithin ih =>
      exact ⟨(ih.1.brings (disturbance.brings hwithin)).1, ih.2⟩
  | recovered hcourse hasked ih => exact ⟨(ih.1.recover hasked).1, ih.2⟩
  | round hcourse max between hwithin ih =>
      obtain ⟨htrusted, hfaithful⟩ := ih.1.disturbedRound max between hwithin
      exact ⟨htrusted, List.forall_mem_append.mpr ⟨ih.2, hfaithful⟩⟩

/-- **What a rebuild that fails leaves behind.**  The log and the cursor are as before.  The engine
is as before, or it is where the replay has led when a command was refuted.  So either the state is
as before or a rebuild is asked for, unless the replay has led elsewhere and none was asked for
before.  Then, if the partition was to be trusted, all that is ever applied is applied to the fold
of the commands that count as applied.  Otherwise the next command that is processed is applied to a
state that is not that fold. -/
theorem recover_failed {cause : PartitionError} (hnum : p.host.link.log.Numbered)
    (hfail : p.recover = (.error cause, q)) :
    q.records = p.records ∧ q.cursor = p.cursor ∧
    (q.processor = p.processor ∨ ∃ before command rest,
      Recovery.appliedCommands p.records = before ++ command :: rest ∧
        q.processor = p.processor.reset.after (before ++ [command])) ∧
    ((q.state = p.state ∧ q.cursor = p.cursor) ∨ q.cursor.needsRecovery = true ↔
      q.state = p.state ∨ p.cursor.needsRecovery = true) ∧
    (p.Trusted → q.state = p.state ∨ p.cursor.needsRecovery = true →
      ∀ later told, Course q later told → ∀ entry ∈ told, entry.1.Faithful) ∧
    (p.Trusted → q.state ≠ p.state → p.cursor.needsRecovery = false →
      ¬ q.Faithful ∧ ∀ command rest, q.unapplied = command :: rest →
        ∀ more, (q, command) ∈ q.processed (command :: more)) := by
  have hends : q.records = p.records ∧ q.cursor = p.cursor ∧
      q.host.link.rebuildDue = p.host.link.rebuildDue ∧
      q.processor.reset = p.processor.reset ∧ q.processor.registry = p.processor.registry ∧
      (q.processor = p.processor ∨ ∃ before command rest,
        Recovery.appliedCommands p.records = before ++ command :: rest ∧
          q.processor = p.processor.reset.after (before ++ [command])) := by
    obtain ⟨reads, ⟨e, heq⟩ | ⟨before, command, rest, hsplit, -, heq⟩ | ⟨-, heq⟩⟩ :=
      recover_cases hnum
    · cases heq.symm.trans hfail
      exact ⟨rfl, rfl, rfl, rfl, rfl, .inl rfl⟩
    · cases heq.symm.trans hfail
      exact ⟨rfl, rfl, rfl, Processor.after_reset _ _, Processor.after_registry _ _,
        .inr ⟨before, command, rest, hsplit, rfl⟩⟩
    · cases heq.symm.trans hfail
  obtain ⟨hrecords, hcursor, hdue, hreset, hregistry, hprocessor⟩ := hends
  have happlied : q.applied = p.applied := by
    unfold applied isProcessed
    rw [hrecords, hcursor]
  -- The partition id, the handlers and the evaluator are kept, so the state tells engines apart.
  have hengine : q.state = p.state → q.processor = p.processor := by
    intro hstate
    have hstate' : q.processor.state = p.processor.state := hstate
    have hid := congrArg Processor.partitionId hreset
    have hhandlers := congrArg Processor.registry hreset
    have hevaluator := congrArg Processor.evaluator hreset
    cases hq : q.processor
    cases hp : p.processor
    rw [hq, hp] at hstate' hid hhandlers hevaluator
    simp_all [Processor.reset]
  refine ⟨hrecords, hcursor, hprocessor, ?dichotomy, ?trusted, ?halfway⟩
  case dichotomy =>
    rw [hcursor]
    exact or_congr_left (and_iff_left rfl)
  case trusted =>
    intro h hkept later told hcourse
    refine (hcourse.faithful ?_).2
    rcases hkept with hstate | hasked
    · exact (h.brings (.nothing (hengine hstate) hcursor hdue hrecords)).1
    · exact h.suspect hregistry (congrArg Cursor.lastProcessed hcursor)
        ((congrArg Cursor.needsRecovery hcursor).trans hasked) hdue hrecords
  case halfway =>
    intro h hstate hcurrent
    refine ⟨fun hfaithful => hstate ?_, ?_⟩
    · unfold Faithful at hfaithful
      rw [hreset, happlied, ← h.current hcurrent] at hfaithful
      exact congrArg Processor.state hfaithful
    · intro command rest hnext more
      unfold processed
      rw [recoverIfNeeded_of_current ((congrArg Cursor.needsRecovery hcursor).trans hcurrent)]
      dsimp only
      unfold applications
      simp only [not_skipped hnext, Bool.false_eq_true, if_false]
      exact List.mem_cons_self

/-- A job is to be created. -/
def jobRequest : CommandRequest := ⟨none, .job .create, .job { jobType := "a", retries := 1 }⟩

/-- Another writer's event, which is none of the follow-ups of the first command. -/
def foreignEvent : Draft :=
  { sourcePosition := some 1, key := some 1, kind := .event, valueType := .job,
    intent := .job .completed, value := .job { jobType := "a", retries := 1 },
    timestamp := .epoch }

/-- A partition that has opened on an empty log. -/
def fresh : Partition :=
  (unbuilt { clock := ⟨.epoch⟩ } .unavailable {}).rebuilt (LogLink.afterReads {} 1)

/-- A job is created, but its event is refused, so the state is ahead of the log.  Then another
writer appends to the log. -/
def aheadOfLog : Partition :=
  let p := (fresh.submitInternal jobRequest).2
  let p := Disturbance.run p (.arrive (.outage (.window 0 1)))
  Disturbance.run p.processRound.2 (.append [foreignEvent])

theorem recover_failed_ahead :
    aheadOfLog.host.link.log.Numbered ∧ aheadOfLog.recover.1.toOption = none ∧
      aheadOfLog.Trusted ∧ aheadOfLog.cursor.needsRecovery = true ∧
      aheadOfLog.recover.2.cursor.needsRecovery = true ∧
      ∀ later told, Course aheadOfLog.recover.2 later told →
        ∀ entry ∈ told, entry.1.Faithful := by
  have hnum : aheadOfLog.host.link.log.Numbered := by
    unfold Log.Numbered
    decide +kernel
  have hasked : aheadOfLog.cursor.needsRecovery = true := by decide +kernel
  have htrusted : aheadOfLog.Trusted :=
    { names := Registry.namesSource_builtin
      numbered := hnum
      calm := by decide +kernel
      within := by decide +kernel
      cursor_le := by decide +kernel
      current := fun hcurrent => by cases hasked.symm.trans hcurrent }
  have hnone : aheadOfLog.recover.1.toOption = none := by decide +kernel
  rcases hfail : aheadOfLog.recover with ⟨cause | count, q⟩
  · obtain ⟨-, hcursor, -, -, hfaithful, -⟩ := recover_failed hnum hfail
    exact ⟨hnum, rfl, htrusted, hasked, (congrArg Cursor.needsRecovery hcursor).trans hasked,
      hfaithful htrusted (.inr hasked)⟩
  · rw [hfail] at hnone
    cases hnone

/-- Two jobs are created, another writer appends to the log, and the state is rebuilt. -/
def halfway : Except PartitionError Nat × Partition :=
  let p := ((fresh.submitInternal jobRequest).2.submitInternal jobRequest).2
  (Disturbance.run (processUntilIdle 3 p).2 (.append [foreignEvent])).recover

/-- The rebuild is refuted at the first command.  It leaves an engine that has given out one key,
where two commands count as applied, and nothing asks for another rebuild.  The command that arrives
next is applied to that engine. -/
theorem halfway_state_applied :
    let p := halfway.2
    let q := (p.submitInternal jobRequest).2
    halfway.1.toOption = none ∧ p.cursor.needsRecovery = false ∧ p.applied.length = 2 ∧
      p.state.keyCounter = 1 ∧ (p.processor.reset.after p.applied).state.keyCounter = 2 ∧
      q.processRound.1.toOption = some 1 ∧
      ((q.roundApplications q.config.maxCommandsPerRound []).map
        fun entry => (entry.2.position, entry.1.state.keyCounter)) = [(8, 1)] := by
  decide +kernel

end Partition

end Workflow
