/-
A partition agrees with its log.

`Sourced` is the invariant.  Up to the cursor, the follow-ups that the log holds for each command
are those that the command leaves behind when all commands are applied in order from the empty
state; nothing in the log follows from a later command; and the state is the one that fold ends
in, unless the partition knows that it may be ahead.

The log is the part that never errs, so all but the last field say something about it alone.  That
is why a failed append does no harm: it spoils the last field only, and the rebuild restores it
from the others.  A rebuild may move the cursor backwards, to the last command that anything
follows from.  The commands it gives up are ones that nothing follows from, and those leave the
state alone.
-/
import Workflow.Partition.Client
import Workflow.Proofs.Engine.Outcome
import Workflow.Proofs.Log.Reading

namespace Workflow

/-! ### Follow-ups in a log -/

namespace Recovery

/-- The follow-ups of a command among records to which drafts were appended. -/
theorem followUpsOf_append (records : List Record) (position : Nat) (drafts : List Draft)
    (source : Nat) :
    followUpsOf (records ++ Log.numbered position drafts) source =
      followUpsOf records source ++
        drafts.filter fun draft => draft.sourcePosition == some source := by
  have hnew : ((Log.numbered position drafts).filter fun record =>
      record.sourcePosition == some source).map Record.toDraft =
        drafts.filter fun draft => draft.sourcePosition == some source := by
    conv_rhs => rw [← Log.toDraft_numbered drafts position, List.filter_map]
    rfl
  simp only [followUpsOf, List.filter_append, List.map_append]
  rw [← hnew]

theorem followUpsOf_eq_nil {records : List Record} {source : Nat}
    (h : ∀ record ∈ records, record.sourcePosition ≠ some source) :
    followUpsOf records source = [] := by
  simp only [followUpsOf, List.map_eq_nil_iff, List.filter_eq_nil_iff, beq_iff_eq]
  exact h

/-- The last source is no earlier than any other. -/
theorem le_lastSource {records : List Record} {record : Record} {source : Nat}
    (hr : record ∈ records) (hs : record.sourcePosition = some source) :
    ∃ last, lastSource? records = some last ∧ source ≤ last := by
  have hmem : source ∈ records.filterMap fun record => record.sourcePosition :=
    List.mem_filterMap.mpr ⟨record, hr, hs⟩
  cases hmax : lastSource? records with
  | none =>
      simp only [lastSource?, List.max?_eq_none_iff] at hmax
      rw [hmax] at hmem
      simp at hmem
  | some last =>
      refine ⟨last, rfl, ?_⟩
      exact ((List.max?_eq_some_iff).mp hmax).2 source hmem

/-- The last source is the source of some record. -/
theorem exists_of_lastSource {records : List Record} {last : Nat}
    (h : lastSource? records = some last) :
    ∃ record ∈ records, record.sourcePosition = some last := by
  have hmem := ((List.max?_eq_some_iff).mp h).1
  obtain ⟨record, hr, hs⟩ := List.mem_filterMap.mp hmem
  exact ⟨record, hr, hs⟩

/-- A replay that finds what it produces runs to the end. -/
theorem replay_eq (records commands : List Record) :
    ∀ processor : Processor,
      (commands.map fun command => followUpsOf records command.position) =
        (processor.outcomes commands).map Outcome.followUps →
      replay records commands processor = (.ok commands.length, processor.after commands) := by
  induction commands with
  | nil => intro processor _; rfl
  | cons command rest ih =>
      intro processor h
      simp only [List.map_cons, Processor.outcomes, List.cons.injEq] at h
      obtain ⟨hfirst, hrest⟩ := h
      simp only [replay, ← hfirst, if_true, ih _ hrest]
      rfl

end Recovery

/-! ### Appends -/

namespace LogLink

/-- An append is refused, and then the log stays as it is, or its drafts become the last records. -/
theorem appendBatch_cases (link : LogLink) (drafts : List Draft) :
    ∃ link' : LogLink, link'.reads = link.reads ∧ link'.rebuildDue = link.rebuildDue ∧
      ((∃ e, link.appendBatch drafts = (.error e, link') ∧
          link'.log.records = link.log.records) ∨
        (∃ positions, link.appendBatch drafts = (.ok positions, link') ∧
          link'.log.records = link.log.records ++ Log.numbered (link.log.size + 1) drafts)) := by
  obtain ⟨⟨records, refusals⟩, appends, reads, due⟩ := link
  refine ⟨(appendBatch ⟨⟨records, refusals⟩, appends, reads, due⟩ drafts).2, ?_⟩
  cases hrefused : appends.refuses appends.calls with
  | true => simp [appendBatch, guardAppend, Outage.next, hrefused]
  | false =>
      cases refusals <;>
        simp [appendBatch, guardAppend, Outage.next, Log.appendBatch, hrefused]

/-- The same for one draft, which gets the position after the last one. -/
theorem append_cases (link : LogLink) (draft : Draft) :
    ∃ link' : LogLink, link'.reads = link.reads ∧ link'.rebuildDue = link.rebuildDue ∧
      ((∃ e, link.append draft = (.error e, link') ∧ link'.log.records = link.log.records) ∨
        (link.append draft = (.ok (link.log.size + 1), link') ∧
          link'.log.records = link.log.records ++ Log.numbered (link.log.size + 1) [draft])) := by
  obtain ⟨⟨records, refusals⟩, appends, reads, due⟩ := link
  refine ⟨(append ⟨⟨records, refusals⟩, appends, reads, due⟩ draft).2, ?_⟩
  cases hrefused : appends.refuses appends.calls with
  | true => simp [append, guardAppend, Outage.next, hrefused]
  | false =>
      cases refusals <;>
        simp [append, guardAppend, Outage.next, Log.append, Log.appendBatch, Except.map, hrefused]

end LogLink

/-! ### The invariant -/

namespace Partition

/-- The commands of the log up to the cursor. -/
def applied (p : Partition) : List Record :=
  p.records.filter fun record => record.isCommand && p.isProcessed record.position

/-- The commands of the log after the cursor. -/
def unapplied (p : Partition) : List Record :=
  p.records.filter fun record => record.isCommand && !p.isProcessed record.position

/-- The engine of the partition before the first command. -/
def initialEngine (p : Partition) (evaluator : Evaluator) : Processor :=
  .start p.config.partitionId .builtin evaluator

/-- The partition agrees with its log. -/
structure Sourced (evaluator : Evaluator) (p : Partition) : Prop where
  /-- The engine has the built-in handlers, the evaluator and the partition id. -/
  reset : p.processor.reset = p.initialEngine evaluator
  /-- Positions have no gaps. -/
  numbered : p.host.link.log.Numbered
  /-- The log can be read. -/
  readable : p.host.link.Readable
  /-- The storage asks for no rebuild. -/
  calm : p.host.link.rebuildDue = false
  /-- The cursor does not point beyond the log. -/
  cursor_le : p.cursor.lastProcessed.getD 0 ≤ p.host.link.log.size
  /-- The log holds what the applied commands leave behind. -/
  followUps : (p.applied.map fun command => Recovery.followUpsOf p.records command.position) =
    ((p.initialEngine evaluator).outcomes p.applied).map Outcome.followUps
  /-- Whatever follows from a command follows from an applied one. -/
  sources : ∀ record ∈ p.records, ∀ source, record.sourcePosition = some source →
    ∃ command ∈ p.applied, command.position = source
  /-- The state is the one that the applied commands lead to. -/
  current : p.cursor.needsRecovery = false →
    p.processor = (p.initialEngine evaluator).after p.applied

variable {evaluator : Evaluator} {p : Partition}

theorem isProcessed_iff (p : Partition) {position : Nat} (hpos : 0 < position) :
    p.isProcessed position = decide (position ≤ p.cursor.lastProcessed.getD 0) := by
  unfold isProcessed
  cases p.cursor.lastProcessed with
  | none => simp; omega
  | some last => simp

/-- Without gaps, the applied commands are those among the first records. -/
theorem applied_eq (hnum : p.host.link.log.Numbered) :
    p.applied = (p.records.take (p.cursor.lastProcessed.getD 0)).filter Record.isCommand := by
  have h := Log.filter_position_le Record.isCommand (p.cursor.lastProcessed.getD 0)
    p.records 1 hnum
  rw [Nat.add_sub_cancel] at h
  rw [← h]
  refine List.filter_congr fun record hr => ?_
  rw [isProcessed_iff p (hnum.position_pos hr)]

/-- Without gaps, the commands that are not applied are those among the other records. -/
theorem unapplied_eq (hnum : p.host.link.log.Numbered) :
    p.unapplied = (p.records.drop (p.cursor.lastProcessed.getD 0)).filter Record.isCommand := by
  have h := Log.filter_position_gt Record.isCommand (p.cursor.lastProcessed.getD 0)
    p.records 1 hnum
  rw [Nat.add_sub_cancel] at h
  rw [← h]
  refine List.filter_congr fun record hr => ?_
  rw [isProcessed_iff p (hnum.position_pos hr)]

theorem mem_applied_iff {command : Record} : command ∈ p.applied ↔
    command ∈ p.records ∧ command.isCommand ∧ p.isProcessed command.position := by
  simp [applied, List.mem_filter]

theorem mem_unapplied_iff {command : Record} : command ∈ p.unapplied ↔
    command ∈ p.records ∧ command.isCommand ∧ p.isProcessed command.position = false := by
  simp [unapplied, List.mem_filter]

theorem le_of_isProcessed {position : Nat} (h : p.isProcessed position) :
    position ≤ p.cursor.lastProcessed.getD 0 := by
  unfold isProcessed at h
  cases hlast : p.cursor.lastProcessed with
  | none => rw [hlast] at h; simp at h
  | some last => rw [hlast] at h; simpa using h

/-! ### Where the cursor divides the log -/

section Cursor

variable {q : Partition} {command : Record} {rest : List Record} {drafts : List Draft}

/-- Records that come to the log are not applied. -/
theorem applied_extend (hle : p.cursor.lastProcessed.getD 0 ≤ p.host.link.log.size)
    (hcursor : q.cursor = p.cursor)
    (hlog : q.records = p.records ++ Log.numbered (p.host.link.log.size + 1) drafts) :
    q.applied = p.applied := by
  have hsame : ∀ position, q.isProcessed position = p.isProcessed position := by
    intro position
    simp only [isProcessed, hcursor]
  have hnew : (Log.numbered (p.host.link.log.size + 1) drafts).filter
      (fun record => record.isCommand && p.isProcessed record.position) = [] := by
    refine List.filter_eq_nil_iff.mpr fun record hr => ?_
    have hmem := List.mem_map_of_mem (f := Record.position) hr
    rw [Log.position_numbered, List.mem_range'_1] at hmem
    intro hboth
    rw [Bool.and_eq_true] at hboth
    have := le_of_isProcessed hboth.2
    omega
  simp only [applied, hlog, List.filter_append, hsame, hnew, List.append_nil]

theorem unapplied_extend (hle : p.cursor.lastProcessed.getD 0 ≤ p.host.link.log.size)
    (hcursor : q.cursor = p.cursor)
    (hlog : q.records = p.records ++ Log.numbered (p.host.link.log.size + 1) drafts) :
    q.unapplied = p.unapplied ++
      (Log.numbered (p.host.link.log.size + 1) drafts).filter Record.isCommand := by
  have hsame : ∀ position, q.isProcessed position = p.isProcessed position := by
    intro position
    simp only [isProcessed, hcursor]
  have hnew : (Log.numbered (p.host.link.log.size + 1) drafts).filter
      (fun record => record.isCommand && !p.isProcessed record.position) =
        (Log.numbered (p.host.link.log.size + 1) drafts).filter Record.isCommand := by
    refine List.filter_congr fun record hr => ?_
    have hmem := List.mem_map_of_mem (f := Record.position) hr
    rw [Log.position_numbered, List.mem_range'_1] at hmem
    have hnot : p.isProcessed record.position = false := by
      by_contra hc
      have := le_of_isProcessed (by simpa using hc)
      omega
    simp [hnot]
  simp only [unapplied, hlog, List.filter_append, hsame, hnew]

/-- The commands of the log are the applied ones and those that are not. -/
theorem commands_eq (hnum : p.host.link.log.Numbered) :
    p.records.filter Record.isCommand = p.applied ++ p.unapplied := by
  rw [applied_eq hnum, unapplied_eq hnum, ← List.filter_append,
    List.take_append_drop]

/-- The next command stands between the applied ones and the others. -/
theorem position_next (hnum : p.host.link.log.Numbered) (hnext : p.unapplied = command :: rest) :
    (∀ other ∈ p.applied, other.position < command.position) ∧
      (∀ other ∈ rest, command.position < other.position) := by
  have hpairs := hnum.pairwise.sublist (List.filter_sublist (p := Record.isCommand))
  have hsplit : p.host.link.log.records.filter Record.isCommand = p.applied ++ p.unapplied :=
    commands_eq hnum
  rw [hsplit, hnext, List.pairwise_append, List.pairwise_cons] at hpairs
  obtain ⟨-, ⟨hrest, -⟩, happlied⟩ := hpairs
  exact ⟨fun other ho => happlied other ho command List.mem_cons_self, hrest⟩

/-- A command that is left stands after the cursor. -/
theorem lt_of_mem_unapplied (hnum : p.host.link.log.Numbered) (hmem : command ∈ p.unapplied) :
    p.cursor.lastProcessed.getD 0 < command.position := by
  obtain ⟨hrecord, -, hnot⟩ := mem_unapplied_iff.mp hmem
  rw [isProcessed_iff p (hnum.position_pos hrecord)] at hnot
  exact Nat.lt_of_not_le (of_decide_eq_false hnot)

/-- When the cursor moves to the next command, that one is applied and the others are not. -/
theorem applied_next (hnum : p.host.link.log.Numbered) (hnext : p.unapplied = command :: rest)
    (hcursor : q.cursor.lastProcessed = some command.position)
    (hlog : q.records = p.records ++ Log.numbered (p.host.link.log.size + 1) drafts)
    (hevents : ∀ draft ∈ drafts, draft.kind ≠ .command) :
    q.applied = p.applied ++ [command] ∧ q.unapplied = rest := by
  obtain ⟨hbefore, hafter⟩ := position_next hnum hnext
  have hprocessed : ∀ position,
      q.isProcessed position = decide (position ≤ command.position) := by
    intro position
    simp only [isProcessed, hcursor, Option.any_some]
  have hnone : (Log.numbered (p.host.link.log.size + 1) drafts).filter Record.isCommand = [] := by
    refine List.filter_eq_nil_iff.mpr fun record hr => ?_
    have hkind := hevents _ (Log.toDraft_mem_of_mem_numbered hr)
    simpa [Record.isCommand] using hkind
  have hcommands : q.records.filter Record.isCommand = p.applied ++ command :: rest := by
    rw [hlog, List.filter_append, hnone, List.append_nil, commands_eq hnum, hnext]
  have hold : ∀ other ∈ p.applied, decide (other.position ≤ command.position) = true :=
    fun other ho => decide_eq_true (Nat.le_of_lt (hbefore other ho))
  have hlate : ∀ other ∈ rest, decide (other.position ≤ command.position) = false :=
    fun other ho => decide_eq_false (Nat.not_le_of_lt (hafter other ho))
  constructor
  · have hfilter : q.applied =
        (q.records.filter Record.isCommand).filter fun r => q.isProcessed r.position := by
      rw [List.filter_filter]
      exact List.filter_congr fun r _ => Bool.and_comm _ _
    rw [hfilter, hcommands]
    simp only [hprocessed]
    rw [List.filter_append, List.filter_cons, List.filter_eq_self.mpr hold,
      List.filter_eq_nil_iff.mpr fun other ho => by simp only [hlate other ho]; decide]
    simp
  · have hfilter : q.unapplied =
        (q.records.filter Record.isCommand).filter fun r => !q.isProcessed r.position := by
      rw [List.filter_filter]
      exact List.filter_congr fun r _ => Bool.and_comm _ _
    rw [hfilter, hcommands]
    simp only [hprocessed]
    rw [List.filter_append, List.filter_cons,
      List.filter_eq_nil_iff.mpr fun other ho => by simp only [hold other ho]; decide,
      List.filter_eq_self.mpr fun other ho => by simp only [hlate other ho]; decide]
    simp

end Cursor

namespace Sourced

theorem builtin (h : Sourced evaluator p) : p.processor.registry = .builtin := by
  have := congrArg Processor.registry h.reset
  exact this

/-- What follows from a command stands at or before the cursor. -/
theorem source_le (h : Sourced evaluator p) {record : Record} (hr : record ∈ p.records)
    {source : Nat} (hs : record.sourcePosition = some source) :
    source ≤ p.cursor.lastProcessed.getD 0 := by
  obtain ⟨command, hc, rfl⟩ := h.sources record hr source hs
  exact le_of_isProcessed (mem_applied_iff.mp hc).2.2

/-- The last command with follow-ups stands at or before the cursor. -/
theorem lastSource_le (h : Sourced evaluator p) :
    (Recovery.lastSource? p.records).getD 0 ≤ p.cursor.lastProcessed.getD 0 := by
  cases hlast : Recovery.lastSource? p.records with
  | none => exact Nat.zero_le _
  | some last =>
      obtain ⟨record, hr, hs⟩ := Recovery.exists_of_lastSource hlast
      exact h.source_le hr hs

/-- Nothing in the log follows from a command after the cursor. -/
theorem followUpsOf_unapplied (h : Sourced evaluator p) {position : Nat}
    (hpos : p.cursor.lastProcessed.getD 0 < position) :
    Recovery.followUpsOf p.records position = [] := by
  refine Recovery.followUpsOf_eq_nil fun record hr hs => ?_
  have := h.source_le hr hs
  omega

/-! ### Commands arrive -/

section Extend

variable {q : Partition} {drafts : List Draft}

/-- Commands that arrive stand behind what is left. -/
theorem unapplied_commands (h : Sourced evaluator p) (hcursor : q.cursor = p.cursor)
    (hlog : q.records = p.records ++ Log.numbered (p.host.link.log.size + 1) drafts)
    (hcommands : ∀ draft ∈ drafts, draft.kind = .command) :
    q.unapplied = p.unapplied ++ Log.numbered (p.host.link.log.size + 1) drafts := by
  rw [unapplied_extend h.cursor_le hcursor hlog, List.filter_eq_self.mpr]
  intro record hr
  have hkind : record.kind = .command := hcommands _ (Log.toDraft_mem_of_mem_numbered hr)
  simpa [Record.isCommand] using hkind

/-- A command that arrives is left. -/
theorem exists_unapplied (h : Sourced evaluator p) (hcursor : q.cursor = p.cursor)
    (hlog : q.records = p.records ++ Log.numbered (p.host.link.log.size + 1) drafts)
    {draft : Draft} (hmem : draft ∈ drafts) (hkind : draft.kind = .command) :
    ∃ command ∈ q.unapplied, command.toDraft = draft := by
  rw [← Log.toDraft_numbered drafts (p.host.link.log.size + 1)] at hmem
  obtain ⟨command, hc, rfl⟩ := List.mem_map.mp hmem
  refine ⟨command, ?_, rfl⟩
  rw [unapplied_extend h.cursor_le hcursor hlog]
  refine List.mem_append_right _ (List.mem_filter.mpr ⟨hc, ?_⟩)
  simp [Record.isCommand, hkind]

/-- Records that follow from no command change nothing that the invariant speaks about. -/
theorem extend (h : Sourced evaluator p) (drafts : List Draft) (hconfig : q.config = p.config)
    (hprocessor : q.processor = p.processor) (hcursor : q.cursor = p.cursor)
    (hreads : q.host.link.reads.refuses = p.host.link.reads.refuses)
    (hcalm : q.host.link.rebuildDue = p.host.link.rebuildDue)
    (hlog : q.records = p.records ++ Log.numbered (p.host.link.log.size + 1) drafts)
    (hsources : ∀ draft ∈ drafts, draft.sourcePosition = none) : Sourced evaluator q := by
  have hengine : q.initialEngine evaluator = p.initialEngine evaluator := by
    simp only [initialEngine, hconfig]
  have happlied := applied_extend h.cursor_le hcursor hlog
  have hfollow : ∀ position,
      Recovery.followUpsOf q.records position = Recovery.followUpsOf p.records position := by
    intro position
    rw [hlog, Recovery.followUpsOf_append]
    have hnone : drafts.filter (fun draft => draft.sourcePosition == some position) = [] := by
      refine List.filter_eq_nil_iff.mpr fun draft hd => ?_
      simp [hsources draft hd]
    rw [hnone, List.append_nil]
  refine ⟨?_, ?_, ?_, ?_, ?_, ?_, ?_, ?_⟩
  · rw [hprocessor, hengine]; exact h.reset
  · exact h.numbered.append hlog
  · intro call; rw [hreads]; exact h.readable call
  · rw [hcalm]; exact h.calm
  · have hsize : q.host.link.log.size = p.host.link.log.size + drafts.length := by
      simp only [Log.size, show q.host.link.log.records = _ from hlog, records,
        List.length_append, Log.length_numbered]
    rw [hcursor, hsize]
    exact Nat.le_trans h.cursor_le (Nat.le_add_right _ _)
  · rw [happlied, hengine, ← h.followUps]
    simp only [hfollow]
  · intro record hr source hs
    rw [hlog, List.mem_append] at hr
    rw [happlied]
    rcases hr with hr | hr
    · exact h.sources record hr source hs
    · have hd := hsources _ (Log.toDraft_mem_of_mem_numbered hr)
      rw [hd] at hs
      simp at hs
  · intro hcur
    rw [hcursor] at hcur
    rw [hprocessor, happlied, hengine]
    exact h.current hcur

/-- What the invariant does not speak about may change. -/
theorem congr (h : Sourced evaluator p) (hconfig : q.config = p.config)
    (hprocessor : q.processor = p.processor) (hcursor : q.cursor = p.cursor)
    (hreads : q.host.link.reads.refuses = p.host.link.reads.refuses)
    (hcalm : q.host.link.rebuildDue = p.host.link.rebuildDue)
    (hlog : q.records = p.records) : Sourced evaluator q := by
  have hsame : q.records = p.records ++ Log.numbered (p.host.link.log.size + 1) [] := by
    rw [hlog]
    exact (List.append_nil _).symm
  exact h.extend [] hconfig hprocessor hcursor hreads hcalm hsame
    fun draft hd => absurd hd List.not_mem_nil

end Extend

/-! ### A command is applied -/

section Next

variable {q : Partition} {command : Record} {rest : List Record} {drafts : List Draft}

/-- What was appended follows from the next command, so it has these follow-ups and no other one
has more than before. -/
theorem followUpsOf_next (h : Sourced evaluator p) (hnext : p.unapplied = command :: rest)
    (hlog : q.records = p.records ++ Log.numbered (p.host.link.log.size + 1) drafts)
    (hdrafts : ∀ draft ∈ drafts, draft.sourcePosition = some command.position) :
    Recovery.followUpsOf q.records command.position = drafts ∧
      ∀ other ∈ p.applied, Recovery.followUpsOf q.records other.position =
        Recovery.followUpsOf p.records other.position := by
  have hlate := lt_of_mem_unapplied h.numbered (hnext ▸ List.mem_cons_self)
  obtain ⟨hbefore, -⟩ := position_next h.numbered hnext
  constructor
  · rw [hlog, Recovery.followUpsOf_append, h.followUpsOf_unapplied hlate, List.nil_append]
    exact List.filter_eq_self.mpr fun draft hd => by simp [hdrafts draft hd]
  · intro other ho
    have hne := Nat.ne_of_gt (hbefore other ho)
    rw [hlog, Recovery.followUpsOf_append, List.filter_eq_nil_iff.mpr fun draft hd => by
      simp [hdrafts draft hd, hne], List.append_nil]

/-- **A step of the fold.**  Applying the next command and writing down what it leaves behind
keeps the invariant. -/
theorem next (h : Sourced evaluator p) (hcurrent : p.cursor.needsRecovery = false)
    (hnext : p.unapplied = command :: rest) (hconfig : q.config = p.config)
    (hprocessor : q.processor = (p.processor.apply command).2)
    (hcursor : q.cursor.lastProcessed = some command.position)
    (hreads : q.host.link.reads = p.host.link.reads)
    (hcalm : q.host.link.rebuildDue = p.host.link.rebuildDue)
    (hlog : q.records = p.records ++ Log.numbered (p.host.link.log.size + 1)
      (p.processor.apply command).1.followUps) : Sourced evaluator q := by
  have hengine : q.initialEngine evaluator = p.initialEngine evaluator := by
    simp only [initialEngine, hconfig]
  have hstate := h.current hcurrent
  have hdrafts := fun draft (hd : draft ∈ (p.processor.apply command).1.followUps) =>
    Processor.of_mem_followUps_apply h.builtin hd
  obtain ⟨happlied, -⟩ := applied_next h.numbered hnext hcursor hlog
    fun draft hd => (hdrafts draft hd).2
  obtain ⟨hown, hothers⟩ := h.followUpsOf_next hnext hlog fun draft hd => (hdrafts draft hd).1
  have hmem : command ∈ p.unapplied := hnext ▸ List.mem_cons_self
  refine ⟨?_, h.numbered.append hlog, ?_, ?_, ?_, ?_, ?_, ?_⟩
  · rw [hprocessor, Processor.apply_reset, hengine]
    exact h.reset
  · intro call
    rw [hreads]
    exact h.readable call
  · rw [hcalm]
    exact h.calm
  · have hsize : p.host.link.log.size ≤ q.host.link.log.size := by
      simp only [Log.size, show q.host.link.log.records = _ from hlog, records,
        List.length_append]
      exact Nat.le_add_right _ _
    rw [hcursor]
    exact Nat.le_trans (h.numbered.position_le (mem_unapplied_iff.mp hmem).1) hsize
  · rw [happlied, hengine, Processor.outcomes_append, List.map_append, List.map_append,
      ← h.followUps, ← hstate]
    refine congrArg₂ (· ++ ·) (List.map_congr_left hothers) ?_
    rw [List.map_singleton, hown]
    rfl
  · intro record hr source hs
    rw [happlied]
    rw [hlog, List.mem_append] at hr
    rcases hr with hr | hr
    · obtain ⟨other, ho, hpos⟩ := h.sources record hr source hs
      exact ⟨other, List.mem_append_left _ ho, hpos⟩
    · have hsource := (hdrafts _ (Log.toDraft_mem_of_mem_numbered hr)).1
      refine ⟨command, List.mem_append_right _ List.mem_cons_self, ?_⟩
      exact Option.some.inj (hsource.symm.trans hs)
  · intro _
    rw [hprocessor, happlied, hengine, Processor.after_append, ← hstate]
    rfl

/-- A state that may be ahead of the log says nothing about it. -/
theorem ahead (h : Sourced evaluator p) (hconfig : q.config = p.config)
    (hreset : q.processor.reset = p.processor.reset)
    (hlast : q.cursor.lastProcessed = p.cursor.lastProcessed)
    (hdue : q.cursor.needsRecovery = true) (hreads : q.host.link.reads = p.host.link.reads)
    (hcalm : q.host.link.rebuildDue = p.host.link.rebuildDue)
    (hlog : q.records = p.records) : Sourced evaluator q := by
  have hengine : q.initialEngine evaluator = p.initialEngine evaluator := by
    simp only [initialEngine, hconfig]
  have happlied : q.applied = p.applied := by
    simp only [applied, isProcessed, hlast, hlog]
  have hlog' : q.host.link.log.records = p.host.link.log.records := hlog
  refine ⟨?_, ?_, ?_, ?_, ?_, ?_, ?_, ?_⟩
  · rw [hreset, hengine]
    exact h.reset
  · unfold Log.Numbered Log.size
    rw [hlog']
    exact h.numbered
  · intro call
    rw [hreads]
    exact h.readable call
  · rw [hcalm]
    exact h.calm
  · unfold Log.size
    rw [hlast, hlog']
    exact h.cursor_le
  · rw [happlied, hengine, hlog]
    exact h.followUps
  · rw [happlied, hlog]
    exact h.sources
  · intro hcurrent
    rw [hdue] at hcurrent
    exact absurd hcurrent (by decide)

end Next

end Sourced

end Partition

end Workflow
