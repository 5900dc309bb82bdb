/-
What a partition reads from its log is what was appended, each record once.

A log that starts empty holds the drafts of the calls that it did not refuse, in the order of the
calls and numbered from 1.  One call is either refused as a whole or taken as a whole
(`LogCall.run_cases`), and the run lemma `records_runAll` follows by induction on the calls.  So a
log that was reached by calls is gapless, and that is what the readers ask for: whatever the
length of the log and wherever its commands stand, the chunks of a read fit together.
-/
import Workflow.Proofs.Partition.Sourced

namespace Workflow

/-! ### Calls on a log -/

/-- Drafts are numbered on from where those before them end. -/
theorem Log.numbered_append (first second : List Draft) :
    ∀ position, numbered position (first ++ second) =
      numbered position first ++ numbered (position + first.length) second := by
  induction first with
  | nil => intro position; rfl
  | cons draft rest ih =>
      intro position
      simp only [List.cons_append, numbered, ih, List.length_cons]
      rw [Nat.add_right_comm, Nat.add_assoc]

/-- A call on a log. -/
inductive LogCall where
  /-- One draft is appended. -/
  | append (draft : Draft)
  /-- A batch of drafts is appended. -/
  | appendBatch (drafts : List Draft)
  /-- The log is told to refuse its next appends. -/
  | refuseNext (count : Nat)
deriving Inhabited

namespace LogCall

/-- What a call brings. -/
def drafts : LogCall → List Draft
  | .append draft => [draft]
  | .appendBatch drafts => drafts
  | .refuseNext _ => []

/-- Whether a log refuses a call. -/
def refused (log : Log) : LogCall → Bool
  | .append _ | .appendBatch _ => decide (0 < log.refusals)
  | .refuseNext _ => false

/-- Carries out a call, and tells the positions that it gave. -/
def run (log : Log) : LogCall → Except LogError (List Nat) × Log
  | .append draft =>
      let (result, appended) := log.append draft
      (result.map fun position => [position], appended)
  | .appendBatch drafts => log.appendBatch drafts
  | .refuseNext count => (.ok [], log.refuseNext count)

/-- The log after calls. -/
def runAll (log : Log) (calls : List LogCall) : Log :=
  calls.foldl (fun log call => (call.run log).2) log

/-- The drafts of the calls that are not refused, in order. -/
def taken : Log → List LogCall → List Draft
  | _, [] => []
  | log, call :: calls =>
      (if call.refused log then [] else call.drafts) ++ taken (call.run log).2 calls

/-- A call is refused and writes nothing, or its drafts follow the last record. -/
theorem run_cases (log : Log) (call : LogCall) :
    (call.refused log = true ∧
      call.run log = (.error Log.refusal, { log with refusals := log.refusals - 1 })) ∨
    (call.refused log = false ∧ ∃ refusals,
      call.run log = (.ok (List.range' (log.size + 1) call.drafts.length),
        { records := log.records ++ Log.numbered (log.size + 1) call.drafts, refusals })) := by
  obtain ⟨records, refusals⟩ := log
  cases call with
  | append draft =>
      cases refusals with
      | zero => exact .inr ⟨rfl, 0, rfl⟩
      | succ left => exact .inl ⟨rfl, rfl⟩
  | appendBatch drafts =>
      cases refusals with
      | zero =>
          refine .inr ⟨rfl, 0, ?_⟩
          simp only [run, Log.appendBatch, LogCall.drafts, Log.position_numbered]
      | succ left => exact .inl ⟨rfl, rfl⟩
  | refuseNext count =>
      refine .inr ⟨rfl, count, ?_⟩
      simp only [run, Log.refuseNext, LogCall.drafts, Log.numbered, List.append_nil,
        List.length_nil, List.range'_zero]

/-- **The records after calls are the drafts that were taken, numbered on.** -/
theorem records_runAll (calls : List LogCall) :
    ∀ log : Log, (runAll log calls).records =
      log.records ++ Log.numbered (log.size + 1) (taken log calls) := by
  induction calls with
  | nil => intro log; exact (List.append_nil _).symm
  | cons call rest ih =>
      intro log
      show (runAll (call.run log).2 rest).records = _
      rw [ih, taken]
      rcases run_cases log call with ⟨hrefused, hrun⟩ | ⟨hrefused, refusals, hrun⟩
      · simp only [hrun, hrefused, if_true, List.nil_append]
        rfl
      · simp only [hrun, hrefused, Bool.false_eq_true, if_false, Log.numbered_append, Log.size,
          List.length_append, Log.length_numbered, List.append_assoc]
        rw [Nat.add_right_comm]

/-- What calls on an empty log lead to has no gaps. -/
theorem numbered_runAll (calls : List LogCall) : (runAll {} calls).Numbered := by
  have hempty : Log.Numbered {} := rfl
  exact hempty.append (records_runAll calls {})

end LogCall

/-! ### Reading -/

namespace Partition

/--
**Chunked reads miss nothing and repeat nothing.**

A log that calls lead to holds the drafts that it took, and the record at index `i` has the position
`i + 1`.  The next call is refused and writes nothing, or its drafts get the positions that follow.
A partition with that log finds the first commands after its cursor, in the order of their
positions, and the whole log gives every record once, whatever the cursor and the limit are.
-/
theorem reads_what_was_appended (calls : List LogCall) :
    let log := LogCall.runAll {} calls
    log.records.map Record.toDraft = LogCall.taken {} calls ∧
    (∀ i (hi : i < log.records.length), (log.records[i]).position = i + 1) ∧
    (∀ call : LogCall,
      (call.refused log = true →
        call.run log = (.error Log.refusal, { log with refusals := log.refusals - 1 })) ∧
      (call.refused log = false → ∃ records refusals,
        call.run log = (.ok (List.range' (log.size + 1) call.drafts.length),
          { records := log.records ++ records, refusals }) ∧
        records.map Record.toDraft = call.drafts ∧
        records.map Record.position = List.range' (log.size + 1) call.drafts.length)) ∧
    ∀ p : Partition, p.host.link.log = log → p.host.link.Readable →
      (p.unapplied.Pairwise fun first second => first.position < second.position) ∧
      (∀ max, ∃ count, p.readUnprocessed max =
        (.ok (p.unapplied.take max), p.withLink (p.host.link.afterReads count))) ∧
      ∃ count, p.host.link.readAll = (.ok log.records, p.host.link.afterReads count) := by
  intro log
  have hnum : log.Numbered := LogCall.numbered_runAll calls
  refine ⟨?_, fun i hi => hnum.position_getElem hi, fun call => ?_, fun p hlog hread => ?_⟩
  · show (LogCall.runAll {} calls).records.map Record.toDraft = _
    rw [LogCall.records_runAll, List.map_append, Log.toDraft_numbered]
    rfl
  · rcases call.run_cases log with ⟨hrefused, hrun⟩ | ⟨hrefused, refusals, hrun⟩
    · exact ⟨fun _ => hrun, fun h => absurd (hrefused.symm.trans h) (by decide)⟩
    · refine ⟨fun h => absurd (hrefused.symm.trans h) (by decide), fun _ => ?_⟩
      exact ⟨_, refusals, hrun, Log.toDraft_numbered _ _, Log.position_numbered _ _⟩
  · rw [← hlog] at hnum
    refine ⟨hnum.pairwise.filter _, fun max => ?_, ?_⟩
    · obtain ⟨count, h⟩ := LogLink.readCommands_eq hread hnum p.cursor.lastProcessed max
      refine ⟨count, ?_⟩
      rw [unapplied_eq hnum]
      simp only [readUnprocessed, h]
      rfl
    · rw [← hlog]
      exact LogLink.readAll_eq hread hnum

/-- An append that is refused, and two commands on either side of the end of the first chunk, with a
command and events before them. -/
def chunkCalls : List LogCall :=
  let command : Draft := .command none (.deployment .create) (.deployment { processId := "p" })
  let event : Draft := { command with kind := .event }
  [.refuseNext 1, .append event, .append command,
    .appendBatch (List.replicate 254 event ++ [command, command])]

theorem reads_what_was_appended_chunks :
    let log := LogCall.runAll {} chunkCalls
    let p : Partition :=
      { config := {}, host := { link := { log } },
        processor := .start 0 .builtin .unavailable }
    (∃ count, p.readUnprocessed 3 =
      (.ok (p.unapplied.take 3), p.withLink (p.host.link.afterReads count))) ∧
    p.unapplied.map Record.position = [1, 256, 257] := by
  intro log p
  obtain ⟨-, -, -, hreads⟩ := reads_what_was_appended chunkCalls
  obtain ⟨-, hcommands, -⟩ := hreads p rfl fun _ => rfl
  exact ⟨hcommands 3, by decide +kernel⟩

end Partition

end Workflow
