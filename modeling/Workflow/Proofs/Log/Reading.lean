/-
Reading a log in chunks misses nothing and repeats nothing.

`Numbered` is the invariant of a log: its positions run from 1 without gaps, so a position is also
an index, and "after position k" means "without the first k records".  A reader goes through the
log with a cursor that is the position of the last record it saw; by `Numbered` that is the number
of records it saw, and each chunk takes up where the one before ended.

The induction is on the number of reads that are left.  Each read but the last one moves the
cursor by at least one record, so one read more than there are records is enough.
-/
import Mathlib.Data.List.Basic
import Workflow.Log.Link

namespace Workflow

namespace Log

/-! ### Positions -/

/-- Positions run from 1 without gaps. -/
def Numbered (log : Log) : Prop := log.records.map Record.position = List.range' 1 log.size

@[simp] theorem length_numbered (drafts : List Draft) :
    ∀ position, (numbered position drafts).length = drafts.length := by
  induction drafts with
  | nil => intro position; rfl
  | cons draft rest ih => intro position; simp [numbered, ih]

theorem position_numbered (drafts : List Draft) :
    ∀ position, (numbered position drafts).map Record.position =
      List.range' position drafts.length := by
  induction drafts with
  | nil => intro position; rfl
  | cons draft rest ih =>
      intro position
      simp only [numbered, List.map_cons, List.length_cons, List.range'_succ, ih]
      rfl

@[simp] theorem toDraft_numbered (drafts : List Draft) :
    ∀ position, (numbered position drafts).map Record.toDraft = drafts := by
  induction drafts with
  | nil => intro position; rfl
  | cons draft rest ih =>
      intro position
      simp only [numbered, List.map_cons, ih, Record.toDraft_ofDraft]

/-- What is numbered keeps what it says. -/
theorem toDraft_mem_of_mem_numbered {drafts : List Draft} {position : Nat} {record : Record}
    (h : record ∈ numbered position drafts) : record.toDraft ∈ drafts := by
  have := List.mem_map_of_mem (f := Record.toDraft) h
  rwa [toDraft_numbered] at this

/-- A batch that follows the last record keeps the positions gapless. -/
theorem Numbered.append {log log' : Log} (h : log.Numbered) {drafts : List Draft}
    (hlog : log'.records = log.records ++ numbered (log.size + 1) drafts) : log'.Numbered := by
  unfold Numbered size
  rw [hlog, List.map_append, position_numbered, h, List.length_append, length_numbered, size,
    Nat.add_comm log.records.length 1, List.range'_append_1]

/-- The position of a record is one more than its index. -/
theorem Numbered.position_getElem {log : Log} (h : log.Numbered) {i : Nat}
    (hi : i < log.records.length) : (log.records[i]).position = i + 1 := by
  have hmap : (log.records.map Record.position)[i]? = (List.range' 1 log.size)[i]? := by rw [h]
  rw [List.getElem?_map, List.getElem?_eq_getElem hi,
    List.getElem?_eq_getElem (by simpa [size] using hi)] at hmap
  simp only [Option.map_some, Option.some.injEq, List.getElem_range'] at hmap
  omega

theorem Numbered.position_pos {log : Log} (h : log.Numbered) {record : Record}
    (hr : record ∈ log.records) : 0 < record.position := by
  obtain ⟨i, hi, rfl⟩ := List.getElem_of_mem hr
  rw [h.position_getElem hi]
  omega

theorem Numbered.position_le {log : Log} (h : log.Numbered) {record : Record}
    (hr : record ∈ log.records) : record.position ≤ log.size := by
  obtain ⟨i, hi, rfl⟩ := List.getElem_of_mem hr
  rw [h.position_getElem hi]
  exact hi

/-- Positions ascend. -/
theorem Numbered.pairwise {log : Log} (h : log.Numbered) :
    log.records.Pairwise fun first second => first.position < second.position := by
  have hsorted : (log.records.map Record.position).Pairwise (· < ·) := by
    rw [h]
    exact List.pairwise_lt_range'
  exact List.pairwise_map.mp hsorted

/-- In a gapless list the records up to a position are the first ones. -/
theorem filter_position_le (keep : Record → Bool) (last : Nat) (records : List Record) :
    ∀ first, records.map Record.position = List.range' first records.length →
      (records.filter fun record => keep record && decide (record.position ≤ last)) =
        (records.take (last + 1 - first)).filter keep := by
  induction records with
  | nil => intro first _; simp
  | cons record rest ih =>
      intro first h
      simp only [List.map_cons, List.length_cons, List.range'_succ, List.cons.injEq] at h
      obtain ⟨hfirst, hrest⟩ := h
      by_cases hle : record.position ≤ last
      · have hsucc : last + 1 - first = (last + 1 - (first + 1)) + 1 := by omega
        rw [hsucc, List.take_succ_cons, List.filter_cons, List.filter_cons, ih _ hrest]
        simp [hle]
      · have hzero : last + 1 - first = 0 := by omega
        have hnext : last + 1 - (first + 1) = 0 := by omega
        rw [hzero, List.filter_cons, ih _ hrest, hnext]
        simp [hle]

/-- In a gapless list the records after a position are those without the first ones. -/
theorem filter_position_gt (keep : Record → Bool) (last : Nat) (records : List Record) :
    ∀ first, records.map Record.position = List.range' first records.length →
      (records.filter fun record => keep record && !decide (record.position ≤ last)) =
        (records.drop (last + 1 - first)).filter keep := by
  induction records with
  | nil => intro first _; simp
  | cons record rest ih =>
      intro first h
      simp only [List.map_cons, List.length_cons, List.range'_succ, List.cons.injEq] at h
      obtain ⟨hfirst, hrest⟩ := h
      by_cases hle : record.position ≤ last
      · have hsucc : last + 1 - first = (last + 1 - (first + 1)) + 1 := by omega
        rw [hsucc, List.drop_succ_cons, List.filter_cons, ih _ hrest]
        simp [hle]
      · have hzero : last + 1 - first = 0 := by omega
        have hnext : last + 1 - (first + 1) = 0 := by omega
        rw [hzero, List.filter_cons, ih _ hrest, hnext]
        simp [hle, List.filter_cons]

end Log

/-! ### Reading -/

namespace LogLink

/-- No read is refused. -/
def Readable (link : LogLink) : Prop := ∀ call, link.reads.refuses call = false

/-- The connection when more reads were counted. -/
def afterReads (link : LogLink) (count : Nat) : LogLink :=
  { link with reads := { link.reads with calls := link.reads.calls + count } }

@[simp] theorem log_afterReads (link : LogLink) (count : Nat) :
    (link.afterReads count).log = link.log := rfl

theorem afterReads_afterReads (link : LogLink) (first second : Nat) :
    (link.afterReads first).afterReads second = link.afterReads (first + second) := by
  simp [afterReads, Nat.add_assoc]

theorem Readable.afterReads {link : LogLink} (h : link.Readable) (count : Nat) :
    (link.afterReads count).Readable := h

theorem readAfter_eq {link : LogLink} (h : link.Readable) (after : Option Nat) (limit : Nat) :
    link.readAfter after limit = (.ok (link.log.readAfter after limit), link.afterReads 1) := by
  simp [readAfter, Outage.next, h link.reads.calls, LogLink.afterReads]

/-- The last record of a chunk stands at the cursor plus the length of the chunk. -/
theorem position_getLast_chunk {log : Log} (h : log.Numbered) {after : Option Nat} {limit : Nat}
    {last : Record} (hlast : (log.readAfter after limit).getLast? = some last) :
    last.position = after.getD 0 + (log.readAfter after limit).length ∧
      0 < (log.readAfter after limit).length := by
  have hpos : 0 < (log.readAfter after limit).length := by
    cases hc : log.readAfter after limit with
    | nil => rw [hc] at hlast; simp at hlast
    | cons first rest => simp
  refine ⟨?_, hpos⟩
  rw [List.getLast?_eq_getElem?] at hlast
  obtain ⟨hi, hval⟩ := List.getElem?_eq_some_iff.mp hlast
  have hindex : after.getD 0 + ((log.readAfter after limit).length - 1) < log.records.length := by
    simp only [Log.readAfter, List.length_take, List.length_drop] at hi ⊢
    omega
  have hget : (log.readAfter after limit)[(log.readAfter after limit).length - 1] =
      log.records[after.getD 0 + ((log.readAfter after limit).length - 1)] := by
    simp only [Log.readAfter, List.getElem_take, List.getElem_drop]
  rw [← hval, hget, h.position_getElem]
  omega

/-- A chunk without records is read at the end of the log only. -/
theorem drop_of_chunk_nil {log : Log} {after : Option Nat}
    (hlast : (log.readAfter after chunkSize).getLast? = none) :
    log.records.drop (after.getD 0) = [] := by
  rw [List.getLast?_eq_none_iff] at hlast
  simp only [Log.readAfter, List.take_eq_nil_iff] at hlast
  rcases hlast with hzero | hdrop
  · simp [chunkSize] at hzero
  · exact hdrop

/-- The records after the cursor are the chunk and those after it. -/
theorem drop_eq_chunk_append (log : Log) (after : Option Nat) (limit : Nat) :
    log.records.drop (after.getD 0) = log.readAfter after limit ++
      log.records.drop (after.getD 0 + (log.readAfter after limit).length) := by
  conv_lhs => rw [← List.take_append_drop (log.readAfter after limit).length
    (log.records.drop (after.getD 0))]
  rw [List.drop_drop]
  congr 1
  simp only [Log.readAfter, List.length_take, ← List.take_take, List.take_length]

theorem length_chunk_le (log : Log) (after : Option Nat) (limit : Nat) :
    (log.readAfter after limit).length ≤ log.size - after.getD 0 := by
  simp only [Log.readAfter, List.length_take, List.length_drop, Log.size]
  omega

/-- **Reading to the end gives every record after the cursor.** -/
theorem readRest_eq (reads : Nat) :
    ∀ (link : LogLink) (after : Option Nat), link.Readable → link.log.Numbered →
      link.log.size - after.getD 0 < reads →
      ∃ count, readRest reads link after =
        (.ok (link.log.records.drop (after.getD 0)), link.afterReads count) := by
  induction reads with
  | zero => intro link after _ _ hlt; omega
  | succ reads ih =>
      intro link after hread hnum hlt
      simp only [readRest, readAfter_eq hread]
      cases hlast : (link.log.readAfter after chunkSize).getLast? with
      | none => exact ⟨1, by rw [drop_of_chunk_nil hlast]⟩
      | some last =>
          obtain ⟨hpos, hlen⟩ := position_getLast_chunk hnum hlast
          have hle := length_chunk_le link.log after chunkSize
          obtain ⟨count, hrest⟩ := ih (link.afterReads 1) (some last.position)
            (hread.afterReads 1) hnum (by simp only [Option.getD_some, log_afterReads]; omega)
          refine ⟨1 + count, ?_⟩
          simp only [hrest, afterReads_afterReads]
          simp only [Except.map, Option.getD_some, log_afterReads, hpos, Prod.mk.injEq,
            Except.ok.injEq, and_true]
          exact (drop_eq_chunk_append link.log after chunkSize).symm

/-- **Reading the whole log gives all its records.** -/
theorem readAll_eq {link : LogLink} (hread : link.Readable) (hnum : link.log.Numbered) :
    ∃ count, link.readAll = (.ok link.log.records, link.afterReads count) := by
  obtain ⟨count, h⟩ := readRest_eq (link.log.size + 1) link none hread hnum (by simp)
  exact ⟨count, by simpa [readAll] using h⟩

/-- **Reading commands gives the first ones after the cursor.** -/
theorem readCommandsFrom_eq (reads : Nat) :
    ∀ (link : LogLink) (after : Option Nat) (max : Nat), link.Readable → link.log.Numbered →
      link.log.size - after.getD 0 < reads →
      ∃ count, readCommandsFrom reads link after max =
        (.ok (((link.log.records.drop (after.getD 0)).filter Record.isCommand).take max),
          link.afterReads count) := by
  induction reads with
  | zero => intro link after max _ _ hlt; omega
  | succ reads ih =>
      intro link after max hread hnum hlt
      cases max with
      | zero => exact ⟨0, by simp [readCommandsFrom]; rfl⟩
      | succ max =>
          simp only [readCommandsFrom, readAfter_eq hread]
          cases hlast : (link.log.readAfter after chunkSize).getLast? with
          | none => exact ⟨1, by rw [drop_of_chunk_nil hlast]; rfl⟩
          | some last =>
              obtain ⟨hpos, hlen⟩ := position_getLast_chunk hnum hlast
              have hle := length_chunk_le link.log after chunkSize
              obtain ⟨count, hrest⟩ := ih (link.afterReads 1) (some last.position)
                (max + 1 - (((link.log.readAfter after chunkSize).filter
                  Record.isCommand).take (max + 1)).length)
                (hread.afterReads 1) hnum (by simp only [Option.getD_some, log_afterReads]; omega)
              refine ⟨1 + count, ?_⟩
              simp only [hrest, afterReads_afterReads]
              simp only [Except.map, Option.getD_some, log_afterReads, hpos, Prod.mk.injEq,
                Except.ok.injEq, and_true]
              rw [drop_eq_chunk_append link.log after chunkSize, List.filter_append,
                List.take_append, List.length_take]
              congr 2
              -- What the chunk gave counts against the limit of the reads that follow.
              omega

/-- **The first commands after a position, whatever the chunks are.** -/
theorem readCommands_eq {link : LogLink} (hread : link.Readable) (hnum : link.log.Numbered)
    (after : Option Nat) (max : Nat) :
    ∃ count, link.readCommands after max =
      (.ok (((link.log.records.drop (after.getD 0)).filter Record.isCommand).take max),
        link.afterReads count) :=
  readCommandsFrom_eq (link.log.size + 1) link after max hread hnum (by omega)

end LogLink

end Workflow
