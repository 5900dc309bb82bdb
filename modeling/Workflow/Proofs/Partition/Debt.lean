/-
A request that waits has a command that is still to be applied.

A partition owes a response for every request that waits, and what it owes it with is a command of
the request's name after the cursor (`Owes`).  Applying that command delivers the response, because
every command with a name is responded to.  A failed append, a rebuild and a clock that is moved
leave the command where it is; a rebuild may only add commands to those that are left.

So when nothing is left nobody waits.  The response that was delivered says which command it answers
(`Answers`): one whose follow-ups were in the log by then.
-/
import Workflow.Proofs.Partition.Response

namespace Workflow

namespace Processor

/-- Every command with a name is responded to, under that name. -/
theorem exists_response {processor : Processor} (hbuiltin : processor.registry = .builtin)
    {command : Record} (hcommand : command.isCommand = true) {name : Correlation}
    (hname : command.correlation = some name) :
    ∃ response, (processor.apply command).1.response = some response ∧
      response.correlation = name := by
  obtain ⟨response, hresponse⟩ : ∃ response,
      (processor.apply command).1.response = some response := by
    rw [apply_command hbuiltin hcommand]
    unfold Decision.response
    rw [hname]
    exact ⟨_, rfl⟩
  refine ⟨response, hresponse, ?_⟩
  have hsame := correlation_of_response hbuiltin hresponse
  rw [hname] at hsame
  exact (Option.some.inj hsame).symm

end Processor

namespace Partition

variable {evaluator : Evaluator} {p q : Partition} {command : Record} {response : Response}

/-! ### What is left -/

/-- **What was left is still left**, but for the next command when it is answered. -/
theorem Move.left (h : Sourced evaluator p) (hid : p.config.partitionId ≤ maxPartitionId)
    (hmove : Move evaluator p q) (hc : command ∈ p.unapplied) :
    command ∈ q.unapplied ∨ q.host.router = p.answered command := by
  cases hmove.effect h hid with
  | arrived drafts hconfig hprocessor hcursor hreads hcalm hlog =>
      rw [unapplied_extend h.cursor_le hcursor hlog]
      exact .inl (List.mem_append_left _ hc)
  | applied first rest link hcurrent hnext hbeside hend hlog =>
      rw [hnext] at hc
      rcases List.mem_cons.mp hc with rfl | hlater
      · rw [hend]
        exact .inr (p.advanced_router link command)
      · rw [hend, (h.applied_advanced hnext hlog).2]
        exact .inl hlater
  | spoiled first link hbeside hend hlog =>
      obtain ⟨hmem, hkind, hnot⟩ := mem_unapplied_iff.mp hc
      rw [hend]
      refine .inl (mem_unapplied_iff.mpr ⟨?_, hkind, hnot⟩)
      show command ∈ link.log.records
      rw [hlog]
      exact hmem
  | rebuilt hsourced hsame hlog hcurrent hengine hwatch hlet hback =>
      obtain ⟨hmem, hkind, -⟩ := mem_unapplied_iff.mp hc
      refine .inl (mem_unapplied_iff.mpr ⟨hlog ▸ hmem, hkind, ?_⟩)
      have hlate := lt_of_mem_unapplied h.numbered hc
      rw [isProcessed_iff q (h.numbered.position_pos hmem)]
      exact decide_eq_false (by omega)

/-- A move applies nothing that it brings to the log. -/
theorem Move.cursor_le (h : Sourced evaluator p) (hid : p.config.partitionId ≤ maxPartitionId)
    (hmove : Move evaluator p q) :
    q.cursor.lastProcessed.getD 0 ≤ p.host.link.log.size := by
  cases hmove.effect h hid with
  | arrived drafts hconfig hprocessor hcursor =>
      rw [hcursor]
      exact h.cursor_le
  | applied first rest link hcurrent hnext hbeside hend =>
      have hmem : first ∈ p.unapplied := hnext ▸ List.mem_cons_self
      rw [hend, advanced_cursor]
      exact h.numbered.position_le (mem_unapplied_iff.mp hmem).1
  | spoiled first link hbeside hend =>
      rw [hend]
      exact h.cursor_le
  | rebuilt hsourced hsame hlog hcurrent hengine hwatch hlet hback =>
      exact Nat.le_trans hback h.cursor_le

/-! ### What is owed -/

/-- Every request that waits has a command of its name that is still to be applied. -/
def Owes (p : Partition) : Prop :=
  ∀ entry ∈ p.host.router.waiting, ∃ command ∈ p.unapplied, command.correlation = some entry.1

/-- Who is answered does not wait any more. -/
theorem Sourced.not_waiting_answered (h : Sourced evaluator p) (hkind : command.isCommand = true)
    {entry : Correlation × Nat} (hname : command.correlation = some entry.1) :
    entry ∉ (p.answered command).waiting := by
  obtain ⟨response, hresponse, hsame⟩ := Processor.exists_response h.builtin hkind hname
  unfold answered
  rw [hresponse]
  dsimp only
  unfold ResponseRouter.deliver ResponseRouter.unregister
  cases hlookup : p.host.router.waiting.lookup response.correlation with
  | none =>
      intro hmem
      have hother := List.lookup_eq_none_iff.mp hlookup entry hmem
      simp [hsame] at hother
  | some ticket =>
      intro hmem
      have hother := (List.mem_filter.mp hmem).2
      simp [hsame] at hother

/-- **Every move keeps what is owed.** -/
theorem Owes.move (howes : p.Owes) (h : Sourced evaluator p)
    (hid : p.config.partitionId ≤ maxPartitionId) (hmove : Move evaluator p q) : q.Owes := by
  obtain ⟨hq, -⟩ := h.move hid hmove
  have hold : ∀ entry ∈ q.host.router.waiting, entry ∈ p.host.router.waiting →
      ∃ command ∈ q.unapplied, command.correlation = some entry.1 := by
    intro entry hwaits hbefore
    obtain ⟨command, hc, hname⟩ := howes entry hbefore
    rcases Move.left h hid hmove hc with hstill | hrouter
    · exact ⟨command, hstill, hname⟩
    · rw [hrouter] at hwaits
      exact absurd hwaits (h.not_waiting_answered (mem_unapplied_iff.mp hc).2.1 hname)
  intro entry hwaits
  cases hmove.exchange h hid with
  | narrowed hrouter => exact hold entry hwaits (hrouter.waiting entry hwaits)
  | answered command rest hcurrent hnext hrouter =>
      refine hold entry hwaits ((p.answered_router command).2 entry ?_)
      rw [← hrouter]
      exact hwaits
  | asked request name hfree hrouter hlog =>
      have hcases := hwaits
      rw [hrouter] at hcases
      rcases List.mem_cons.mp hcases with rfl | hbefore
      · let own : Record := .ofDraft (p.host.link.log.size + 1)
          ((request.toDraft.withCorrelation name).withTimestamp p.now)
        have hmem : own ∈ q.records := by
          rw [hlog]
          exact List.mem_append_right _ List.mem_cons_self
        refine ⟨own, mem_unapplied_iff.mpr ⟨hmem, rfl, ?_⟩, rfl⟩
        have hcursor := Move.cursor_le h hid hmove
        show q.isProcessed (p.host.link.log.size + 1) = false
        rw [isProcessed_iff q (Nat.succ_pos _)]
        exact decide_eq_false (Nat.not_le_of_lt (Nat.lt_succ_of_le hcursor))
      · exact hold entry hwaits hbefore

/-! ### What was answered -/

/-- A response answers a command of the log: the command has this response when the commands of the
log are applied in order, and all that follows from it then is in the log. -/
structure Answers (evaluator : Evaluator) (p : Partition) (command : Record) (response : Response) :
    Prop where
  mem : command ∈ p.records
  kind : command.isCommand = true
  response : responseTo evaluator p command = some response
  followUps : Recovery.followUpsOf p.records command.position =
    (outcomeOf evaluator p command).followUps

/-- It still does when the log has grown. -/
theorem Answers.grow (hanswers : Answers evaluator p command response) (hp : Sourced evaluator p)
    (hq : Sourced evaluator q) (hid : q.config.partitionId = p.config.partitionId)
    (hfront : p.records <+: q.records) : Answers evaluator q command response := by
  have hpos := hp.numbered.position_le hanswers.mem
  have hmem : command ∈ q.records := hfront.subset hanswers.mem
  refine ⟨hmem, hanswers.kind, ?_, ?_⟩
  · rw [responseTo_eq hq hid hfront hpos]
    exact hanswers.response
  · cases hprocessed : q.isProcessed command.position with
    | true => exact hq.followUpsOf_applied (mem_applied_iff.mpr ⟨hmem, hanswers.kind, hprocessed⟩)
    | false =>
        -- It was given up by a rebuild, so nothing follows from it, and nothing did before.
        have hleft : command ∈ q.unapplied :=
          mem_unapplied_iff.mpr ⟨hmem, hanswers.kind, hprocessed⟩
        have hnone := hq.followUpsOf_unapplied (lt_of_mem_unapplied hq.numbered hleft)
        obtain ⟨more, hlog⟩ := hfront
        have hsplit : Recovery.followUpsOf p.records command.position ++
            Recovery.followUpsOf more command.position = [] := by
          rw [← hnone, ← hlog]
          simp [Recovery.followUpsOf]
        rw [hnone, outcomeOf_eq hq hid ⟨more, hlog⟩ hpos, ← hanswers.followUps]
        exact (List.append_eq_nil_iff.mp hsplit).1.symm

/-- The next command is answered after what follows from it is in the log. -/
theorem Sourced.answers_next (h : Sourced evaluator p) (hid : p.config.partitionId ≤ maxPartitionId)
    (hcurrent : p.cursor.needsRecovery = false) {rest : List Record} {link : LogLink}
    (hnext : p.unapplied = command :: rest)
    (hlog : link.log.records = p.records ++ Log.numbered (p.host.link.log.size + 1)
      (p.processor.apply command).1.followUps)
    (hmove : Move evaluator p (p.advanced link command))
    (hresponse : (p.processor.apply command).1.response = some response) :
    Answers evaluator (p.advanced link command) command response := by
  obtain ⟨hq, hsame⟩ := h.move hid hmove
  have happlied : command ∈ (p.advanced link command).applied := by
    rw [(h.applied_advanced hnext hlog).1]
    exact List.mem_append_right _ List.mem_cons_self
  have hmem : command ∈ p.unapplied := hnext ▸ List.mem_cons_self
  obtain ⟨hrecord, hkind, -⟩ := mem_unapplied_iff.mp hmem
  refine ⟨(mem_applied_iff.mp happlied).1, hkind, ?_, hq.followUpsOf_applied happlied⟩
  rw [responseTo_eq hq hsame (Move.records_grow h hid hmove) (h.numbered.position_le hrecord),
    h.responseTo_next hcurrent hnext]
  exact hresponse

end Partition

end Workflow
