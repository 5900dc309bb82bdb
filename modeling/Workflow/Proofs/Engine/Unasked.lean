/-
Who asked is no part of what is decided.

A command carries the request that it came from, if any.  No built-in policy reads it
(`policy_askedBy`): it is copied onto a rejection, and it addresses the response, and that is all.
So a command that came from another request, or from none, leads to the same state and leaves the
same records behind, but for the copy (`apply_askedBy`), and a list of commands does so by
induction on the list.
-/
import Workflow.Proofs.Engine.Outcome

namespace Workflow

/-! ### Records without their requests -/

/-- The draft without the request that it came from. -/
def Draft.unasked (draft : Draft) : Draft := { draft with correlation := none }

/-- The draft that follows when the command came from another request. -/
def Draft.readdressed (correlation : Option Correlation) (draft : Draft) : Draft :=
  if draft.kind = .rejection then { draft with correlation } else draft

namespace Record

/-- The record when it came from another request. -/
def askedBy (record : Record) (correlation : Option Correlation) : Record :=
  { record with correlation }

/-- The record without the request that it came from. -/
def unasked (record : Record) : Record := record.askedBy none

@[simp] theorem position_unasked (record : Record) : record.unasked.position = record.position :=
  rfl

@[simp] theorem isCommand_unasked (record : Record) :
    record.unasked.isCommand = record.isCommand := rfl

@[simp] theorem sourcePosition_unasked (record : Record) :
    record.unasked.sourcePosition = record.sourcePosition := rfl

@[simp] theorem unasked_unasked (record : Record) : record.unasked.unasked = record.unasked := rfl

/-- Records that differ only in who asked are each other's, asked by another. -/
theorem eq_askedBy {first second : Record} (h : first.unasked = second.unasked) :
    second = first.askedBy second.correlation := by
  show second.unasked.askedBy second.correlation = first.unasked.askedBy second.correlation
  rw [h]

end Record

/-! ### Decisions -/

namespace Processor

variable (evaluator : Evaluator) (state : EngineState) (command : Record)
  (correlation : Option Correlation)

/-- **No built-in policy reads who asked.** -/
theorem policy_askedBy {entry : Intent × Policy} (h : entry ∈ Registry.builtinPolicies) :
    entry.2 evaluator state (command.askedBy correlation) = entry.2 evaluator state command := by
  simp only [Registry.builtinPolicies, List.mem_cons, List.not_mem_nil, or_false] at h
  rcases h with rfl | rfl | rfl | rfl | rfl | rfl | rfl | rfl | rfl | rfl | rfl | rfl <;> rfl

theorem decision_askedBy :
    decision evaluator state (command.askedBy correlation) =
      decision evaluator state command := by
  have hconsistent : isConsistent (command.askedBy correlation) = isConsistent command := rfl
  have hintent : (command.askedBy correlation).intent = command.intent := rfl
  unfold decision
  rw [hconsistent, hintent]
  by_cases hc : isConsistent command
  · rw [if_pos hc, if_pos hc]
    cases hlookup : Registry.builtinPolicies.lookup command.intent with
    | none => rfl
    | some policy =>
        obtain ⟨before, later, hentries, -⟩ := List.lookup_eq_some_iff.mp hlookup
        have hmem : (command.intent, policy) ∈ Registry.builtinPolicies := by
          rw [hentries]
          exact List.mem_append_right _ List.mem_cons_self
        exact policy_askedBy evaluator state command correlation hmem
  · rw [if_neg hc, if_neg hc]
    rfl

end Processor

/-- A decision leaves the same records behind, but for the request that a rejection repeats. -/
theorem Decision.followUps_askedBy (decision : Decision) (command : Record)
    (correlation : Option Correlation) :
    decision.followUps (command.askedBy correlation) =
      (decision.followUps command).map (Draft.readdressed correlation) := by
  cases decision with
  | reject type reason => rfl
  | accept final answer others =>
      simp only [followUps, List.map_map]
      rfl
  | confirm key intent => rfl

theorem Decision.followUps_unasked (decision : Decision) (command : Record) :
    decision.followUps command.unasked = (decision.followUps command).map Draft.unasked := by
  cases decision with
  | reject type reason => rfl
  | accept final answer others =>
      simp only [followUps, List.map_map]
      rfl
  | confirm key intent => rfl

/-! ### Applying commands -/

namespace Processor

variable {processor : Processor}

/-- **A command from another request has the same effect**, and leaves the same behind but for the
request that a rejection repeats. -/
theorem apply_askedBy (hbuiltin : processor.registry = .builtin) (command : Record)
    (correlation : Option Correlation) :
    (processor.apply (command.askedBy correlation)).2 = (processor.apply command).2 ∧
      (processor.apply (command.askedBy correlation)).1.followUps =
        (processor.apply command).1.followUps.map (Draft.readdressed correlation) := by
  have hsame : (command.askedBy correlation).isCommand = command.isCommand := rfl
  by_cases hcommand : command.isCommand
  · rw [apply_command hbuiltin hcommand, apply_command hbuiltin (hsame.trans hcommand),
      decision_askedBy]
    exact ⟨rfl, Decision.followUps_askedBy _ _ _⟩
  · have hnot : command.isCommand = false := by simpa using hcommand
    rw [apply_of_not_command hnot, apply_of_not_command (hsame.trans hnot)]
    exact ⟨rfl, rfl⟩

/-- A command that nobody asked for gets no response. -/
theorem apply_unasked (hbuiltin : processor.registry = .builtin) (command : Record) :
    processor.apply command.unasked =
      (⟨(processor.apply command).1.followUps.map Draft.unasked, none, 0⟩,
        (processor.apply command).2) := by
  have hsame := command.isCommand_unasked
  by_cases hcommand : command.isCommand
  · rw [apply_command hbuiltin hcommand, apply_command hbuiltin (hsame.trans hcommand)]
    unfold Record.unasked
    rw [decision_askedBy]
    exact Prod.ext (congrArg (Outcome.mk · none 0) (Decision.followUps_unasked _ _)) rfl
  · have hnot : command.isCommand = false := by simpa using hcommand
    rw [apply_of_not_command hnot, apply_of_not_command (hsame.trans hnot)]
    rfl

/-- **So have commands from other requests**, one after the other. -/
theorem run_askedBy (commands : List Record) :
    ∀ (others : List Record) (processor : Processor), processor.registry = .builtin →
      commands.map Record.unasked = others.map Record.unasked →
      processor.after others = processor.after commands ∧
        (processor.outcomes others).map Outcome.followUps =
          List.zipWith (fun (other : Record) (outcome : Outcome) =>
              outcome.followUps.map (Draft.readdressed other.correlation))
            others (processor.outcomes commands) := by
  induction commands with
  | nil =>
      intro others processor _ hsame
      cases List.map_eq_nil_iff.mp hsame.symm
      exact ⟨rfl, rfl⟩
  | cons command rest ih =>
      intro others processor hbuiltin hsame
      cases others with
      | nil => cases hsame
      | cons other others =>
          simp only [List.map_cons, List.cons.injEq] at hsame
          obtain ⟨hfirst, hrest⟩ := hsame
          obtain ⟨hstate, hleft⟩ := apply_askedBy hbuiltin command other.correlation
          rw [← Record.eq_askedBy hfirst] at hstate hleft
          obtain ⟨hend, hall⟩ := ih others (processor.apply command).2 hbuiltin hrest
          simp only [after, outcomes, hstate, List.map_cons, List.zipWith_cons_cons, hleft]
          exact ⟨hend, congrArg _ hall⟩

end Processor

end Workflow
