/-
What a timer definition is resolved to.

A definition stands for an instant, a duration or a repeating interval.  A literal stands for what
is read from it.  An expression stands for its value if that is of the type which is asked for, and
for what is read from its value if that is a text (`TimerDefinition.StandsFor`).

A definition is resolved exactly if it stands for something, and all that the due date depends on is
what that is (`TimerDefinition.resolve_eq_ok_iff`).  So an expression is resolved like the literal
that says the same, and when the literal cannot be read, both fail alike.
-/
import Workflow.Proofs.Time.Instant
import Workflow.Timer.Definition

namespace Workflow

/-- The text is read as the value where the shape is asked for. -/
inductive TimerShape.Reads : TimerShape → String → ExpressionValue → Prop
  | date {text : String} {instant : Instant} (h : Rfc3339.parse text = .ok instant) :
      Reads .date text (.dateTime instant)
  | duration {text : String} {length : Duration} (h : parseDuration text = .ok length) :
      Reads .duration text (.duration length)
  | cycle {text : String} {interval : TimerCycle} (h : TimerCycle.parse text = .ok interval) :
      Reads .cycle text (.cycle interval)

/-- What a definition asks for in the end. -/
inductive TimerDefinition.StandsFor (evaluator : Evaluator) (vars : Json) :
    TimerDefinition → ExpressionValue → Prop
  /-- A literal says it. -/
  | literal {shape : TimerShape} {text : String} {value : ExpressionValue}
      (h : shape.Reads text value) : StandsFor evaluator vars ⟨shape, false, text⟩ value
  /-- The expression has a text for its value, and the text says it. -/
  | written {shape : TimerShape} {expression text : String} {value : ExpressionValue}
      (hvalue : evaluator expression vars = .ok (.string text)) (h : shape.Reads text value) :
      StandsFor evaluator vars ⟨shape, true, expression⟩ value
  /-- It is the value of the expression. -/
  | typed {shape : TimerShape} {expression : String} {value : ExpressionValue}
      (hvalue : evaluator expression vars = .ok value) (h : value.typeName = shape.typeName) :
      StandsFor evaluator vars ⟨shape, true, expression⟩ value

/-- The value that a plan is made of. -/
def TimerPlan.value : TimerPlan → ExpressionValue
  | .at instant => .dateTime instant
  | .after length => .duration length
  | .every interval => .cycle interval

namespace TimerShape

variable {shape : TimerShape} {text expression : String} {plan : TimerPlan}
  {value : ExpressionValue}

/-! ### Plans -/

/-- A value of the type that is asked for is a plan. -/
theorem plan?_eq_some_iff :
    shape.plan? value = some plan ↔ value = plan.value ∧ value.typeName = shape.typeName := by
  cases shape <;> cases value <;> cases plan <;>
    simp [plan?, typeName, TimerPlan.value, ExpressionValue.typeName]

theorem read_eq_ok_iff : shape.read text = .ok plan ↔ shape.Reads text plan.value := by
  constructor
  · intro h
    cases shape with
    | date =>
        cases hread : Rfc3339.parse text with
        | error cause => rw [read, hread] at h; cases h
        | ok instant => rw [read, hread] at h; cases h; exact .date hread
    | duration =>
        cases hread : parseDuration text with
        | error cause => rw [read, hread] at h; cases h
        | ok length => rw [read, hread] at h; cases h; exact .duration hread
    | cycle =>
        cases hread : TimerCycle.parse text with
        | error cause => rw [read, hread] at h; cases h
        | ok interval => rw [read, hread] at h; cases h; exact .cycle hread
  · intro h
    cases plan <;> cases h <;> rename_i h <;> rw [read, h] <;> rfl

/-- What is read is of the type that is asked for. -/
theorem Reads.typeName_eq (h : shape.Reads text value) : value.typeName = shape.typeName := by
  cases h <;> rfl

theorem Reads.exists_plan (h : shape.Reads text value) :
    ∃ plan : TimerPlan, plan.value = value := by
  cases h with
  | date _ => exact ⟨.at _, rfl⟩
  | duration _ => exact ⟨.after _, rfl⟩
  | cycle _ => exact ⟨.every _, rfl⟩

/-- A text among the values is read like a literal. -/
theorem ofValue_string (shape : TimerShape) (expression text : String) :
    shape.ofValue expression (.string text) = shape.read text := by
  cases shape <;> rfl

theorem ofValue_of_plan? (h : shape.plan? value = some plan) (expression : String) :
    shape.ofValue expression value = .ok plan := by
  unfold ofValue
  rw [h]

/-- A value of another type is none to plan with. -/
theorem ofValue_other (hother : value.typeName ≠ shape.typeName)
    (htext : ∀ text, value ≠ .string text) (expression : String) :
    shape.ofValue expression value =
      .error (.unexpectedResult expression shape.typeName value.typeName) := by
  have hnone : shape.plan? value = none := by
    cases hplan : shape.plan? value with
    | none => rfl
    | some plan => exact absurd (plan?_eq_some_iff.mp hplan).2 hother
  unfold ofValue
  rw [hnone]
  cases value with
  | string text => exact absurd rfl (htext text)
  | _ => rfl

end TimerShape

/-- Nothing is due before it is resolved. -/
theorem TimerPlan.le_dueDate {now : Instant} (hnow : now ≤ .latest) (plan : TimerPlan) :
    now ≤ (plan.resolve now).dueDate := by
  cases plan with
  | «at» instant => exact Instant.le_max_right instant now
  | after length => exact Instant.le_add hnow length
  | every interval => exact Instant.le_add hnow interval.period

namespace TimerDefinition

variable {evaluator : Evaluator} {vars : Json} {definition : TimerDefinition} {plan : TimerPlan}
  {shape : TimerShape} {expression text : String} {value : ExpressionValue}
  {now : Instant} {timer : ResolvedTimer}

/-! ### Definitions -/

theorem plan_expression (shape : TimerShape) (hvalue : evaluator expression vars = .ok value) :
    TimerDefinition.plan ⟨shape, true, expression⟩ evaluator vars =
      shape.ofValue expression value := by
  unfold TimerDefinition.plan
  rw [if_pos rfl, hvalue]

theorem plan_expression_error (shape : TimerShape) {cause : ExpressionError}
    (hvalue : evaluator expression vars = .error cause) :
    TimerDefinition.plan ⟨shape, true, expression⟩ evaluator vars =
      .error (.expression expression cause) := by
  unfold TimerDefinition.plan
  rw [if_pos rfl, hvalue]

/-- The plan of an expression is what the expression stands for. -/
theorem plan_expression_eq_ok_iff :
    TimerDefinition.plan ⟨shape, true, expression⟩ evaluator vars = .ok plan ↔
      StandsFor evaluator vars ⟨shape, true, expression⟩ plan.value := by
  constructor
  · intro h
    cases hvalue : evaluator expression vars with
    | error cause =>
        rw [plan_expression_error shape hvalue] at h
        cases h
    | ok value =>
        rw [plan_expression shape hvalue] at h
        unfold TimerShape.ofValue at h
        split at h
        · rename_i typed _ htyped
          cases h
          obtain ⟨rfl, htype⟩ := TimerShape.plan?_eq_some_iff.mp htyped
          exact .typed hvalue htype
        · exact .written hvalue (TimerShape.read_eq_ok_iff.mp h)
        · cases h
  · intro h
    cases h with
    | written hvalue hreads =>
        rw [plan_expression shape hvalue, TimerShape.ofValue_string]
        exact TimerShape.read_eq_ok_iff.mpr hreads
    | typed hvalue htype =>
        rw [plan_expression shape hvalue]
        exact TimerShape.ofValue_of_plan? (TimerShape.plan?_eq_some_iff.mpr ⟨rfl, htype⟩) _

/-- **The plan is what the definition stands for.** -/
theorem plan_eq_ok_iff :
    definition.plan evaluator vars = .ok plan ↔ definition.StandsFor evaluator vars plan.value := by
  obtain ⟨shape, isExpression, text⟩ := definition
  cases isExpression with
  | true => exact plan_expression_eq_ok_iff
  | false =>
      refine TimerShape.read_eq_ok_iff.trans ⟨.literal, fun h => ?_⟩
      cases h with
      | literal h => exact h

/-- A definition is resolved if it stands for something, and to where that is in time. -/
theorem resolve_eq_ok_iff :
    definition.resolve now evaluator vars = .ok timer ↔
      ∃ plan : TimerPlan, definition.StandsFor evaluator vars plan.value ∧
        timer = plan.resolve now := by
  unfold resolve
  constructor
  · intro h
    cases hplan : definition.plan evaluator vars with
    | error cause => rw [hplan] at h; cases h
    | ok plan => rw [hplan] at h; cases h; exact ⟨plan, plan_eq_ok_iff.mp hplan, rfl⟩
  · rintro ⟨plan, hstands, rfl⟩
    rw [plan_eq_ok_iff.mpr hstands]
    rfl

/-- An expression whose value is a text is planned like the literal. -/
theorem plan_written (shape : TimerShape)
    (hvalue : evaluator expression vars = .ok (.string text)) :
    TimerDefinition.plan ⟨shape, true, expression⟩ evaluator vars =
      TimerDefinition.plan ⟨shape, false, text⟩ evaluator vars := by
  rw [plan_expression shape hvalue, TimerShape.ofValue_string]
  rfl

/-- An expression whose value is what a literal says is planned like the literal. -/
theorem plan_typed (hvalue : evaluator expression vars = .ok value)
    (hreads : shape.Reads text value) :
    TimerDefinition.plan ⟨shape, true, expression⟩ evaluator vars =
      TimerDefinition.plan ⟨shape, false, text⟩ evaluator vars := by
  obtain ⟨plan, rfl⟩ := hreads.exists_plan
  calc TimerDefinition.plan ⟨shape, true, expression⟩ evaluator vars
    _ = .ok plan := plan_eq_ok_iff.mpr (.typed hvalue hreads.typeName_eq)
    _ = TimerDefinition.plan ⟨shape, false, text⟩ evaluator vars :=
      (plan_eq_ok_iff.mpr (.literal hreads)).symm

/-- **A timer is due when its definition says, and not before it is resolved.**  A date that has
passed counts as the present; durations and periods are counted from it.  An expression is resolved
like a literal: like the text that is its value, readable or not, and like any text that says what
its value is.  A value of any other type is refused by the names of the types. -/
theorem resolve_exact {now : Instant} (hnow : now ≤ .latest) (evaluator : Evaluator) (vars : Json) :
    (∀ (definition : TimerDefinition) (timer : ResolvedTimer),
      (definition.resolve now evaluator vars = .ok timer ↔
        (∃ date, definition.StandsFor evaluator vars (.dateTime date) ∧
          timer = ⟨max date now, .once, none⟩) ∨
        (∃ length, definition.StandsFor evaluator vars (.duration length) ∧
          timer = ⟨now.add length, .once, none⟩) ∨
        ∃ interval, definition.StandsFor evaluator vars (.cycle interval) ∧
          timer = ⟨now.add interval.period, interval.repetition, some interval.period⟩) ∧
      (definition.resolve now evaluator vars = .ok timer → now ≤ timer.dueDate)) ∧
    ∀ (shape : TimerShape) (expression : String) (value : ExpressionValue),
      evaluator expression vars = .ok value →
        (∀ text, value = .string text ∨ shape.Reads text value →
          resolve ⟨shape, true, expression⟩ now evaluator vars =
            resolve ⟨shape, false, text⟩ now evaluator vars) ∧
        (value.typeName ≠ shape.typeName → (∀ text, value ≠ .string text) →
          resolve ⟨shape, true, expression⟩ now evaluator vars =
            .error (.unexpectedResult expression shape.typeName value.typeName)) := by
  refine ⟨fun definition timer => ⟨⟨fun h => ?_, fun h => ?_⟩, fun h => ?_⟩,
    fun shape expression value hvalue => ⟨fun text hsays => ?_, fun hother htext => ?_⟩⟩
  · obtain ⟨plan, hstands, rfl⟩ := resolve_eq_ok_iff.mp h
    cases plan with
    | «at» date => exact .inl ⟨date, hstands, rfl⟩
    | after length => exact .inr (.inl ⟨length, hstands, rfl⟩)
    | every interval => exact .inr (.inr ⟨interval, hstands, rfl⟩)
  · rcases h with ⟨date, hstands, rfl⟩ | ⟨length, hstands, rfl⟩ | ⟨interval, hstands, rfl⟩
    · exact resolve_eq_ok_iff.mpr ⟨.at date, hstands, rfl⟩
    · exact resolve_eq_ok_iff.mpr ⟨.after length, hstands, rfl⟩
    · exact resolve_eq_ok_iff.mpr ⟨.every interval, hstands, rfl⟩
  · obtain ⟨plan, -, rfl⟩ := resolve_eq_ok_iff.mp h
    exact plan.le_dueDate hnow
  · refine congrArg (Except.map (TimerPlan.resolve now)) ?_
    rcases hsays with rfl | hreads
    · exact plan_written shape hvalue
    · exact plan_typed hvalue hreads
  · unfold resolve
    rw [plan_expression shape hvalue, TimerShape.ofValue_other hother htext]
    rfl

/-- A table with a text, an interval and a truth value. -/
def mixedTable : Evaluator :=
  .ofTable [("= text", .ok (.string "2020-01-01T00:00:00Z")),
    ("= interval", .ok (.cycle ⟨.finite 2, ⟨3000000000⟩⟩)), ("= truth", .ok (.boolean true))]

/-- A text with a date that has passed, an interval with its literal, and a truth value. -/
theorem resolve_exact_mixed :
    resolve ⟨.date, true, "= text"⟩ .latest mixedTable .null = .ok ⟨.latest, .once, none⟩ ∧
      resolve ⟨.cycle, true, "= interval"⟩ .latest mixedTable .null =
        resolve ⟨.cycle, false, "R2/PT3S"⟩ .latest mixedTable .null ∧
      resolve ⟨.duration, true, "= truth"⟩ .latest mixedTable .null =
        .error (.unexpectedResult "= truth" "duration" "boolean") := by
  have hexact := resolve_exact (Instant.le_refl .latest) mixedTable .null
  have hinterval : TimerCycle.parse "R2/PT3S" = .ok ⟨.finite 2, ⟨3000000000⟩⟩ := by rfl
  have hdate : Rfc3339.parse "2020-01-01T00:00:00Z" =
      .ok ⟨1577836800, 0, by decide, by decide, by decide, by decide⟩ := by rfl
  exact ⟨(hexact.1 _ _).1.mpr (.inl ⟨_, .written rfl (.date hdate), by decide⟩),
    (hexact.2 .cycle "= interval" _ rfl).1 "R2/PT3S" (.inr (.cycle hinterval)),
    (hexact.2 .duration "= truth" (.boolean true) rfl).2 (by decide) nofun⟩

end TimerDefinition

end Workflow
