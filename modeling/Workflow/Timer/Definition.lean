/-
Timer definitions, and resolving one against the time of its command.

A definition has a shape (an instant, a duration or a repeating interval) and a text, which is
either the thing itself or an expression that produces it.  Both kinds go through the same two
steps: the text is read into a plan, and the plan is resolved against the present.  An expression
that produces a text is read like a literal; one that produces the thing itself gives the plan at
once.

An instant in the past resolves to the present, so a timer is never due before it is created.
-/
import Workflow.Time.Rfc3339
import Workflow.Timer.Expression

namespace Workflow

/-- What a timer waits for. -/
inductive TimerShape where
  /-- An instant. -/
  | date
  /-- A duration from the present. -/
  | duration
  /-- A repeating interval from the present. -/
  | cycle
deriving DecidableEq, Inhabited

/-- How the due date of a timer is computed. -/
structure TimerDefinition where
  /-- What the text stands for. -/
  shape : TimerShape
  /-- Whether the text is an expression over the variables. -/
  isExpression : Bool
  /-- The literal or the expression. -/
  text : String
deriving DecidableEq, Inhabited

/-- Why a definition has no due date. -/
inductive TimerDefinitionError where
  /-- The duration or the interval cannot be read. -/
  | parse (cause : CycleError)
  /-- The instant cannot be read. -/
  | invalidDate (text : String) (cause : InstantTextError)
  /-- The expression has no value. -/
  | expression (expression : String) (cause : ExpressionError)
  /-- The expression has a value of another type. -/
  | unexpectedResult (expression : String) (expected actual : String)
deriving DecidableEq, Inhabited

/-- The name of the cause. -/
def TimerDefinitionError.name : TimerDefinitionError → String
  | .parse _ => "Parse"
  | .invalidDate _ _ => "InvalidDate"
  | .expression _ _ => "Expression"
  | .unexpectedResult _ _ _ => "UnexpectedResult"

/-- The wording of the cause. -/
def TimerDefinitionError.message : TimerDefinitionError → String
  | .parse cause => cause.message
  | .invalidDate text cause => s!"invalid timer date '{text}': {cause.message}"
  | .expression source cause =>
      s!"expression '{source}' could not be evaluated: {cause.message}"
  | .unexpectedResult source expected actual =>
      s!"expected expression '{source}' to produce a {expected}, but it produced a {actual}"

/-- What a definition asks for, before it is placed in time. -/
inductive TimerPlan where
  /-- Fire at an instant. -/
  | at (instant : Instant)
  /-- Fire after a duration. -/
  | after (length : Duration)
  /-- Fire repeatedly. -/
  | every (interval : TimerCycle)
deriving DecidableEq, Inhabited

/-- A definition placed in time. -/
structure ResolvedTimer where
  /-- When the timer fires. -/
  dueDate : Instant
  /-- How many more times it fires. -/
  repetition : Repetition
  /-- The time between two firings, if it repeats. -/
  period : Option Duration
deriving DecidableEq, Inhabited

/-- Places a plan in time. -/
def TimerPlan.resolve (now : Instant) : TimerPlan → ResolvedTimer
  | .at instant => ⟨max instant now, .once, none⟩
  | .after length => ⟨now.add length, .once, none⟩
  | .every interval => ⟨now.add interval.period, interval.repetition, some interval.period⟩

namespace TimerShape

/-- The name of the type of value that an expression of the shape has to produce. -/
def typeName : TimerShape → String
  | .date => "date-time"
  | .duration => "duration"
  | .cycle => "cycle"

/-- Reads a literal of the shape. -/
def read (shape : TimerShape) (text : String) : Except TimerDefinitionError TimerPlan :=
  match shape with
  | .date => ((Rfc3339.parse text).map .at).mapError (.invalidDate text)
  | .duration => ((parseDuration text).map .after).mapError .parse
  | .cycle => ((TimerCycle.parse text).map .every).mapError .parse

/-- The plan that a value is, if it is of the type that the shape asks for. -/
def plan? : TimerShape → ExpressionValue → Option TimerPlan
  | .date, .dateTime instant => some (.at instant)
  | .duration, .duration length => some (.after length)
  | .cycle, .cycle interval => some (.every interval)
  | _, _ => none

/-- The plan that the value of an expression stands for. -/
def ofValue (shape : TimerShape) (expression : String) (value : ExpressionValue) :
    Except TimerDefinitionError TimerPlan :=
  match shape.plan? value, value with
  | some plan, _ => .ok plan
  | none, .string text => shape.read text
  | none, other => .error (.unexpectedResult expression shape.typeName other.typeName)

end TimerShape

namespace TimerDefinition

/-- The plan of a definition. -/
def plan (definition : TimerDefinition) (evaluator : Evaluator) (vars : Json) :
    Except TimerDefinitionError TimerPlan :=
  if definition.isExpression then
    match evaluator definition.text vars with
    | .ok value => definition.shape.ofValue definition.text value
    | .error cause => .error (.expression definition.text cause)
  else definition.shape.read definition.text

/-- Resolves a definition against the present. -/
def resolve (definition : TimerDefinition) (now : Instant) (evaluator : Evaluator) (vars : Json) :
    Except TimerDefinitionError ResolvedTimer :=
  (definition.plan evaluator vars).map (TimerPlan.resolve now)

end TimerDefinition

end Workflow
