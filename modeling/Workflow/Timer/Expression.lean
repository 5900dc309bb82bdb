/-
Expressions over variables, as far as timers need them.

How an expression is evaluated is not fixed here: an evaluator is any function from an expression
and its variables to a value or an error.  Being a function, it gives the same answer whenever a
command is applied again.  Three evaluators are provided: one that refuses every expression, one
that answers from a table, and one that takes an expression as the name of a variable.
-/
import Workflow.Json.Basic
import Workflow.Time.Instant
import Workflow.Timer.Cycle

namespace Workflow

/-- Why an expression has no value, and where in it. -/
structure ExpressionError where
  /-- The position in the expression, counted in characters. -/
  offset : Nat
  /-- What is wrong there. -/
  reason : String
deriving DecidableEq, Inhabited

/-- The wording of the error. -/
def ExpressionError.message (e : ExpressionError) : String :=
  s!"failed to evaluate expression at offset {e.offset}: {e.reason}"

/-- What an expression can produce. -/
inductive ExpressionValue where
  /-- An instant. -/
  | dateTime (instant : Instant)
  /-- A duration. -/
  | duration (length : Duration)
  /-- A repeating interval. -/
  | cycle (interval : TimerCycle)
  /-- A text. -/
  | string (text : String)
  /-- A number. -/
  | number (value : Json)
  /-- A truth value. -/
  | boolean (value : Bool)
  /-- No value. -/
  | null
deriving DecidableEq, Inhabited

/-- The name of the value's type. -/
def ExpressionValue.typeName : ExpressionValue → String
  | .dateTime _ => "date-time"
  | .duration _ => "duration"
  | .cycle _ => "cycle"
  | .string _ => "string"
  | .number _ => "number"
  | .boolean _ => "boolean"
  | .null => "null"

/-- An evaluator of expressions over variables. -/
abbrev Evaluator := String → Json → Except ExpressionError ExpressionValue

namespace Evaluator

/-- The evaluator where there is no expression language: every evaluation fails. -/
def unavailable : Evaluator := fun _ _ => .error ⟨0, "expression evaluation is not available"⟩

/-- What a table of expressions holds. -/
abbrev Table := List (String × Except ExpressionError ExpressionValue)

/-- The evaluator that answers from a table, in which a later entry for an expression counts. -/
def ofTable (table : Table) : Evaluator := fun expression _ =>
  match table.reverse.lookup expression with
  | some result => result
  | none => .error ⟨0, s!"no variable found for expression '{expression}'"⟩

/-- The value of a variable; lists and objects are none. -/
def ofVariable : Json → Except ExpressionError ExpressionValue
  | .str text => .ok (.string text)
  | .bool value => .ok (.boolean value)
  | .null => .ok .null
  | .arr _ => .error ⟨0, "unsupported value"⟩
  | .obj _ => .error ⟨0, "unsupported value"⟩
  | number => .ok (.number number)

/-- The evaluator that takes the whole expression as the name of a variable. -/
def byName : Evaluator := fun expression context =>
  match context.member? expression with
  | some value => ofVariable value
  | none => .error ⟨expression.length, s!"no variable found for name '{expression}'"⟩

end Evaluator

end Workflow
