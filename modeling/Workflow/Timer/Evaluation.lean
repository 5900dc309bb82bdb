/-
The written form of expression values, and evaluators described by data.
-/
import Workflow.Timer.Form

namespace Workflow

namespace ExpressionValue

/-- A value beside its type; the digits of a number are not shown. -/
def toJson (value : ExpressionValue) : Json :=
  let shown : Json := match value with
    | .dateTime instant => .instant instant
    | .duration length => .millis length
    | .cycle interval => interval.toJson
    | .string text => .str text
    | .number _ => .null
    | .boolean b => .bool b
    | .null => .null
  .obj [("type", .str value.typeName), ("value", shown)]

/-- A value, by its type. -/
def ofMembers? (members : Members) : Option ExpressionValue := do
  let value := (members.lookup "value").getD .null
  match ← members.required? "type" Json.str? with
  | "date-time" => value.givenInstant?.map .dateTime
  | "duration" => value.millis?.map .duration
  | "cycle" => (TimerCycle.ofJson? value).map .cycle
  | "string" => value.str?.map .string
  | "number" => some (.number value)
  | "boolean" => value.bool?.map .boolean
  | "null" => some .null
  | _ => none

end ExpressionValue

/-- An error of an expression. -/
def ExpressionError.ofJson? (json : Json) : Option ExpressionError := do
  let members ← json.members?
  let offset ← members.required? "offset" Json.word64?
  let reason ← members.required? "message" Json.str?
  some { offset, reason }

namespace Evaluator

/-- An entry of a table: an expression with its value or its error. -/
def entry? (json : Json) : Option (String × Except ExpressionError ExpressionValue) := do
  let members ← json.members?
  let expression ← members.required? "expression" Json.str?
  match ← members.optional? "error" ExpressionError.ofJson? with
  | some e => some (expression, .error e)
  | none => (ExpressionValue.ofMembers? members).map fun value => (expression, .ok value)

/-- An evaluator: none at all, a table, or the variables themselves. -/
def ofJson? : Json → Option Evaluator
  | .null => some unavailable
  | .str "context" => some byName
  | json => (json.list? entry?).map ofTable

end Evaluator

end Workflow
