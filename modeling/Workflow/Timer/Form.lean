/-
The stored form of repetitions, repeating intervals and timer definitions.
-/
import Workflow.Json.Form
import Workflow.Timer.Definition

namespace Workflow

namespace Repetition

/-- The name of the kind of a repetition. -/
def kindName : Repetition → String
  | .once => "none"
  | .finite _ => "finite"
  | .infinite => "infinite"

/-- One repetition of every kind. -/
def kinds : List Repetition := [.once, .finite 0, .infinite]

/-- A repetition, by its kind. -/
def toJson (repetition : Repetition) : Json :=
  let remaining : Members := match repetition with
    | .finite n => [("remaining", .nat n)]
    | _ => []
  .obj (("kind", .str repetition.kindName) :: remaining)

/-- A repetition, by its kind; only a finite one has a count. -/
def ofJson? (reading : Json.Reading) (json : Json) : Option Repetition := do
  let given ← json.kinded? reading "kind" "remaining" kinds kindName
  match given.kind with
  | .finite _ => (given.content?.bind (Json.nat? maxWord32)).map .finite
  | kind => if given.content?.getD .null = .null then some kind else none

end Repetition

/-- A repeating interval. -/
def TimerCycle.toJson (cycle : TimerCycle) : Json :=
  .obj [("repetition", cycle.repetition.toJson), ("period", .millis cycle.period)]

/-- A repeating interval. -/
def TimerCycle.ofJson? (json : Json) : Option TimerCycle := do
  let members ← json.fields? ["repetition", "period"] []
  let repetition ← members.required? "repetition" (Repetition.ofJson? .inPlace)
  let period ← members.required? "period" Json.millis?
  some ⟨repetition, period⟩

namespace TimerDefinition

/-- The name of the kind of a definition. -/
def kindName (definition : TimerDefinition) : String :=
  match definition.shape, definition.isExpression with
  | .date, false => "date"
  | .duration, false => "duration"
  | .cycle, false => "cycle"
  | .date, true => "date_expression"
  | .duration, true => "duration_expression"
  | .cycle, true => "cycle_expression"

/-- One definition of every kind, all of them without text. -/
def kinds : List TimerDefinition :=
  [⟨.date, false, ""⟩, ⟨.duration, false, ""⟩, ⟨.cycle, false, ""⟩, ⟨.date, true, ""⟩,
    ⟨.duration, true, ""⟩, ⟨.cycle, true, ""⟩]

/-- A definition, by its kind. -/
def toJson (definition : TimerDefinition) : Json :=
  .obj [("kind", .str definition.kindName), ("value", .str definition.text)]

/-- A definition, by its kind. -/
def ofJson? (reading : Json.Reading) (json : Json) : Option TimerDefinition := do
  let given ← json.kinded? reading "kind" "value" kinds kindName
  let text ← given.content?.bind Json.str?
  some { given.kind with text }

end TimerDefinition

end Workflow
