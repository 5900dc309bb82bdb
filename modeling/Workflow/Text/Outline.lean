/-
Outlines: values in one line, for people to look at.

A structure is its name and, in braces, its fields with their values; two dots at the end say that
fields were left out.
-/

namespace Workflow.Outline

/-- A field of a structure. -/
def field (name value : String) : String := name ++ ": " ++ value

/-- A structure of which every field is shown. -/
def whole (name : String) (fields : List String) : String :=
  name ++ " \x7b " ++ ", ".intercalate fields ++ " \x7d"

/-- A structure of which some fields are shown. -/
def part (name : String) (fields : List String) : String := whole name (fields ++ [".."])

/-- A list of texts, each in quotes. -/
def quotedList (texts : List String) : String :=
  "[" ++ ", ".intercalate (texts.map fun text => "\"" ++ text ++ "\"") ++ "]"

/-- A value that may be absent. -/
def optional : Option String → String
  | some value => "Some(" ++ value ++ ")"
  | none => "None"

end Workflow.Outline
