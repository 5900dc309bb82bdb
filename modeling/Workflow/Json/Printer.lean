/-
Writing JSON text.

The text has no spaces between its parts.  Members are written in ascending order of their names,
characters as they are, and only quotes, backslashes and control characters are escaped.
-/
import Workflow.Json.Basic
import Workflow.Number.Shortest
import Workflow.Text.Hex

namespace Workflow

namespace Json

/-- A character within quotes. -/
def escaped (c : Char) : List Char :=
  if c = '"' then ['\\', '"']
  else if c = '\\' then ['\\', '\\']
  else if c = '\n' then ['\\', 'n']
  else if c = '\t' then ['\\', 't']
  else if c = '\r' then ['\\', 'r']
  else if c = '\x08' then ['\\', 'b']
  else if c = '\x0c' then ['\\', 'f']
  else if c.toNat < 32 then '\\' :: 'u' :: Hex.digits 4 c.toNat
  else [c]

/-- A text within quotes. -/
def quoted (text : String) : String :=
  String.ofList ('"' :: text.toList.flatMap escaped ++ ['"'])

/-- An integer. -/
def integerText (n : Int) : String :=
  if n < 0 then "-" ++ Decimal.text n.natAbs else Decimal.text n.natAbs

mutual

/-- The text of a value. -/
def text : Json → String
  | .null => "null"
  | .bool value => if value then "true" else "false"
  | .int value => integerText value
  | .real value => value.text
  | .str value => quoted value
  | .arr items => "[" ++ ",".intercalate (itemTexts items) ++ "]"
  | .obj members =>
      let inOrder := (memberTexts members).foldr (fun member => putMember member.1 member.2) []
      let texts := inOrder.map fun (name, text) => quoted name ++ ":" ++ text
      "\x7b" ++ ",".intercalate texts ++ "\x7d"

/-- The texts of the items of a list. -/
def itemTexts : List Json → List String
  | [] => []
  | item :: items => text item :: itemTexts items

/-- The names of members with the texts of their values. -/
def memberTexts : List (String × Json) → List (String × String)
  | [] => []
  | (name, value) :: members => (name, text value) :: memberTexts members

end

end Json

end Workflow
