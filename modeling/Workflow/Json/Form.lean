/-
Reading and writing the parts of stored values.

A stored structure is an object whose members have fixed names; a reader takes the members it
knows and ignores the others.  A member is required, or has a default that stands in when it is
absent, or is optional, in which case null counts as absent.  A structure is also read from the
list of its members in order.  Integers are read within the limits of their width and from numbers
without a fraction only.

A value of several kinds is stored as the name of its kind with the content beside it.  An object
is read in the order of its names, so a content whose name comes before that of the kind is kept
until the kind is known.  What is kept is read a little more freely: see `Reading`.

Every form here comes as a writer and a reader, in that order.
-/
import Workflow.Json.Basic
import Workflow.Text.Uuid
import Workflow.Time.Rfc3339

namespace Workflow

/-- The named values of an object. -/
abbrev Members := List (String × Json)

namespace Json

/-! ### Single values -/

/-- An unsigned number. -/
def nat (n : Nat) : Json := .int n

/-- An unsigned number of at most `limit`. -/
def nat? (limit : Nat) : Json → Option Nat
  | .int n => if 0 ≤ n ∧ n.toNat ≤ limit then some n.toNat else none
  | _ => none

/-- An unsigned number of 64 bits. -/
def word64? : Json → Option Nat := nat? maxWord64

/-- A signed number from `-bound` to `bound - 1`. -/
def int? (bound : Nat) : Json → Option Int
  | .int n => if -(bound : Int) ≤ n ∧ n < bound then some n else none
  | _ => none

/-- A text. -/
def str? : Json → Option String
  | .str text => some text
  | _ => none

/-- A truth value. -/
def bool? : Json → Option Bool
  | .bool value => some value
  | _ => none

/-- An instant. -/
def instant (i : Instant) : Json := .str (Rfc3339.text i)

/-- An instant. -/
def instant? (json : Json) : Option Instant := json.str?.bind Rfc3339.parseLenient?

/-- An instant as people give it: in the strict form, or `MAX` for the last one. -/
def givenInstant? (json : Json) : Option Instant :=
  json.str?.bind fun text =>
    if text = "MAX" then some Instant.latest else (Rfc3339.parse text).toOption

/-- A duration, in whole milliseconds. -/
def millis (d : Duration) : Json := nat d.storedMillis

/-- A duration, in whole milliseconds. -/
def millis? (json : Json) : Option Duration := json.word64?.map Duration.ofMillis

/-- A duration in seconds and nanoseconds, in members of these names. -/
def span? : Json → Option Duration
  | .obj members => do
      let seconds ← (members.lookup "secs").bind word64?
      let nanos ← (members.lookup "nanos").bind word64?
      some (.ofParts seconds nanos)
  | _ => none

/-- An identifier. -/
def uuid (id : Uuid) : Json := .str id.text

/-- An identifier. -/
def uuid? (json : Json) : Option Uuid := json.str?.bind Uuid.ofText?

/-! ### Lists and names -/

/-- A list. -/
def list {α : Type} (write : α → Json) (items : List α) : Json := .arr (items.map write)

/-- A list. -/
def list? {α : Type} (read : Json → Option α) : Json → Option (List α)
  | .arr items => items.mapM read
  | _ => none

/-- How a value is read. -/
inductive Reading where
  /-- Where it stands. -/
  | inPlace
  /-- After it was kept until the kind of the value around it was known. -/
  | kept
deriving DecidableEq, Inhabited

/-- Whether a value says nothing: null, and of kept values the object without members too. -/
def isVoid (reading : Reading) : Json → Bool
  | .null => true
  | .obj [] => reading == .kept
  | _ => false

/--
A member of a finite set, by its name.  The name may also be the only one in an object, over a
value that says nothing.
-/
def named? {α : Type} (reading : Reading) (all : List α) (name : α → String) : Json → Option α
  | .str text => all.find? fun x => name x == text
  | .obj [(text, json)] =>
      if isVoid reading json then all.find? fun x => name x == text else none
  | _ => none

/-! ### Members of objects -/

/-- The members of an object. -/
def members? : Json → Option Members
  | .obj members => some members
  | _ => none

/--
The members of a structure.  In a list they stand in order; those of `more` have defaults, and may
be missing at the end.
-/
def fields? (needed more : List String) : Json → Option Members
  | .obj members => some members
  | .arr items =>
      let names := needed ++ more
      if needed.length ≤ items.length ∧ items.length ≤ names.length then some (names.zip items)
      else none
  | _ => none

/-- A value that is null when absent. -/
def nullable {α : Type} (write : α → Json) : Option α → Json
  | some x => write x
  | none => .null

end Json

namespace Members

/-- A member that is left out when absent. -/
def optional {α : Type} (name : String) (write : α → Json) : Option α → Members
  | some x => [(name, write x)]
  | none => []

/-- A member that must be there. -/
def required? {α : Type} (members : Members) (name : String) (read : Json → Option α) : Option α :=
  (members.lookup name).bind read

/-- A member with a value that stands in when it is absent. -/
def orElse? {α : Type} (members : Members) (name : String) (default : α) (read : Json → Option α) :
    Option α :=
  match members.lookup name with
  | some json => read json
  | none => some default

/-- A member that may be absent or null. -/
def optional? {α : Type} (members : Members) (name : String) (read : Json → Option α) :
    Option (Option α) :=
  match members.lookup name with
  | none => some none
  | some .null => some none
  | some json => (read json).map some

end Members

/-! ### Values of several kinds -/

/-- The kind of a value, and its content. -/
structure Kinded (κ : Type) where
  /-- The kind. -/
  kind : κ
  /-- The content, if there is one. -/
  content? : Option Json
  /-- How the content is read. -/
  reading : Json.Reading

namespace Json

/-- The kind in front of a content: its name, or of kept values its place among all kinds. -/
def kind? {κ : Type} (reading : Reading) (all : List κ) (name : κ → String) : Json → Option κ
  | .str text => all.find? fun x => name x == text
  | .int n => if reading = .kept ∧ 0 ≤ n then all[n.toNat]? else none
  | _ => none

/-- A kind and a content, under these names in an object or in this order in a list. -/
def kinded? {κ : Type} (reading : Reading) (kindName contentName : String) (all : List κ)
    (name : κ → String) : Json → Option (Kinded κ)
  | .obj members => do
      let kind ← Members.required? members kindName (named? reading all name)
      let isKept := decide (contentName < kindName)
      some ⟨kind, members.lookup contentName, if isKept then .kept else reading⟩
  | .arr [first, content] => do
      let kind ← first.kind? reading all name
      some ⟨kind, some content, reading⟩
  | _ => none

end Json

end Workflow
