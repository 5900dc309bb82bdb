/-
Operations under short names.

Identifiers are hard to read.  Aliases name operations and batches by the order in which they
were introduced: `op-1`, `op-2`, and so on, and `batch-1` for the batch of the first ones.  What
was not introduced is shown by its identifier.
-/
import Workflow.Operation.Form

namespace Workflow

/-- The names of operations and batches. -/
structure Aliases where
  /-- The operations in the order of their names. -/
  operations : List Uuid := []
  /-- The batches in the order of their names. -/
  batches : List Uuid := []
deriving DecidableEq, Inhabited

namespace Aliases

/-- A list of identifiers with one more, unless it is there. -/
def added (ids : List Uuid) (id : Uuid) : List Uuid := if ids.contains id then ids else ids ++ [id]

/-- Names operations, and their batches. -/
def introduce (aliases : Aliases) (operations : List Operation) : Aliases :=
  operations.foldl
    (fun a operation =>
      { operations := added a.operations operation.id
        batches := added a.batches operation.batchId })
    aliases

/-- An identifier by its place in a list, or in full. -/
def shown (kind : String) (ids : List Uuid) (id : Uuid) : Json :=
  match ids.idxOf? id with
  | some index => .str s!"{kind}-{index + 1}"
  | none => .uuid id

/-- An operation under its names. -/
def toJson (aliases : Aliases) (operation : Operation) : Json :=
  .obj ((operation.toJson.members?.getD []).map fun (name, value) =>
    match name with
    | "id" => (name, shown "op" aliases.operations operation.id)
    | "batch_id" => (name, shown "batch" aliases.batches operation.batchId)
    | _ => (name, value))

/-- The identifier that a name stands for, or that is given in full. -/
def ofJson? (aliases : Aliases) (json : Json) : Option Uuid :=
  match aliases.operations.find? fun id => shown "op" aliases.operations id == json with
  | some id => some id
  | none =>
      match aliases.batches.find? fun id => shown "batch" aliases.batches id == json with
      | some id => some id
      | none => json.uuid?

end Aliases

end Workflow
