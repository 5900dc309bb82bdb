/-
The calls on the store of operations as procedures that work in place.

A table that is kept in memory is written to step by step.  An insert goes over its operations once
to see that none is repeated, and a second time to put them in, each with its slot first.  An update
finds the slot, looks at what is there and writes over it.  A procedure that is refused leaves the
table as it is by then.

The lemmas named `run_...` say that it is as it was.  Run on the table of a store, a procedure gives
what the call on the store gives; behind a connection it leaves the table that the connection has
afterwards (`run_behind`).
-/
import Workflow.Operation.Store

namespace Workflow

/-- A procedure that works on a table in place. -/
abbrev TableProcedure (α : Type) := EStateM StoreError OperationTable α

namespace TableProcedure

/-- Goes over operations and notes their identifiers, up to one that is taken or noted already. -/
def check (noted : List Uuid) : List Operation → TableProcedure Unit
  | [] => return ()
  | operation :: operations => do
      if (← get).index.contains operation.id || noted.contains operation.id then
        throw (.alreadyExists operation.id)
      else check (operation.id :: noted) operations

/-- Puts an operation behind the others; its slot is indexed first. -/
def push (operation : Operation) : TableProcedure Unit := do
  let slot := (← get).entries.length
  modify fun table => { table with index := table.index.insert operation.id slot }
  modify fun table => { table with entries := table.entries ++ [operation] }

/-- Adds operations. -/
def insert (operations : List Operation) : TableProcedure Unit := do
  check [] operations
  forM operations push

/-- Replaces an operation by its next version. -/
def update (operation : Operation) : TableProcedure Unit := do
  match (← get).index.get? operation.id with
  | none => throw (.notFound operation.id)
  | some slot =>
      match (← get).entries[slot]? with
      | none => throw (.notFound operation.id)
      | some current =>
          if OperationStore.allowsUpdate current operation then
            modify fun table => { table with entries := table.entries.set slot operation }
          else throw (.invalidTransition operation.id current.state operation.state)

/-- Carries out a procedure behind a connection, unless the call is refused on the way. -/
def behind (refused : Bool) (procedure : TableProcedure Unit) : TableProcedure Unit :=
  if refused then throw StoreLink.offline else procedure

/-! ### What the steps do -/

theorem run_check (table : OperationTable) (operations : List Operation) :
    ∀ noted, (check noted operations).run table =
      match table.firstRepeated? noted operations with
      | none => .ok () table
      | some id => .error (.alreadyExists id) table := by
  induction operations with
  | nil => intro noted; rfl
  | cons operation rest ih =>
      intro noted
      unfold check OperationTable.firstRepeated?
      rw [EStateM.run_bind, EStateM.run_get]
      dsimp only
      by_cases htaken : table.index.contains operation.id || noted.contains operation.id
      · rw [if_pos htaken, if_pos htaken]
        rfl
      · rw [if_neg htaken, if_neg htaken]
        exact ih (operation.id :: noted)

theorem run_push (table : OperationTable) (operation : Operation) :
    (push operation).run table = .ok () (table.push operation) := rfl

theorem run_pushAll (operations : List Operation) :
    ∀ table : OperationTable, (forM operations push : TableProcedure Unit).run table =
      .ok () (operations.foldl OperationTable.push table) := by
  induction operations with
  | nil => intro table; rfl
  | cons operation rest ih =>
      intro table
      rw [List.forM_cons, EStateM.run_bind, run_push]
      exact ih (table.push operation)

/-! ### What the calls do -/

/-- What a call on a store gives, as a procedure would: a call that is refused has left the table as
it was. -/
def settled (store : OperationStore) :
    Except StoreError OperationStore → EStateM.Result StoreError OperationTable Unit
  | .ok next => .ok () next.toOperationTable
  | .error e => .error e store.toOperationTable

theorem run_insert (store : OperationStore) (operations : List Operation) :
    (insert operations).run store.toOperationTable = settled store (store.insert operations) := by
  unfold OperationStore.insert
  split
  · rename_i id hrepeated
    simp only [insert, EStateM.run_bind, run_check, hrepeated]
    rfl
  · rename_i hnone
    simp only [insert, EStateM.run_bind, run_check, hnone]
    exact run_pushAll operations store.toOperationTable

theorem run_update (store : OperationStore) (operation : Operation) :
    (update operation).run store.toOperationTable = settled store (store.update operation) := by
  unfold OperationStore.update OperationStore.get?
  cases hslot : store.index.get? operation.id with
  | none =>
      simp only [update, EStateM.run_bind, EStateM.run_get, hslot]
      rfl
  | some slot =>
      rw [Option.bind_some]
      cases hentry : store.entries[slot]? with
      | none =>
          simp only [update, EStateM.run_bind, EStateM.run_get, hslot, hentry]
          rfl
      | some current =>
          simp only [update, EStateM.run_bind, EStateM.run_get, hslot, hentry]
          by_cases hallowed : OperationStore.allowsUpdate current operation
          · have hreplace : store.replace operation =
                { store.toOperationTable with entries := store.entries.set slot operation } := by
              unfold OperationTable.replace
              rw [hslot]
            rw [if_pos hallowed, if_pos hallowed]
            exact congrArg (EStateM.Result.ok ()) hreplace.symm
          · rw [if_neg hallowed, if_neg hallowed]
            rfl

/-- What a call on a connection gives, with the table that it leaves. -/
def left : Except StoreError Unit × StoreLink → EStateM.Result StoreError OperationTable Unit
  | (.ok (), after) => .ok () after.store.toOperationTable
  | (.error e, after) => .error e after.store.toOperationTable

/-- **Behind a connection a procedure leaves what the connection has afterwards**, also where the
call is refused. -/
theorem run_behind (link : StoreLink) (refused : Bool) {procedure : TableProcedure Unit}
    {action : OperationStore → Except StoreError OperationStore}
    (hrun : procedure.run link.store.toOperationTable = settled link.store (action link.store)) :
    (behind refused procedure).run link.store.toOperationTable =
      left (link.change refused action) := by
  unfold StoreLink.change behind
  cases refused with
  | true => rfl
  | false =>
      show procedure.run link.store.toOperationTable = _
      rw [hrun]
      cases action link.store <;> rfl

theorem run_insert_behind (link : StoreLink) (operations : List Operation) :
    (behind link.inserts.next.1 (insert operations)).run link.store.toOperationTable =
      left (link.insert operations) :=
  @run_behind { link with inserts := link.inserts.next.2 } _ _
    (fun store => store.insert operations) (run_insert link.store operations)

end TableProcedure

end Workflow
