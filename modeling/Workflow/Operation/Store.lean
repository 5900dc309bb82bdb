/-
The store of operations.

Operations stay in the order they were inserted and are never removed.  An insert takes all of its
operations or none.  An update replaces an operation and may only move its state forward, or keep
a state that is not an end.

An index has the slot of every operation by its identifier.  A store carries the proof that it has
all of them and no others, so identifiers are different and the index leads to the operation that
is asked for.
-/
import Workflow.Log.Outage
import Workflow.Operation.Basic
import Workflow.Sorted.Map

namespace Workflow

/-- Why the store refuses a call. -/
inductive StoreError where
  /-- There is no such operation. -/
  | notFound (id : Uuid)
  /-- There is such an operation already. -/
  | alreadyExists (id : Uuid)
  /-- The update would move the operation backwards, or out of its end. -/
  | invalidTransition (id : Uuid) (source target : OperationState)
  /-- The store is not there. -/
  | unavailable (reason : String)
deriving DecidableEq, Inhabited

/-- The name of the cause. -/
def StoreError.name : StoreError → String
  | .notFound _ => "NotFound"
  | .alreadyExists _ => "AlreadyExists"
  | .invalidTransition _ _ _ => "InvalidTransition"
  | .unavailable _ => "Unavailable"

/-- The wording of the cause. -/
def StoreError.message : StoreError → String
  | .notFound id => s!"operation not found: {id.text}"
  | .alreadyExists id => s!"operation already exists: {id.text}"
  | .invalidTransition id source target =>
      s!"operation {id.text} cannot move from {source.name} to {target.name}"
  | .unavailable reason => s!"operation store unavailable: {reason}"

/-- Operations in slots, and the slot of each. -/
structure OperationTable where
  /-- The operations, the oldest first. -/
  entries : List Operation := []
  /-- The slot of an operation, by its identifier. -/
  index : SortedMap Uuid Nat := .empty

namespace OperationTable

/-- Puts an operation into a slot behind the others. -/
def push (table : OperationTable) (operation : Operation) : OperationTable where
  entries := table.entries ++ [operation]
  index := table.index.insert operation.id table.entries.length

/-- Puts an operation into the slot that its identifier has. -/
def replace (table : OperationTable) (operation : Operation) : OperationTable :=
  match table.index.get? operation.id with
  | some slot => { table with entries := table.entries.set slot operation }
  | none => table

/-- The first operation whose identifier is in the table or among those seen, or is that of an
earlier one. -/
def firstRepeated? (table : OperationTable) (seen : List Uuid) : List Operation → Option Uuid
  | [] => none
  | operation :: operations =>
      if table.index.contains operation.id || seen.contains operation.id then some operation.id
      else firstRepeated? table (operation.id :: seen) operations

/-- The index has the slot of every operation, and nothing else. -/
def Indexed (table : OperationTable) : Prop :=
  ∀ id slot, table.index.get? id = some slot ↔ table.entries[slot]?.map Operation.id = some id

variable {table : OperationTable} {operation : Operation}

theorem indexed_empty : ({} : OperationTable).Indexed := fun id slot => by
  simp

/-- An identifier without a slot is not that of any operation. -/
theorem Indexed.ne_of_free (h : table.Indexed) (hfree : table.index.get? operation.id = none)
    {slot : Nat} {entry : Operation} (hentry : table.entries[slot]? = some entry) :
    entry.id ≠ operation.id := fun heq => by
  have hslot := (h operation.id slot).mpr (by rw [hentry, Option.map_some, heq])
  rw [hfree] at hslot
  cases hslot

theorem Indexed.push (h : table.Indexed) (hfree : table.index.get? operation.id = none) :
    (table.push operation).Indexed := fun id slot => by
  show (table.index.insert operation.id table.entries.length).get? id = some slot ↔
    (table.entries ++ [operation])[slot]?.map Operation.id = some id
  rw [SortedMap.get?_insert]
  rcases Nat.lt_trichotomy slot table.entries.length with hlt | rfl | hgt
  · -- A slot that was there before.
    rw [List.getElem?_append_left hlt]
    split
    · rename_i heq
      subst heq
      have hne := h.ne_of_free hfree (List.getElem?_eq_getElem hlt)
      simp [List.getElem?_eq_getElem hlt, hne, Nat.ne_of_gt hlt]
    · exact h id slot
  · -- The slot behind them.
    rw [List.getElem?_concat_length]
    split
    · rename_i heq
      simp [heq]
    · rename_i hne
      have hnone : ¬ table.index.get? id = some table.entries.length := fun hslot => by
        have hentry := (h id _).mp hslot
        simp at hentry
      simp [hnone, Ne.symm hne]
  · -- No slot at all.
    have hout : (table.entries ++ [operation])[slot]? = none :=
      List.getElem?_eq_none (by rw [List.length_append]; exact hgt)
    rw [hout]
    split
    · simp [Nat.ne_of_lt hgt]
    · rw [h id slot, List.getElem?_eq_none (Nat.le_of_lt hgt)]

theorem Indexed.replace (h : table.Indexed) : (table.replace operation).Indexed := by
  unfold OperationTable.replace
  split
  · rename_i slot hslot
    intro id other
    refine (h id other).trans ?_
    show table.entries[other]?.map Operation.id = some id ↔
      (table.entries.set slot operation)[other]?.map Operation.id = some id
    by_cases hsame : slot = other
    · subst hsame
      obtain ⟨entry, hentry, hid⟩ := Option.map_eq_some_iff.mp ((h operation.id slot).mp hslot)
      have hlt : slot < table.entries.length := (List.getElem?_eq_some_iff.mp hentry).1
      rw [List.getElem?_set_self hlt, hentry, Option.map_some, Option.map_some, hid]
    · rw [List.getElem?_set_ne hsame]
  · exact h

/-- Nothing is repeated when the identifiers are different and none of them is taken. -/
theorem firstRepeated?_eq_none_iff (operations : List Operation) :
    ∀ seen : List Uuid, table.firstRepeated? seen operations = none ↔
      (operations.map Operation.id).Nodup ∧
        ∀ operation ∈ operations, table.index.get? operation.id = none ∧ operation.id ∉ seen := by
  induction operations with
  | nil => intro seen; simp [firstRepeated?]
  | cons first rest ih =>
      intro seen
      unfold firstRepeated?
      split
      · rename_i htaken
        refine ⟨nofun, fun h => ?_⟩
        obtain ⟨hfree, hunseen⟩ := h.2 first List.mem_cons_self
        simp [SortedMap.contains, hfree, hunseen] at htaken
      · rename_i hfree
        simp only [SortedMap.contains, Bool.or_eq_true, Option.isSome_iff_ne_none, ne_eq,
          List.contains_iff_mem, not_or, Decidable.not_not] at hfree
        rw [ih, List.map_cons, List.nodup_cons, List.forall_mem_cons]
        constructor
        · rintro ⟨hnodup, hrest⟩
          refine ⟨⟨fun hmem => ?_, hnodup⟩, hfree, fun operation ho =>
            ⟨(hrest operation ho).1, fun hseen => (hrest operation ho).2 (.tail _ hseen)⟩⟩
          obtain ⟨operation, ho, heq⟩ := List.mem_map.mp hmem
          exact (hrest operation ho).2 (heq ▸ .head _)
        · rintro ⟨⟨hnew, hnodup⟩, -, hrest⟩
          refine ⟨hnodup, fun operation ho => ⟨(hrest operation ho).1, fun hseen => ?_⟩⟩
          rcases List.mem_cons.mp hseen with heq | hseen
          · exact hnew (heq ▸ List.mem_map_of_mem ho)
          · exact (hrest operation ho).2 hseen

/-- Operations that are not repeated can be pushed one after the other. -/
theorem Indexed.pushAll {operations : List Operation} (h : table.Indexed)
    (hfree : table.firstRepeated? [] operations = none) :
    (operations.foldl OperationTable.push table).Indexed := by
  obtain ⟨hnodup, hnew⟩ := (firstRepeated?_eq_none_iff operations []).mp hfree
  clear hfree
  induction operations generalizing table with
  | nil => exact h
  | cons first rest ih =>
      obtain ⟨hfirst, hrest⟩ := List.nodup_cons.mp hnodup
      obtain ⟨⟨hfree, -⟩, hnew⟩ := List.forall_mem_cons.mp hnew
      refine ih (h.push hfree) hrest fun operation ho => ⟨?_, List.not_mem_nil⟩
      have hne : operation.id ≠ first.id := fun heq => hfirst (heq ▸ List.mem_map_of_mem ho)
      show (table.index.insert first.id table.entries.length).get? operation.id = none
      rw [SortedMap.get?_insert, if_neg hne]
      exact (hnew operation ho).1

end OperationTable

/-- The stored operations. -/
structure OperationStore extends OperationTable where
  /-- The index is right. -/
  indexed : toOperationTable.Indexed := by exact OperationTable.indexed_empty

namespace OperationStore

instance : Inhabited OperationStore := ⟨{}⟩

/-- How many operations there are. -/
def size (store : OperationStore) : Nat := store.entries.length

/-- The operation with an identifier. -/
def get? (store : OperationStore) (id : Uuid) : Option Operation :=
  (store.index.get? id).bind fun slot => store.entries[slot]?

/-- Adds operations, all of them or none. -/
def insert (store : OperationStore) (operations : List Operation) :
    Except StoreError OperationStore :=
  match hrepeated : store.firstRepeated? [] operations with
  | some id => .error (.alreadyExists id)
  | none =>
      .ok
        { toOperationTable := operations.foldl OperationTable.push store.toOperationTable
          indexed := store.indexed.pushAll hrepeated }

/-- Whether an update may replace one operation by another. -/
def allowsUpdate (current next : Operation) : Bool :=
  (current.state == next.state && !current.state.isTerminal) || current.state.canBecome next.state

/-- Replaces an operation by its next version. -/
def update (store : OperationStore) (operation : Operation) : Except StoreError OperationStore :=
  match store.get? operation.id with
  | none => .error (.notFound operation.id)
  | some current =>
      if allowsUpdate current operation then
        .ok { toOperationTable := store.replace operation, indexed := store.indexed.replace }
      else .error (.invalidTransition operation.id current.state operation.state)

/-- The first operations in a state, at most `limit`. -/
def fetch (store : OperationStore) (state : OperationState) (limit : Nat) : List Operation :=
  (store.entries.filter fun operation => operation.state == state).take limit

/-- The operations on an instance. -/
def byTarget (store : OperationStore) (targetKey : Nat) : List Operation :=
  store.entries.filter fun operation => operation.targetKey == targetKey

/-- The operations of a batch. -/
def byBatch (store : OperationStore) (batchId : Uuid) : List Operation :=
  store.entries.filter fun operation => operation.batchId == batchId

end OperationStore

/-- A store behind a connection that can fail. -/
structure StoreLink where
  /-- The store. -/
  store : OperationStore := {}
  /-- The outages of inserts. -/
  inserts : Outage := .none
  /-- The outages of fetches. -/
  fetches : Outage := .none
  /-- The outages of updates. -/
  updates : Outage := .none

namespace StoreLink

instance : Inhabited StoreLink := ⟨{}⟩

/-- The reason for a call that is refused on the way. -/
def offline : StoreError := .unavailable "store offline"

/-- Changes the store, unless the call was refused on the way. -/
def change (link : StoreLink) (refused : Bool)
    (action : OperationStore → Except StoreError OperationStore) :
    Except StoreError Unit × StoreLink :=
  if refused then (.error offline, link)
  else
    match action link.store with
    | .ok store => (.ok (), { link with store })
    | .error e => (.error e, link)

/-- Adds operations, all of them or none. -/
def insert (link : StoreLink) (operations : List Operation) : Except StoreError Unit × StoreLink :=
  let (refused, inserts) := link.inserts.next
  { link with inserts }.change refused fun store => store.insert operations

/-- Replaces an operation by its next version. -/
def update (link : StoreLink) (operation : Operation) : Except StoreError Unit × StoreLink :=
  let (refused, updates) := link.updates.next
  { link with updates }.change refused fun store => store.update operation

/-- The first operations in a state, at most `limit`. -/
def fetch (link : StoreLink) (state : OperationState) (limit : Nat) :
    Except StoreError (List Operation) × StoreLink :=
  let (refused, fetches) := link.fetches.next
  let link := { link with fetches }
  if refused then (.error offline, link) else (.ok (link.store.fetch state limit), link)

end StoreLink

end Workflow
