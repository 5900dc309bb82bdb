/-
What the store of operations keeps.

The index is right in every store, so identifiers are different and looking one up finds the
operation that has it (`OperationStore.get?_eq_some_iff`).  A call is refused, or it does all that
was asked for: an insert puts its operations behind the others (`OperationStore.insert_eq_ok_iff`),
an update replaces one operation where it stands (`OperationStore.update_eq_ok_iff`).  Calls that
work in place do the same, refused or not (`OperationStore.run_procedure`).

Hence operations keep their places for ever, and each is replaced by versions that lead from one
state to the next along `OperationState.Leads`, which nothing leaves that has ended.
-/
import Mathlib.Data.List.Chain
import Mathlib.Data.List.Nodup
import Workflow.Proofs.Operation.InPlace

namespace Workflow

/-- The states that an operation in a state may be replaced in. -/
inductive OperationState.Leads : OperationState → OperationState → Prop
  | scheduled : Leads .scheduled .scheduled
  | send : Leads .scheduled .sent
  | drop : Leads .scheduled .failed
  | sent : Leads .sent .sent
  | complete : Leads .sent .completed
  | fail : Leads .sent .failed

namespace OperationTable

/-- What is repeated is taken already, or by an operation before it. -/
theorem eq_append_of_firstRepeated? {table : OperationTable} {id : Uuid}
    {operations : List Operation} :
    ∀ {seen : List Uuid}, table.firstRepeated? seen operations = some id →
      ∃ before operation rest, operations = before ++ operation :: rest ∧ operation.id = id ∧
        table.firstRepeated? seen before = none ∧
        (table.index.get? id ≠ none ∨ id ∈ seen ∨ id ∈ before.map Operation.id) := by
  induction operations with
  | nil => intro seen h; cases h
  | cons first rest ih =>
      intro seen h
      unfold firstRepeated? at h
      split at h
      · rename_i htaken
        cases h
        simp only [SortedMap.contains, Bool.or_eq_true, Option.isSome_iff_ne_none,
          List.contains_iff_mem] at htaken
        exact ⟨[], first, rest, rfl, rfl, rfl, htaken.imp_right .inl⟩
      · rename_i hfree
        obtain ⟨before, operation, rest, rfl, hid, hnone, htaken⟩ := ih h
        refine ⟨first :: before, operation, rest, rfl, hid, ?_, ?_⟩
        · unfold firstRepeated?
          rw [if_neg hfree]
          exact hnone
        · refine htaken.imp_right fun htaken => ?_
          rwa [List.mem_cons, or_comm (a := id = first.id), or_assoc, ← List.mem_cons,
            ← List.map_cons] at htaken

end OperationTable

namespace OperationStore

variable {store next : OperationStore} {operation : Operation} {operations : List Operation}
  {id : Uuid}

/-! ### Looking up -/

theorem get?_mem (h : store.get? id = some operation) :
    operation ∈ store.entries ∧ operation.id = id := by
  obtain ⟨slot, hslot, hentry⟩ := Option.bind_eq_some_iff.mp h
  have hid := (store.indexed id slot).mp hslot
  rw [hentry, Option.map_some, Option.some.injEq] at hid
  exact ⟨List.mem_of_getElem? hentry, hid⟩

/-- A stored operation is found by its identifier. -/
theorem get?_of_mem (hmem : operation ∈ store.entries) :
    store.get? operation.id = some operation := by
  obtain ⟨slot, hentry⟩ := List.mem_iff_getElem?.mp hmem
  have hslot := (store.indexed operation.id slot).mpr (by rw [hentry, Option.map_some])
  unfold get?
  rw [hslot, Option.bind_some, hentry]

theorem get?_of_split {before rest : List Operation}
    (hentries : store.entries = before ++ operation :: rest) :
    store.get? operation.id = some operation :=
  get?_of_mem (by rw [hentries]; exact List.mem_append_right _ List.mem_cons_self)

/-- **The operation that is found is the one that has the identifier.** -/
theorem get?_eq_some_iff :
    store.get? id = some operation ↔ operation ∈ store.entries ∧ operation.id = id :=
  ⟨get?_mem, fun ⟨hmem, hid⟩ => hid ▸ get?_of_mem hmem⟩

/-- The index finds what a search would find. -/
theorem get?_eq_find? (store : OperationStore) (id : Uuid) :
    store.get? id = store.entries.find? fun operation => operation.id == id := by
  cases hfound : store.entries.find? fun operation => operation.id == id with
  | some operation =>
      exact get?_eq_some_iff.mpr
        ⟨List.mem_of_find?_eq_some hfound, by simpa using List.find?_some hfound⟩
  | none =>
      cases hget : store.get? id with
      | none => rfl
      | some operation =>
          obtain ⟨hmem, hid⟩ := get?_mem hget
          exact absurd (List.find?_eq_none.mp hfound operation hmem) (by simpa using hid)

/-- Stored operations have different identifiers. -/
theorem nodup_ids (store : OperationStore) : (store.entries.map Operation.id).Nodup := by
  rw [List.nodup_iff_getElem?_ne_getElem?]
  intro slot other hlt hother heq
  -- The index has one slot for the identifier.
  have hid := List.getElem?_eq_getElem hother
  have hfirst := (store.indexed _ slot).mpr (by rw [← List.getElem?_map, heq, hid])
  have hsecond := (store.indexed _ other).mpr (by rw [← List.getElem?_map, hid])
  rw [hfirst, Option.some.injEq] at hsecond
  exact Nat.ne_of_lt hlt hsecond

theorem index_eq_none_iff :
    store.index.get? id = none ↔ id ∉ store.entries.map Operation.id := by
  rw [Option.eq_none_iff_forall_ne_some, List.mem_iff_getElem?, not_exists]
  refine forall_congr' fun slot => not_congr ?_
  rw [List.getElem?_map]
  exact store.indexed id slot

theorem get?_eq_none_iff : store.get? id = none ↔ id ∉ store.entries.map Operation.id := by
  rw [Option.eq_none_iff_forall_ne_some, List.mem_map, not_exists]
  exact forall_congr' fun operation => not_congr get?_eq_some_iff

/-- Two stores with the same operations are the same store. -/
theorem ext_entries (h : store.entries = next.entries) : store = next := by
  obtain ⟨⟨entries, index⟩, hindexed⟩ := store
  obtain ⟨⟨entries', index'⟩, hindexed'⟩ := next
  obtain rfl : entries = entries' := h
  obtain rfl : index = index' := SortedMap.ext_get? fun id => Option.ext fun slot =>
    (hindexed id slot).trans (hindexed' id slot).symm
  rfl

/-! ### Inserts -/

/-- Operations that are pushed stand in their order behind the others. -/
theorem entries_pushAll (operations : List Operation) :
    ∀ table : OperationTable,
      (operations.foldl OperationTable.push table).entries = table.entries ++ operations := by
  induction operations with
  | nil => intro table; exact (List.append_nil _).symm
  | cons first rest ih =>
      intro table
      exact (ih (table.push first)).trans (List.append_assoc _ [first] rest)

/-- Nothing is repeated if the identifiers would all be different. -/
theorem firstRepeated?_eq_none_iff :
    store.firstRepeated? [] operations = none ↔
      ((store.entries ++ operations).map Operation.id).Nodup := by
  rw [OperationTable.firstRepeated?_eq_none_iff, List.map_append, List.nodup_append']
  refine ⟨fun ⟨hnodup, hfree⟩ => ⟨store.nodup_ids, hnodup, fun id hold hnew => ?_⟩,
    fun ⟨_, hnodup, happart⟩ => ⟨hnodup, fun operation ho => ⟨?_, List.not_mem_nil⟩⟩⟩
  · obtain ⟨operation, ho, rfl⟩ := List.mem_map.mp hnew
    exact index_eq_none_iff.mp (hfree operation ho).1 hold
  · exact index_eq_none_iff.mpr fun hold => happart hold (List.mem_map_of_mem ho)

/-- **An insert takes all operations if all identifiers are different then**, and is refused
otherwise. -/
theorem insert_eq_ok_iff :
    store.insert operations = .ok next ↔
      ((store.entries ++ operations).map Operation.id).Nodup ∧
        next.entries = store.entries ++ operations := by
  rw [← firstRepeated?_eq_none_iff]
  unfold insert
  split
  · rename_i id hrepeated
    rw [hrepeated]
    exact ⟨nofun, nofun⟩
  · rename_i hnone
    rw [Except.ok.injEq]
    refine ⟨?_, fun ⟨_, hentries⟩ =>
      ext_entries ((entries_pushAll operations _).trans hentries.symm)⟩
    rintro rfl
    exact ⟨hnone, entries_pushAll operations _⟩

/-- What is inserted has identifiers of its own. -/
theorem insert_ok (h : store.insert operations = .ok next) :
    next.entries = store.entries ++ operations ∧ (operations.map Operation.id).Nodup ∧
      ∀ operation ∈ operations, operation.id ∉ store.entries.map Operation.id := by
  obtain ⟨hnodup, hentries⟩ := insert_eq_ok_iff.mp h
  rw [List.map_append, List.nodup_append'] at hnodup
  exact ⟨hentries, hnodup.2.1, fun operation ho hold => hnodup.2.2 hold (List.mem_map_of_mem ho)⟩

/-- An insert that is refused names the first operation whose identifier is taken. -/
theorem insert_error {e : StoreError} (h : store.insert operations = .error e) :
    ∃ before operation rest, operations = before ++ operation :: rest ∧
      ((store.entries ++ before).map Operation.id).Nodup ∧
      operation.id ∈ (store.entries ++ before).map Operation.id ∧
      e = .alreadyExists operation.id := by
  unfold insert at h
  split at h
  · rename_i id hrepeated
    cases h
    obtain ⟨before, operation, rest, rfl, rfl, hnone, htaken⟩ :=
      OperationTable.eq_append_of_firstRepeated? hrepeated
    refine ⟨before, operation, rest, rfl, firstRepeated?_eq_none_iff.mp hnone, ?_, rfl⟩
    rw [List.map_append, List.mem_append]
    rcases htaken with hstored | hseen | hbefore
    · exact .inl (Decidable.not_not.mp fun hnew => hstored (index_eq_none_iff.mpr hnew))
    · cases hseen
    · exact .inr hbefore
  · cases h

/-- **An insert takes all operations, or names the first whose identifier is taken.** -/
theorem insert_cases (store : OperationStore) (operations : List Operation) :
    (((store.entries ++ operations).map Operation.id).Nodup ∧
      ∃ next, store.insert operations = .ok next ∧ next.entries = store.entries ++ operations) ∨
    ∃ before operation rest, operations = before ++ operation :: rest ∧
      ((store.entries ++ before).map Operation.id).Nodup ∧
      operation.id ∈ (store.entries ++ before).map Operation.id ∧
      store.insert operations = .error (.alreadyExists operation.id) := by
  cases hinsert : store.insert operations with
  | ok next =>
      obtain ⟨hnodup, hentries⟩ := insert_eq_ok_iff.mp hinsert
      exact .inl ⟨hnodup, next, rfl, hentries⟩
  | error e =>
      obtain ⟨before, operation, rest, hsplit, hnodup, htaken, rfl⟩ := insert_error hinsert
      exact .inr ⟨before, operation, rest, hsplit, hnodup, htaken, rfl⟩

/-! ### Updates -/

theorem allowsUpdate_iff {current : Operation} :
    allowsUpdate current operation ↔ current.state.Leads operation.state := by
  unfold allowsUpdate
  generalize current.state = state
  generalize operation.state = next
  constructor
  · intro h
    cases state with
    | scheduled =>
        cases next with
        | scheduled => exact .scheduled
        | sent => exact .send
        | completed => cases h
        | failed => exact .drop
    | sent =>
        cases next with
        | scheduled => cases h
        | sent => exact .sent
        | completed => exact .complete
        | failed => exact .fail
    | completed => cases next <;> cases h
    | failed => cases next <;> cases h
  · intro h
    cases h <;> rfl

/-- An operation is replaced where it stands. -/
theorem entries_replace {before rest : List Operation} {current : Operation}
    (hentries : store.entries = before ++ current :: rest) (hid : current.id = operation.id) :
    (store.replace operation).entries = before ++ operation :: rest := by
  have hslot : store.index.get? operation.id = some before.length := by
    refine (store.indexed _ _).mpr ?_
    rw [hentries, List.getElem?_append_right (Nat.le_refl _), Nat.sub_self, List.getElem?_cons_zero,
      Option.map_some, hid]
  unfold OperationTable.replace
  rw [hslot]
  show store.entries.set before.length operation = _
  rw [hentries, List.set_append_right _ _ (Nat.le_refl _), Nat.sub_self, List.set_cons_zero]

/-- **An update replaces the operation that has its identifier, if the one's state leads to the
other's**, and is refused otherwise. -/
theorem update_eq_ok_iff :
    store.update operation = .ok next ↔
      ∃ before current rest, store.entries = before ++ current :: rest ∧
        current.id = operation.id ∧ current.state.Leads operation.state ∧
        next.entries = before ++ operation :: rest := by
  unfold update
  constructor
  · intro h
    cases hget : store.get? operation.id with
    | none => rw [hget] at h; cases h
    | some current =>
        rw [hget] at h
        dsimp only at h
        split at h
        · rename_i hallowed
          cases h
          obtain ⟨hmem, hid⟩ := get?_mem hget
          obtain ⟨before, rest, hentries⟩ := List.append_of_mem hmem
          exact ⟨before, current, rest, hentries, hid, allowsUpdate_iff.mp hallowed,
            entries_replace hentries hid⟩
        · cases h
  · rintro ⟨before, current, rest, hentries, hid, hleads, hnext⟩
    have hget : store.get? operation.id = some current := hid ▸ get?_of_split hentries
    rw [hget]
    dsimp only
    rw [if_pos (allowsUpdate_iff.mpr hleads)]
    exact congrArg Except.ok (ext_entries ((entries_replace hentries hid).trans hnext.symm))

/-- An update replaces the operation of its identifier. -/
theorem update_ok (h : store.update operation = .ok next) (id : Uuid) :
    next.get? id = (if id = operation.id then some operation else store.get? id) ∧
      next.entries.map Operation.id = store.entries.map Operation.id := by
  obtain ⟨before, current, rest, hentries, hid, -, hnext⟩ := update_eq_ok_iff.mp h
  constructor
  · by_cases heq : id = operation.id
    · rw [if_pos heq, heq]
      exact get?_of_split hnext
    · rw [if_neg heq]
      refine Option.ext fun other => ?_
      rw [get?_eq_some_iff, get?_eq_some_iff, hentries, hnext]
      refine and_congr_left fun hother => ?_
      have hne : other ≠ operation := fun h => heq (by rw [← hother, h])
      have hne' : other ≠ current := fun h => heq (by rw [← hother, h, hid])
      simp [hne, hne']
  · rw [hentries, hnext]
    simp [hid]

/-- An update that is refused names the operation, which is not stored or cannot be replaced. -/
theorem update_error {e : StoreError} (h : store.update operation = .error e) :
    (store.get? operation.id = none ∧ e = .notFound operation.id) ∨
      ∃ current, store.get? operation.id = some current ∧
        ¬ current.state.Leads operation.state ∧
        e = .invalidTransition operation.id current.state operation.state := by
  unfold update at h
  cases hget : store.get? operation.id with
  | none =>
      rw [hget] at h
      cases h
      exact .inl ⟨rfl, rfl⟩
  | some current =>
      rw [hget] at h
      dsimp only at h
      split at h
      · cases h
      · rename_i hrefused
        cases h
        exact .inr ⟨current, rfl, fun hleads => hrefused (allowsUpdate_iff.mpr hleads), rfl⟩

/-- **An update replaces one operation where it stands, or tells why it does not.** -/
theorem update_cases (store : OperationStore) (operation : Operation) :
    (∃ before current rest, store.entries = before ++ current :: rest ∧
      current.id = operation.id ∧ current.state.Leads operation.state ∧
      ∃ next, store.update operation = .ok next ∧ next.entries = before ++ operation :: rest) ∨
    (store.get? operation.id = none ∧
      store.update operation = .error (.notFound operation.id)) ∨
    ∃ current, store.get? operation.id = some current ∧ ¬ current.state.Leads operation.state ∧
      store.update operation =
        .error (.invalidTransition operation.id current.state operation.state) := by
  cases hupdate : store.update operation with
  | ok next =>
      obtain ⟨before, current, rest, hentries, hid, hleads, hnext⟩ := update_eq_ok_iff.mp hupdate
      exact .inl ⟨before, current, rest, hentries, hid, hleads, next, rfl, hnext⟩
  | error e =>
      rcases update_error hupdate with ⟨hnone, rfl⟩ | ⟨current, hsome, hstays, rfl⟩
      · exact .inr (.inl ⟨hnone, rfl⟩)
      · exact .inr (.inr ⟨current, hsome, hstays, rfl⟩)

end OperationStore

/-! ### A store behind a connection -/

namespace StoreLink

/-- A change is refused on the way or by the store, or the store makes it. -/
theorem change_cases (link : StoreLink) (refused : Bool)
    (action : OperationStore → Except StoreError OperationStore) :
    (∃ e, (refused = true ∨ action link.store = .error e) ∧
      link.change refused action = (.error e, link)) ∨
    ∃ store, refused = false ∧ action link.store = .ok store ∧
      link.change refused action = (.ok (), { link with store }) := by
  unfold change
  cases refused with
  | true => exact .inl ⟨_, .inl rfl, rfl⟩
  | false =>
      cases haction : action link.store with
      | error e => exact .inl ⟨e, .inr rfl, rfl⟩
      | ok store => exact .inr ⟨store, rfl, rfl, rfl⟩

/-- An insert is refused, or the store takes all of it. -/
theorem insert_cases (link : StoreLink) (operations : List Operation) :
    ∃ inserts,
      (∃ e, (link.inserts.next.1 = true ∨ link.store.insert operations = .error e) ∧
        link.insert operations = (.error e, { link with inserts })) ∨
      ∃ store, link.inserts.next.1 = false ∧ link.store.insert operations = .ok store ∧
        link.insert operations = (.ok (), { link with store, inserts }) :=
  ⟨link.inserts.next.2, change_cases { link with inserts := link.inserts.next.2 }
    link.inserts.next.1 fun store => store.insert operations⟩

/-- An update is refused, or the store makes it. -/
theorem update_cases (link : StoreLink) (operation : Operation) :
    ∃ updates, (∃ e, link.update operation = (.error e, { link with updates })) ∨
      ∃ store, link.store.update operation = .ok store ∧
        link.update operation = (.ok (), { link with store, updates }) :=
  ⟨link.updates.next.2, (change_cases { link with updates := link.updates.next.2 }
    link.updates.next.1 fun store => store.update operation).imp
      (fun ⟨e, _, heq⟩ => ⟨e, heq⟩) fun ⟨store, _, hupdate, heq⟩ => ⟨store, hupdate, heq⟩⟩

end StoreLink

/-! ### Runs -/

/-- A call that changes the store. -/
inductive StoreCall where
  /-- Adds operations. -/
  | insert (operations : List Operation)
  /-- Replaces an operation. -/
  | update (operation : Operation)
deriving DecidableEq, Inhabited

/-- The call carried out in place. -/
def StoreCall.procedure : StoreCall → TableProcedure Unit
  | .insert operations => .insert operations
  | .update operation => .update operation

namespace OperationStore

variable {store next : OperationStore} {operation : Operation}

/-- What the store answers. -/
def call (store : OperationStore) : StoreCall → Except StoreError OperationStore
  | .insert operations => store.insert operations
  | .update operation => store.update operation

theorem run_procedure (store : OperationStore) (call : StoreCall) :
    call.procedure.run store.toOperationTable = TableProcedure.settled store (store.call call) := by
  cases call with
  | insert operations => exact TableProcedure.run_insert store operations
  | update operation => exact TableProcedure.run_update store operation

/-- The store after a call. -/
def after (store : OperationStore) (call : StoreCall) : OperationStore :=
  match store.call call with
  | .ok next => next
  | .error _ => store

/-- The store at every moment of a run, from before the first call to after the last. -/
def moments (store : OperationStore) : List StoreCall → List OperationStore
  | [] => [store]
  | call :: calls => store :: (store.after call).moments calls

/-- One moment and the next: operations keep their places, and each stays or is replaced by one that
its state leads to. -/
structure Succeeds (store next : OperationStore) : Prop where
  places : store.entries.map Operation.id <+: next.entries.map Operation.id
  leads : ∀ id operation, store.get? id = some operation → ∃ version,
    next.get? id = some version ∧ (version = operation ∨ operation.state.Leads version.state)

/-- **A call leads to the next moment**, whatever is asked for. -/
theorem succeeds_after (store : OperationStore) (call : StoreCall) :
    store.Succeeds (store.after call) := by
  unfold after
  cases hcall : store.call call with
  | error e => exact ⟨List.prefix_refl _, fun _ operation hget => ⟨operation, hget, .inl rfl⟩⟩
  | ok next =>
      cases call with
      | insert operations =>
          obtain ⟨-, hentries⟩ := insert_eq_ok_iff.mp hcall
          refine ⟨by rw [hentries, List.map_append]; exact List.prefix_append _ _,
            fun id operation hget => ⟨operation, ?_, .inl rfl⟩⟩
          obtain ⟨hmem, hid⟩ := get?_mem hget
          exact get?_eq_some_iff.mpr ⟨by rw [hentries]; exact List.mem_append_left _ hmem, hid⟩
      | update operation =>
          refine ⟨(update_ok hcall operation.id).2 ▸ List.prefix_refl _, fun id current hget => ?_⟩
          have hnext := (update_ok hcall id).1
          split at hnext
          · rename_i hid
            obtain ⟨before, replaced, rest, hentries, hsame, hleads, -⟩ := update_eq_ok_iff.mp hcall
            have hreplaced : store.get? id = some replaced :=
              hid.trans hsame.symm ▸ get?_of_split hentries
            cases hget.symm.trans hreplaced
            exact ⟨operation, hnext, .inr hleads⟩
          · exact ⟨current, hnext.trans hget, .inl rfl⟩

theorem head?_moments (store : OperationStore) (calls : List StoreCall) :
    (store.moments calls).head? = some store := by
  cases calls <;> rfl

theorem isChain_moments (calls : List StoreCall) :
    ∀ store : OperationStore, (store.moments calls).IsChain Succeeds := by
  induction calls with
  | nil => intro store; exact .singleton store
  | cons call rest ih =>
      intro store
      refine List.isChain_cons.mpr ⟨fun next hnext => ?_, ih (store.after call)⟩
      rw [head?_moments] at hnext
      cases hnext
      exact store.succeeds_after call

/-- The versions of an operation at the moments of a run. -/
def versions (moments : List OperationStore) (id : Uuid) : List Operation :=
  moments.filterMap (·.get? id)

/-- **Each version leads to the next one**, or the operation stays as it is. -/
theorem isChain_versions (id : Uuid) :
    ∀ {moments : List OperationStore}, moments.IsChain Succeeds →
      (versions moments id).IsChain fun operation version =>
        version = operation ∨ operation.state.Leads version.state
  | [], _ => .nil
  | store :: rest, h => by
      obtain ⟨hnext, hrest⟩ := List.isChain_cons.mp h
      have ih := isChain_versions id hrest
      unfold versions at ih ⊢
      cases hget : store.get? id with
      | none =>
          rw [List.filterMap_cons, hget]
          exact ih
      | some operation =>
          rw [List.filterMap_cons, hget]
          refine List.isChain_cons.mpr ⟨fun version hversion => ?_, ih⟩
          cases rest with
          | nil => cases hversion
          | cons next rest =>
              -- The next moment has a version, so it is the one that follows.
              obtain ⟨other, hother, hleads⟩ := (hnext next rfl).leads id operation hget
              rw [List.filterMap_cons, hother] at hversion
              cases hversion
              exact hleads

/-- **What has ended stays as it is.** -/
theorem pairwise_final {versions : List Operation}
    (h : versions.IsChain fun operation version =>
      version = operation ∨ operation.state.Leads version.state) :
    versions.Pairwise fun operation later => operation.state.isTerminal → later = operation := by
  have htrans : ∀ {first second third : Operation},
      (first.state.isTerminal → second = first) → (second.state.isTerminal → third = second) →
        first.state.isTerminal → third = first := fun h h' hend => by
    have hsame := h hend
    subst hsame
    exact h' hend
  have : Trans (fun operation later : Operation => operation.state.isTerminal → later = operation)
      (fun operation later => operation.state.isTerminal → later = operation)
      (fun operation later => operation.state.isTerminal → later = operation) := ⟨htrans⟩
  refine (h.imp fun operation version hstep hend => ?_).pairwise
  rcases hstep with hsame | hleads
  · exact hsame
  · generalize operation.state = state at hleads hend
    generalize version.state = next at hleads
    cases hleads <;> cases hend

/-! ### Listings -/

/-- The list has the stored operations of a kind and no others, each once, the oldest first. -/
structure Lists (store : OperationStore) (kind : Operation → Prop) (found : List Operation) :
    Prop where
  ordered : found.Sublist store.entries
  exactly : ∀ operation, operation ∈ found ↔ operation ∈ store.entries ∧ kind operation

theorem lists_filter (store : OperationStore) {α : Type} [DecidableEq α] (field : Operation → α)
    (value : α) :
    store.Lists (field · = value)
      (store.entries.filter fun operation => field operation == value) :=
  ⟨List.filter_sublist, fun operation => by rw [List.mem_filter, beq_iff_eq]⟩

/-! ### The history of a store -/

/-- What a store answers at any moment. -/
structure Answers (store : OperationStore) : Prop where
  /-- Identifiers are different. -/
  distinct : (store.entries.map Operation.id).Nodup
  /-- The index has the slot of each operation and no other slots. -/
  slots : ∀ id slot, store.index.get? id = some slot ↔
    store.entries[slot]?.map Operation.id = some id
  /-- The operation that is found is the one with the identifier. -/
  found : ∀ id operation, store.get? id = some operation ↔
    operation ∈ store.entries ∧ operation.id = id
  /-- An insert takes all of its operations, or names the first whose identifier is taken. -/
  inserts : ∀ operations,
    (((store.entries ++ operations).map Operation.id).Nodup ∧
      ∃ next, store.call (.insert operations) = .ok next ∧
        next.entries = store.entries ++ operations) ∨
    ∃ before operation rest, operations = before ++ operation :: rest ∧
      ((store.entries ++ before).map Operation.id).Nodup ∧
      operation.id ∈ (store.entries ++ before).map Operation.id ∧
      store.call (.insert operations) = .error (.alreadyExists operation.id)
  /-- An update replaces one operation where it stands, or the operation is not stored or its state
  does not lead to the new one. -/
  updates : ∀ operation,
    (∃ before current rest, store.entries = before ++ current :: rest ∧
      current.id = operation.id ∧ current.state.Leads operation.state ∧
      ∃ next, store.call (.update operation) = .ok next ∧
        next.entries = before ++ operation :: rest) ∨
    (store.get? operation.id = none ∧
      store.call (.update operation) = .error (.notFound operation.id)) ∨
    ∃ current, store.get? operation.id = some current ∧ ¬ current.state.Leads operation.state ∧
      store.call (.update operation) =
        .error (.invalidTransition operation.id current.state operation.state)
  /-- A call that succeeds leads to the store it answers with. -/
  accepted : ∀ call next, store.call call = .ok next → store.after call = next
  /-- A call that is refused changes nothing. -/
  refused : ∀ call e, store.call call = .error e → store.after call = store
  /-- In place a call does the same: a refused one leaves the table of the store as it was. -/
  inPlace : ∀ call : StoreCall,
    call.procedure.run store.toOperationTable = TableProcedure.settled store (store.call call)
  fetched : ∀ state limit, ∃ all, store.Lists (·.state = state) all ∧
    store.fetch state limit = all.take limit
  byTarget : ∀ targetKey, store.Lists (·.targetKey = targetKey) (store.byTarget targetKey)
  byBatch : ∀ batchId, store.Lists (·.batchId = batchId) (store.byBatch batchId)

theorem answers (store : OperationStore) : store.Answers where
  distinct := store.nodup_ids
  slots := store.indexed
  found := fun _ _ => get?_eq_some_iff
  inserts := store.insert_cases
  updates := store.update_cases
  accepted := fun call next hok => by
    unfold after
    rw [hok]
  refused := fun call e herror => by
    unfold after
    rw [herror]
  inPlace := store.run_procedure
  fetched := fun state limit => ⟨_, store.lists_filter Operation.state state, rfl⟩
  byTarget := store.lists_filter Operation.targetKey
  byBatch := store.lists_filter Operation.batchId

/-- **The store only moves forward.**  Whatever is inserted and updated in whatever order, at every
moment the index and the listings are right, and a call does all that is asked for or is refused and
changes nothing.  From moment to moment operations keep their places and none goes away; and the
versions of each lead from state to state, and end where they end. -/
theorem moves_onward (calls : List StoreCall) :
    let moments := ({} : OperationStore).moments calls
    (∀ store ∈ moments, store.Answers) ∧
    (moments.IsChain fun store next =>
      store.entries.map Operation.id <+: next.entries.map Operation.id) ∧
    ∀ id,
      ((versions moments id).IsChain fun operation version =>
        version = operation ∨ operation.state.Leads version.state) ∧
      (versions moments id).Pairwise fun operation later =>
        operation.state.isTerminal → later = operation := by
  have hchain := isChain_moments calls {}
  refine ⟨fun store _ => store.answers, hchain.imp fun _ _ h => h.places, fun id => ?_⟩
  have hversions := isChain_versions id hchain
  exact ⟨hversions, pairwise_final hversions⟩

/-- A repeated insert and a late failure are refused. -/
def contested : List StoreCall :=
  let first : Operation := ⟨⟨1⟩, .updateRetries, .scheduled, 7, ⟨9⟩, [], none, .epoch, none⟩
  let second := { first with id := ⟨2⟩ }
  let sent := first.sent [3]
  [.insert [first, second], .update sent, .insert [{ first with id := ⟨3⟩ }, second],
    .update (sent.completed .epoch), .update (sent.failed "too late" .epoch)]

theorem moves_onward_contested :
    let moments := ({} : OperationStore).moments contested
    ∃ store ∈ moments, store.Answers ∧ store.size = 2 ∧
      (versions moments ⟨1⟩).map Operation.state =
        [.scheduled, .sent, .sent, .completed, .completed] ∧
      (versions moments ⟨1⟩).Pairwise fun operation later =>
        operation.state.isTerminal → later = operation := by
  intro moments
  obtain ⟨hanswers, -, hversions⟩ := moves_onward contested
  have hlast : moments.getLast nofun ∈ moments := List.getLast_mem _
  exact ⟨_, hlast, hanswers _ hlast, by decide, by decide, (hversions ⟨1⟩).2⟩

end OperationStore

end Workflow
