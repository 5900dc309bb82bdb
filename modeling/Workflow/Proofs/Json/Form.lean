/-
The parts of stored values are read back.

For each kind of single value what is written is read: numbers that fit their width, texts,
instants, identifiers.  Durations are the exception, because they are stored in whole milliseconds
of 64 bits: what is read is the duration as it is stored (`Duration.stored`).
So values without durations are read as they were written (`Faithful`), and the others with their
durations as they are stored and no other change (`Lossless`).

A member of an object is absent in one of four ways, and each way has its own lemma here: it must
be there (`required?_of_lookup`), it has a default that stands in (`orElse?_of_lookup`), it is left
out (`optional?_of_lookup`), or it is null (`optional?_of_nullable`).  They ask which value is
looked up under the name, so a structure is read back if each of its names leads to what was
written under it.
-/
import Workflow.Json.Form
import Workflow.Proofs.Text.Uuid
import Workflow.Proofs.Time.Rfc3339

namespace Workflow

/-! ### Durations -/

namespace Duration

/-- The duration as it is stored: in whole milliseconds, at most the largest number of 64 bits. -/
def stored (d : Duration) : Duration := ofMillis d.storedMillis

/-- The duration is a whole number of milliseconds, and the number has 64 bits. -/
def IsWhole (d : Duration) : Prop := d.nanos % nanosPerMilli = 0 ∧ d.millis < 2 ^ 64

instance (d : Duration) : Decidable d.IsWhole := inferInstanceAs (Decidable (_ ∧ _))

theorem stored_nanos (d : Duration) :
    d.stored.nanos = min (d.nanos / 1000000) (2 ^ 64 - 1) * 1000000 := rfl

/-- A whole number of milliseconds is stored as it is. -/
theorem IsWhole.stored_eq {d : Duration} (h : d.IsWhole) : d.stored = d := by
  obtain ⟨hwhole, hlt⟩ := h
  have hmillis : d.storedMillis = d.millis := by
    refine Nat.min_eq_left ?_
    have hword : maxWord64 = 2 ^ 64 - 1 := rfl
    omega
  have hnanos : d.millis * nanosPerMilli = d.nanos :=
    Nat.div_mul_cancel (Nat.dvd_of_mod_eq_zero hwhole)
  rw [stored, hmillis, ofMillis, hnanos]

end Duration

/-! ### Values that are read back -/

namespace Json

/-- What is written for a value is not null, and is read as the value with a change. -/
structure ReadsBack {α : Type} (write : α → Json) (read : Json → Option α) (change : α → α)
    (value : α) : Prop where
  not_null : write value ≠ .null
  read : read (write value) = some (change value)

section

variable {α : Type} {write : α → Json} {read : Json → Option α} {Fits : α → Prop}
  {durations : α → List Duration} {mapDurations : (Duration → Duration) → α → α}

/-- Values that fit are read as they were written. -/
def Faithful (write : α → Json) (read : Json → Option α) (Fits : α → Prop) : Prop :=
  ∀ value, Fits value → read (write value) = some value

/-- A change of the durations in a value is made to each of them, in their order, and a value whose
durations stay as they are stays as it is. -/
structure Reaches (durations : α → List Duration)
    (mapDurations : (Duration → Duration) → α → α) : Prop where
  durations_map : ∀ change value,
    durations (mapDurations change value) = (durations value).map change
  map_eq : ∀ {change value}, (∀ d ∈ durations value, change d = d) →
    mapDurations change value = value

/-- Of values that fit nothing is lost but what their durations lose in being stored. -/
structure Lossless (write : α → Json) (read : Json → Option α) (Fits : α → Prop)
    (durations : α → List Duration) (mapDurations : (Duration → Duration) → α → α) : Prop where
  reaches : Reaches durations mapDurations
  /-- A value is read with its durations as they are stored, and no other change. -/
  read_stored : ∀ value, Fits value →
    read (write value) = some (mapDurations Duration.stored value)
  /-- A value whose durations are whole numbers of milliseconds is read as it was written. -/
  read_whole : ∀ value, Fits value → (∀ d ∈ durations value, d.IsWhole) →
    read (write value) = some value

theorem Faithful.of_readsBack (hback : ∀ {value}, Fits value → ReadsBack write read id value) :
    Faithful write read Fits := fun _ hfits => (hback hfits).read

theorem Lossless.of_readsBack (hreaches : Reaches durations mapDurations)
    (hback : ∀ {value}, Fits value → ReadsBack write read (mapDurations Duration.stored) value) :
    Lossless write read Fits durations mapDurations where
  reaches := hreaches
  read_stored _ hfits := (hback hfits).read
  read_whole value hfits hwhole := by
    have hsame : mapDurations Duration.stored value = value :=
      hreaches.map_eq fun d hd => (hwhole d hd).stored_eq
    rw [(hback hfits).read, hsame]

end

/-! ### Single values -/

theorem nat?_nat {limit n : Nat} (hle : n ≤ limit) : nat? limit (nat n) = some n := by
  rw [nat, nat?, if_pos ⟨Int.natCast_nonneg n, hle⟩]
  rfl

theorem int?_int {bound : Nat} {n : Int} (hlow : -(bound : Int) ≤ n) (hhigh : n < bound) :
    int? bound (.int n) = some n := if_pos ⟨hlow, hhigh⟩

theorem instant?_instant (i : Instant) : instant? (instant i) = some i := by
  rw [instant?, instant, str?, Option.bind_some, Rfc3339.parseLenient?_text]

theorem millis?_millis (d : Duration) : millis? (millis d) = some d.stored := by
  have hread : word64? (millis d) = some d.storedMillis := nat?_nat (Nat.min_le_right _ _)
  rw [millis?, hread]
  rfl

theorem uuid?_uuid {id : Uuid} (hfits : id.Fits) : uuid? (uuid id) = some id := by
  rw [uuid?, uuid, str?, Option.bind_some, Uuid.ofText?_text hfits]

theorem readsBack_nat {limit n : Nat} (hle : n ≤ limit) : ReadsBack nat (nat? limit) id n :=
  ⟨Json.noConfusion, nat?_nat hle⟩

theorem readsBack_str (text : String) : ReadsBack .str str? id text := ⟨Json.noConfusion, rfl⟩

theorem readsBack_instant (i : Instant) : ReadsBack instant instant? id i :=
  ⟨Json.noConfusion, instant?_instant i⟩

theorem readsBack_millis (d : Duration) : ReadsBack millis millis? Duration.stored d :=
  ⟨Json.noConfusion, millis?_millis d⟩

/-- A list is read back if its items are. -/
theorem readsBack_list {α : Type} {write : α → Json} {read : Json → Option α} {change : α → α}
    {items : List α} (hitems : ∀ x ∈ items, ReadsBack write read change x) :
    ReadsBack (list write) (list? read) (List.map change) items := by
  refine ⟨Json.noConfusion, ?_⟩
  show (items.map write).mapM read = some (items.map change)
  induction items with
  | nil => rfl
  | cons x rest ih =>
      have hfirst := (hitems x List.mem_cons_self).read
      have hrest := ih fun y hy => hitems y (List.mem_cons_of_mem x hy)
      simp only [List.map_cons, List.mapM_cons, hfirst, hrest, Option.bind_eq_bind,
        Option.bind_some]
      rfl

/-- A kind with a content beside it is read back. -/
theorem kinded?_content {κ : Type} {reading : Reading} {kindName contentName : String}
    {all : List κ} {name : κ → String} {kind : κ} {content kindJson : Json}
    (hnames : contentName ≠ kindName)
    (hkind : named? reading all name kindJson = some kind) :
    kinded? reading kindName contentName all name
        (.obj [(kindName, kindJson), (contentName, content)]) =
      some ⟨kind, some content, if contentName < kindName then .kept else reading⟩ := by
  have hcontent : (contentName == kindName) = false := beq_eq_false_iff_ne.mpr hnames
  simp [kinded?, Members.required?, List.lookup_cons, hkind, hcontent]

end Json

/-! ### Members of objects -/

namespace Members

variable {α : Type} {members : Members} {name : String} {read : Json → Option α}

@[simp] theorem lookup_append (first second : Members) (name : String) :
    List.lookup name (first ++ second) = (first.lookup name).or (second.lookup name) :=
  List.lookup_append

@[simp] theorem lookup_cons (written : String) (json : Json) (rest : Members) (name : String) :
    List.lookup name ((written, json) :: rest) =
      if name == written then some json else rest.lookup name := by
  cases h : name == written <;> simp [List.lookup_cons, h]

/-- What is looked up among members of which one is left out when absent. -/
@[simp] theorem lookup_optional (written name : String) (write : α → Json) (x : Option α) :
    List.lookup name (optional written write x) =
      if name == written then x.map write else none := by
  cases x with
  | none => simp [optional]
  | some x => simp [optional]

theorem required?_of_lookup {json : Json} {value : α} (hread : read json = some value)
    (hlookup : members.lookup name = some json) :
    members.required? name read = some value := by
  rw [required?, hlookup, Option.bind_some, hread]

theorem orElse?_of_lookup {json : Json} {value default : α} (hread : read json = some value)
    (hlookup : members.lookup name = some json) :
    members.orElse? name default read = some value := by
  rw [orElse?, hlookup]
  exact hread

variable {write : α → Json} {change : α → α}

/-- A value that is not written as null is read back from a member that may be absent. -/
theorem optional?_of_some {value : α} (hread : Json.ReadsBack write read change value)
    (hlookup : members.lookup name = some (write value)) :
    members.optional? name read = some (some (change value)) := by
  obtain ⟨hnull, hread⟩ := hread
  rw [optional?, hlookup]
  generalize write value = json at hnull hread
  cases json with
  | null => exact absurd rfl hnull
  | _ => simp only [hread, Option.map_some]

theorem optional?_of_lookup (x : Option α)
    (hread : ∀ value ∈ x, Json.ReadsBack write read change value)
    (hlookup : members.lookup name = x.map write) :
    members.optional? name read = some (x.map change) := by
  cases x with
  | none => rw [optional?, hlookup]; rfl
  | some value => exact optional?_of_some (hread value rfl) hlookup

theorem optional?_of_nullable (x : Option α)
    (hread : ∀ value ∈ x, Json.ReadsBack write read change value)
    (hlookup : members.lookup name = some (Json.nullable write x)) :
    members.optional? name read = some (x.map change) := by
  cases x with
  | none => rw [optional?, hlookup]; rfl
  | some value => exact optional?_of_some (hread value rfl) hlookup

end Members

end Workflow
