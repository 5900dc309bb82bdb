/-
Universally unique identifiers and their text.

An identifier is a number of 128 bits.  It is written as 32 lower-case hexadecimal digits in
groups of 8, 4, 4, 4 and 12.  A reader takes the digits in either case, grouped, or all in one
run; the grouped form may stand in braces or after `urn:uuid:`, which is read in either case too.
-/
import Workflow.Sorted.Order
import Workflow.Text.Hex

namespace Workflow

/-- An identifier of 128 bits. -/
structure Uuid where
  /-- The identifier as a number. -/
  value : Nat
deriving DecidableEq, Inhabited

namespace Uuid

instance : LT Uuid := ⟨fun a b => a.value < b.value⟩

instance : DecidableLT Uuid := fun a b => inferInstanceAs (Decidable (a.value < b.value))

instance : StrictOrder Uuid where
  irrefl a := Nat.lt_irrefl a.value
  trans := Nat.lt_trans
  connected a b := (Nat.lt_trichotomy a.value b.value).imp_right (Or.imp_left (congrArg Uuid.mk))

/-- Reads five groups of 8, 4, 4, 4 and 12 digits with hyphens between them. -/
def ofGroups? (text : List Char) : Option Uuid :=
  let hyphenAt := fun i => text[i]? == some '-'
  if text.length = 36 ∧ hyphenAt 8 ∧ hyphenAt 13 ∧ hyphenAt 18 ∧ hyphenAt 23 then
    let digits := text.take 8 ++ (text.drop 9).take 4 ++ (text.drop 14).take 4 ++
      (text.drop 19).take 4 ++ text.drop 24
    (Hex.number? digits).map Uuid.mk
  else none

/-- What stands in front of a grouped identifier that is written as a name, in lower case. -/
def namePrelude : List Char := "urn:uuid:".toList

/-- Reads an identifier in any of its written forms. -/
def ofText? (text : String) : Option Uuid :=
  let cs := text.toList
  if cs.length = 32 then (Hex.number? cs).map Uuid.mk
  else if cs.length = 38 ∧ cs.head? = some '\x7b' ∧ cs.getLast? = some '\x7d' then
    ofGroups? (cs.drop 1).dropLast
  else if cs.length = 45 ∧ (cs.take 9).map Char.toLower = namePrelude then ofGroups? (cs.drop 9)
  else ofGroups? cs

/-- The identifier in lower-case groups. -/
def text (id : Uuid) : String :=
  let cs := Hex.digits 32 id.value
  String.ofList (cs.take 8 ++ '-' :: (cs.drop 8).take 4 ++ '-' :: (cs.drop 12).take 4 ++
    '-' :: (cs.drop 16).take 4 ++ '-' :: cs.drop 20)

end Uuid

/-- Identifiers that are counted up in their lowest part, below the version and variant bits of
time-ordered ones. -/
def Uuid.counted (n : Nat) : Uuid := ⟨0x0190c5d27b3e7a11b2d4000000000000 + n⟩

/-- A source of identifiers.  What it hands out is not for the engine to say. -/
structure UuidSource where
  /-- The identifiers in the order in which they are handed out. -/
  stream : Nat → Uuid := Uuid.counted
  /-- How many identifiers were handed out. -/
  issued : Nat := 0
deriving Inhabited

namespace UuidSource

/-- The next identifier of a source. -/
def fresh (source : UuidSource) : Uuid × UuidSource :=
  (source.stream source.issued, { source with issued := source.issued + 1 })

/-- The source does not hand out an identifier twice from now on. -/
def NoRepeat (source : UuidSource) : Prop :=
  ∀ m n, source.issued ≤ m → source.issued ≤ n → source.stream m = source.stream n → m = n

theorem NoRepeat.fresh {source : UuidSource} (h : source.NoRepeat) : source.fresh.2.NoRepeat :=
  fun m n hm hn => h m n (Nat.le_of_succ_le hm) (Nat.le_of_succ_le hn)

/-- Counting up does not repeat an identifier. -/
theorem noRepeat_counted (issued : Nat) : NoRepeat { issued } :=
  fun _ _ _ _ h => Nat.add_left_cancel (congrArg Uuid.value h)

end UuidSource

end Workflow
