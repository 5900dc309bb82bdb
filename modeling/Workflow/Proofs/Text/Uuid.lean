/-
Identifiers that are written are read.

An identifier of 128 bits is written as the 32 hexadecimal digits of its number, and those digits
stand for the number again.  Between the groups there are hyphens; a reader that finds them where
they belong puts the groups together to what they were cut from.
-/
import Mathlib.Algebra.Group.Nat.Defs
import Workflow.Text.Uuid

namespace Workflow

namespace Hex

theorem digit?_digit : ∀ n < 16, digit? (digit n) = some n := by decide

theorem length_digits (width : Nat) : ∀ n, (digits width n).length = width := by
  induction width with
  | zero => intro n; rfl
  | succ width ih => intro n; rw [digits, List.length_append, ih, List.length_singleton]

/-- Digits stand for the number that they were made from, if there are enough of them. -/
theorem number?_digits (width : Nat) : ∀ n, n < 16 ^ width → number? (digits width n) = some n := by
  induction width with
  | zero =>
      intro n hlt
      obtain rfl : n = 0 := by omega
      rfl
  | succ width ih =>
      intro n hlt
      have hhigh : n / 16 < 16 ^ width := by
        rw [Nat.pow_succ] at hlt
        exact Nat.div_lt_of_lt_mul (by omega)
      have hlow := digit?_digit (n % 16) (Nat.mod_lt _ (by decide))
      have hread := ih (n / 16) hhigh
      unfold number? at hread ⊢
      rw [digits, List.foldlM_append, hread]
      simp only [Option.bind_eq_bind, Option.bind_some, List.foldlM_cons, List.foldlM_nil, hlow,
        Option.map_some, Nat.div_add_mod]
      rfl

end Hex

namespace Uuid

/-- The number of an identifier has 128 bits. -/
def Fits (id : Uuid) : Prop := id.value < 2 ^ 128

/-- Five groups with hyphens between them are put together. -/
theorem ofGroups?_join {a b c d e : List Char} (ha : a.length = 8) (hb : b.length = 4)
    (hc : c.length = 4) (hd : d.length = 4) (he : e.length = 12) :
    ofGroups? (a ++ '-' :: b ++ '-' :: c ++ '-' :: d ++ '-' :: e) =
      (Hex.number? (a ++ b ++ c ++ d ++ e)).map Uuid.mk := by
  generalize htext : a ++ '-' :: b ++ '-' :: c ++ '-' :: d ++ '-' :: e = text
  have hdigits : text.take 8 ++ (text.drop 9).take 4 ++ (text.drop 14).take 4 ++
      (text.drop 19).take 4 ++ text.drop 24 = a ++ b ++ c ++ d ++ e := by
    rw [← htext]
    simp (disch := omega) [List.drop_append, List.drop_of_length_le, ha, hb, hc, hd]
  have hhyphens : text.length = 36 ∧ (text[8]? == some '-') ∧ (text[13]? == some '-') ∧
      (text[18]? == some '-') ∧ (text[23]? == some '-') := by
    rw [← htext]
    simp [ha, hb, hc, hd, he]
  unfold ofGroups?
  simp only [hhyphens, hdigits, and_self, if_true]

/-- The groups that digits are cut into. -/
theorem groups_join (digits : List Char) :
    digits.take 8 ++ (digits.drop 8).take 4 ++ (digits.drop 12).take 4 ++
      (digits.drop 16).take 4 ++ digits.drop 20 = digits := by
  show digits.take 8 ++ (digits.drop 8).take 4 ++ (digits.drop (8 + 4)).take 4 ++
    (digits.drop (8 + 4 + 4)).take 4 ++ digits.drop (8 + 4 + 4 + 4) = digits
  rw [← List.take_add, ← List.take_add, ← List.take_add, List.take_append_drop]

/-- **Identifiers that are written are read.** -/
theorem ofText?_text {id : Uuid} (hfits : id.Fits) : ofText? id.text = some id := by
  have hlength : (Hex.digits 32 id.value).length = 32 := Hex.length_digits 32 _
  have hnumber : Hex.number? (Hex.digits 32 id.value) = some id.value :=
    Hex.number?_digits 32 _ hfits
  have hgroups : ofGroups? id.text.toList = some id := by
    simp only [text, String.toList_ofList]
    rw [ofGroups?_join (by simp [hlength]) (by simp [hlength]) (by simp [hlength])
      (by simp [hlength]) (by simp [hlength])]
    rw [groups_join, hnumber]
    rfl
  have hlength : id.text.toList.length = 36 := by
    simp [text, hlength]
  unfold ofText?
  simp [hlength, hgroups]

end Uuid

end Workflow
