/-
Blank characters: the Unicode property White_Space.

The table is the whole property.  The zero-width space and the byte order mark do not have it,
nor do the information separators.
-/

namespace Workflow

/-- The character has the Unicode property White_Space. -/
def isBlank (c : Char) : Bool :=
  let n := c.toNat
  (0x9 ≤ n && n ≤ 0xD) || n == 0x20 || n == 0x85 || n == 0xA0 || n == 0x1680 ||
    (0x2000 ≤ n && n ≤ 0x200A) || n == 0x2028 || n == 0x2029 || n == 0x202F || n == 0x205F ||
    n == 0x3000

/-- The text without the blanks in front. -/
def trimBlankStart (text : List Char) : List Char := text.dropWhile isBlank

/-- The text without the blanks at both ends. -/
def trimBlank (text : List Char) : List Char :=
  ((trimBlankStart text).reverse.dropWhile isBlank).reverse

/-- Whether the text is empty or consists of blanks. -/
def isBlankText (text : String) : Bool := text.toList.all isBlank

end Workflow
