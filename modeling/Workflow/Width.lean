/-
The widths of stored integers.

Numbers are exact within the library.  Where one is read or stored it has to fit a width: a number
of bits, and for signed numbers one bit less on either side of zero.
-/

namespace Workflow

/-- How many numbers there are of a width in bits. -/
def wordCount (bits : Nat) : Nat := Nat.pow 2 bits

/-- The largest unsigned number of 16 bits. -/
def maxWord16 : Nat := wordCount 16 - 1

/-- The largest unsigned number of 32 bits. -/
def maxWord32 : Nat := wordCount 32 - 1

/-- The largest unsigned number of 64 bits. -/
def maxWord64 : Nat := wordCount 64 - 1

/-- Signed numbers of 32 bits lie below this bound, and not below its negation. -/
def signedBound32 : Nat := wordCount 31

/-- Signed numbers of 64 bits lie below this bound, and not below its negation. -/
def signedBound64 : Nat := wordCount 63

end Workflow
