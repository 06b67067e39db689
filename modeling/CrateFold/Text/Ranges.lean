/-!
# Sets of code points

A property of characters is given by a table: closed ranges of code points in increasing order.
`Ranges.has` looks a code point up and stops at the first range that lies above it. The tables leave
out ASCII, where the properties are given by rules.
-/

namespace CrateFold.Text

/-- Closed ranges of code points, in increasing order. -/
abbrev Ranges := List (Nat × Nat)

/-- Whether a code point lies in one of the ranges. -/
def Ranges.has : Ranges → Nat → Bool
  | [], _ => false
  | (low, high) :: rest, n => if n < low then false else n ≤ high || Ranges.has rest n

/-- Whether a character is one of the first 128. -/
def isAscii (c : Char) : Bool := c.toNat < 0x80

end CrateFold.Text
