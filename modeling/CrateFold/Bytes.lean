/-!
# Byte strings

Sources are byte strings, and places in them are byte offsets. `Bytes.row` and `Bytes.column` give
the place of an offset counted in lines; `Bytes.trim` removes ASCII white space at both ends.
-/

namespace CrateFold

/-- The contents of a file. -/
abbrev Bytes := List UInt8

namespace Bytes

/-- The byte that ends a line. -/
def newline : UInt8 := 10

/-- The part of a byte string from one offset up to another, both cut to its length. -/
def slice (l : Bytes) (start stop : Nat) : Bytes := (l.drop start).take (stop - start)

/-- The number of line ends before an offset. -/
def row (l : Bytes) (offset : Nat) : Nat := (l.take offset).count newline

/-- The offset at which the line of an offset starts. -/
def lineStart (l : Bytes) (offset : Nat) : Nat :=
  let before := l.take offset
  before.length - (before.reverse.takeWhile (· != newline)).length

/-- The number of bytes between the start of the line and an offset. -/
def column (l : Bytes) (offset : Nat) : Nat := offset - l.lineStart offset

/-- Whether a byte is ASCII white space: tab to carriage return, or the space. -/
def isBlank (b : UInt8) : Bool := (9 ≤ b && b ≤ 13) || b == 32

/-- A byte string without the ASCII white space at both ends. -/
def trim (l : Bytes) : Bytes := ((l.dropWhile isBlank).reverse.dropWhile isBlank).reverse

end Bytes

end CrateFold
