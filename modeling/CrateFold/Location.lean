/-!
# Locations

A location is a stretch of a source file: byte offsets, and lines and columns counted from one.
-/

namespace CrateFold

/-- A stretch of a source file. -/
structure Location where
  /-- The file, as it is written in messages. -/
  file : String
  line : Int
  /-- The column of the first byte, in bytes. -/
  column : Int
  /-- The offset of the first byte. -/
  start : Int := 0
  /-- The offset after the last byte. -/
  stop : Int := 0
  /-- The line of the offset after the last byte. -/
  endLine : Int := 0
  /-- The column of the offset after the last byte. -/
  endColumn : Int := 0
deriving DecidableEq, Repr

/-- The text `file:line:column`. -/
def Location.text (l : Location) : String := s!"{l.file}:{l.line}:{l.column}"

end CrateFold
