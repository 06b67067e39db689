import CrateFold.Tree.SourceUnit

/-!
# Edits

An edit replaces a stretch of a source by other bytes. `SourceUnit.splice` applies a list of edits at
once: they are put in order of their stretches, edits of equal stretches keeping their order, and each
has to start where the one before it ended or later.
-/

namespace CrateFold

/-- The replacement of a stretch of bytes. -/
structure Edit where
  /-- The offset of the first byte replaced. -/
  start : Nat
  /-- The offset after the last byte replaced. -/
  stop : Nat
  /-- What stands there instead. -/
  replacement : Bytes
deriving DecidableEq, Repr

/-- Whether an edit may be applied before another: by start, then by end. -/
def Edit.before (a b : Edit) : Bool := a.start < b.start || (a.start == b.start && a.stop ≤ b.stop)

/-- Puts an edit in front of the first one that it may be applied before. -/
def Edit.insertInOrder (edit : Edit) : List Edit → List Edit
  | [] => [edit]
  | next :: rest => if edit.before next then edit :: next :: rest else next :: insertInOrder edit rest

/-- Edits in the order in which they are applied; edits of one stretch keep their order. -/
def Edit.inOrder : List Edit → List Edit
  | [] => []
  | edit :: rest => edit.insertInOrder (inOrder rest)

/-- Applies edits that are in order, from an offset on. -/
def Edit.applyFrom (source : Bytes) (file : FilePath) : Nat → List Edit → Except Fault Bytes
  | position, [] => .ok (source.drop position)
  | position, edit :: rest =>
    if edit.start < position then .error (.overlappingEdit edit.start file)
    else do
      let tail ← applyFrom source file edit.stop rest
      return source.slice position edit.start ++ edit.replacement ++ tail

/-- The bytes of a unit after the edits. -/
def SourceUnit.splice (u : SourceUnit) (edits : List Edit) : Except Fault Bytes :=
  Edit.applyFrom u.bytes u.path 0 (Edit.inOrder edits)

end CrateFold
