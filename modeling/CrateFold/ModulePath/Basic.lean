/-!
# Module paths

A module path is a list of segments, written with `::` between them. A path whose first segment is
`crate` is absolute: joined to another path it replaces it. Leaving a module by `ModulePath.pop?`
never removes the first segment.
-/

namespace CrateFold

/-- A path of modules and names. -/
structure ModulePath where
  /-- The segments, outermost first. -/
  segments : List String := []
deriving DecidableEq, Repr, Inhabited

namespace ModulePath

/-- The path with no segments. -/
def empty : ModulePath := ⟨[]⟩

/-- The crate root. -/
def crate : ModulePath := ⟨["crate"]⟩

/-- The text of a path. -/
def text (p : ModulePath) : String := "::".intercalate p.segments

instance : ToString ModulePath := ⟨text⟩

/-- The number of segments. -/
def length (p : ModulePath) : Nat := p.segments.length

/-- The first segment. -/
def first? (p : ModulePath) : Option String := p.segments.head?

/-- The last segment. -/
def last? (p : ModulePath) : Option String := p.segments.getLast?

/-- Whether a path has no segments. -/
def isEmpty (p : ModulePath) : Bool := p.segments.isEmpty

/-- Whether a path starts at the crate root. -/
def isCratePath (p : ModulePath) : Bool := p.first? == some "crate"

/-- Whether the segments of `q` are the first segments of `p`. -/
def startsWith (p q : ModulePath) : Bool := q.segments.isPrefixOf p.segments

/-- All segments but the first. -/
def suffix (p : ModulePath) : ModulePath := ⟨p.segments.drop 1⟩

/-- All segments but the last. -/
def parent (p : ModulePath) : ModulePath := ⟨p.segments.dropLast⟩

/-- The path `q` as seen from `p`: appended to it, or `q` itself if it starts at the crate root. -/
def join (p q : ModulePath) : ModulePath := if q.isCratePath then q else ⟨p.segments ++ q.segments⟩

/-- Leaves the innermost module; there is nothing to leave when at most one segment is left. -/
def pop? (p : ModulePath) : Option ModulePath := if p.length ≤ 1 then none else some p.parent

/-- The path after an attempt to leave the innermost module. -/
def pop (p : ModulePath) : ModulePath := p.pop?.getD p

/-- The paths met on the way up from the segments given innermost first, to the outermost one. -/
def climb : List String → List ModulePath
  | [] => [empty]
  | [segment] => [⟨[segment]⟩]
  | segment :: rest => ⟨(segment :: rest).reverse⟩ :: climb rest

/-- The path itself and all it lies in, innermost first. -/
def lineage (p : ModulePath) : List ModulePath := climb p.segments.reverse

end ModulePath

end CrateFold
