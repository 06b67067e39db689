import CrateFold.Tree.SourceUnit

/-!
# References in a tree

How a tree spells paths. `SourceUnit.segments` reads the segments of a path node, dropping type
arguments; a path that starts in a type of its own, such as `<T as Trait>::f`, has none.
`Node.tokenRuns` finds the paths in the unparsed input of a macro: runs of segment nodes with nothing
but `::` between neighbours.
-/

namespace CrateFold

/-- The shapes of a node where a path is expected. -/
inductive PathShape where
  /-- A single segment. -/
  | segment
  /-- A segment after a path. -/
  | scoped
  /-- A path with type arguments. -/
  | generic
  | other
deriving DecidableEq, Repr

/-- The shape of a node as a path. -/
def Tag.pathShape (t : Tag) : PathShape :=
  if ["identifier", "type_identifier", "self", "super", "crate", "metavariable"].contains t.kind then .segment
  else if ["scoped_identifier", "scoped_type_identifier"].contains t.kind then .scoped
  else if ["generic_type", "generic_type_with_turbofish"].contains t.kind then .generic
  else .other

namespace SourceUnit

/-- The error for a path in the sources with a leading `::`. -/
def leadingSeparator (u : SourceUnit) (t : Tag) (text : String) : BundleError where
  problem := .unsupported
  message := s!"fully qualified path `{text}` is not supported"
  location := some (u.locate t)
  source := some u.text
  label := some "leading `::`"

/-- Refuses a node whose first child is `::`. -/
def refuseLeadingSeparator (u : SourceUnit) (t : Tag) (children : List Node) : Except Fault Unit :=
  if children.head?.any (·.kind == "::") then do
    throw (.bundle (u.leadingSeparator t (← u.textOf t)))
  else
    return ()

/-- The segments of a path, given those before its last one. -/
def extendSegments (u : SourceUnit) (children : List Node) :
    Option (List String) → Except Fault (Option (List String))
  | none => .ok none
  | some segments =>
    match children.find? (·.fills "name") with
    | none => .ok none
    | some name => do return some (segments ++ [← u.textOf name.toTag])

mutual

/-- The segments of a path node; none if the path starts in a type of its own. -/
def segments (u : SourceUnit) : Node → Except Fault (Option (List String))
  | ⟨tag, children⟩ =>
    match tag.pathShape with
    | .segment => do return some [← u.textOf tag]
    | .scoped => do
      match ← u.segmentsAt "path" children with
      | some base => u.extendSegments children base
      | none => do
        u.refuseLeadingSeparator tag children
        u.extendSegments children (some [])
    | .generic => do return (← u.segmentsAt "type" children).join
    | .other => .ok none
termination_by structural n => n

/-- The segments of the first node that fills a field, if there is such a node. -/
def segmentsAt (u : SourceUnit) (field : String) : List Node → Except Fault (Option (Option (List String)))
  | [] => .ok none
  | n :: rest => if n.fills field then some <$> u.segments n else u.segmentsAt field rest
termination_by structural l => l

end

end SourceUnit

/-! ## Paths in macro input -/

/-- A run of nodes as a list of runs: the empty run is none. -/
def closeRun (run : List Node) : List (List Node) := if run.isEmpty then [] else [run]

/-- Whether the bytes between two offsets are `::` and white space. -/
def Bytes.isSeparator (l : Bytes) (start stop : Nat) : Bool := (l.slice start stop).trim == [58, 58]

mutual

/-- The runs of segment nodes in a token tree, in source order. -/
def Node.tokenRuns (source : Bytes) : Node → List (List Node)
  | ⟨tag, children⟩ => Node.tokenRunsIn source tag.start [] children
termination_by structural n => n

/-- The runs among siblings, given the end of the last named node and the run that is open. -/
def Node.tokenRunsIn (source : Bytes) (last : Nat) (run : List Node) : List Node → List (List Node)
  | [] => closeRun run
  | n :: rest =>
    if !n.named then Node.tokenRunsIn source last run rest
    else if n.kind == "token_tree" then
      closeRun run ++ n.tokenRuns source ++ Node.tokenRunsIn source n.stop [] rest
    else if n.pathShape == .segment then
      if run.isEmpty || source.isSeparator last n.start then
        Node.tokenRunsIn source n.stop (run ++ [n]) rest
      else closeRun run ++ Node.tokenRunsIn source n.stop [n] rest
    else closeRun run ++ Node.tokenRunsIn source n.stop [] rest
termination_by structural l => l

end

/-- The keywords that may stand for a segment. -/
def keywordSegments : List String := ["self", "super", "crate"]

/-- Whether the texts of a run are a reference: not a keyword alone, and starting with a variable
only if it is `$crate` and goes on. -/
def isReference : List String → Bool
  | [] => false
  | [name] => !keywordSegments.contains name && name.toList.head? != some '$'
  | name :: _ => name == "$crate" || name.toList.head? != some '$'

end CrateFold
