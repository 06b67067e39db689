/-!
# Syntax trees

A source is read as a tree of nodes. What a node is by itself is its `Tag`: the kind, the stretch of
bytes it covers, the field of the parent that it fills and what the parser says about its health.
`Placed` is a node in its place: together with the named siblings before it.
-/

namespace CrateFold

/-- A node without its children. -/
structure Tag where
  /-- The grammar's name for the construct. -/
  kind : String
  /-- Whether the node is a construct of its own, not only punctuation or a keyword. -/
  named : Bool := false
  /-- Whether the parser put the node in to go on. -/
  missing : Bool := false
  /-- Whether the node holds text that the parser could not read. -/
  broken : Bool := false
  /-- Whether the parser marks the node as holding a missing or broken node. -/
  flawed : Bool := false
  /-- The offset of the first byte. -/
  start : Nat := 0
  /-- The offset after the last byte. -/
  stop : Nat := 0
  /-- The field of the parent that the node fills. -/
  field : Option String := none
deriving DecidableEq, Repr, Inhabited

/-- A node of a syntax tree. -/
structure Node extends Tag where
  /-- The parts of the construct, in source order. -/
  children : List Node := []
deriving Inhabited

/-- Whether a node fills a field of its parent. -/
def Tag.fills (t : Tag) (field : String) : Bool := t.field == some field

namespace Node

/-- The first child that fills a field. -/
def child? (n : Node) (field : String) : Option Node := n.children.find? (·.fills field)

/-- The named children. -/
def namedChildren (n : Node) : List Node := n.children.filter (·.named)

/-- The first named child. -/
def firstNamed? (n : Node) : Option Node := n.children.find? (·.named)

end Node

/-! ## Nodes in their place -/

/-- A node with the named siblings before it, the nearest first. -/
structure Placed where
  node : Node
  /-- Its earlier named siblings, the nearest first. -/
  earlier : List Node := []

/-- The earlier named siblings of what follows a node. -/
def Node.after (n : Node) (earlier : List Node) : List Node := if n.named then n :: earlier else earlier

mutual

/-- A node and all nodes below it, in source order, parents first. -/
def Node.placed (earlier : List Node) : Node → List Placed
  | ⟨tag, children⟩ => ⟨⟨tag, children⟩, earlier⟩ :: Node.placedIn [] children
termination_by structural n => n

/-- The nodes of a list of siblings and all nodes below them. -/
def Node.placedIn (earlier : List Node) : List Node → List Placed
  | [] => []
  | n :: rest => n.placed earlier ++ Node.placedIn (n.after earlier) rest
termination_by structural l => l

end

/-! ## The first flaw -/

mutual

/-- The first missing or broken node below a node, searched depth first in the flawed nodes only. -/
def Node.firstFlaw? : Node → Option Node
  | ⟨_, children⟩ => Node.firstFlawIn? children
termination_by structural n => n

/-- The first missing or broken node among siblings and below those of them that are flawed. -/
def Node.firstFlawIn? : List Node → Option Node
  | [] => none
  | n :: rest =>
    if n.broken || n.missing then some n
    else if n.flawed then
      match n.firstFlaw? with
      | some flaw => some flaw
      | none => Node.firstFlawIn? rest
    else Node.firstFlawIn? rest
termination_by structural l => l

end

end CrateFold
