import CrateFold.Liveness.Collect
import CrateFold.ModulePath.Parse
import CrateFold.Tree.Edit

/-!
# Pruning dead modules

Pruning removes from a source the modules that are not live, each together with the attributes and
doc comments directly before it. The walk carries the path of the module it is in: the name of a
module is pushed before it is looked at and popped after it.
-/

namespace CrateFold

namespace SourceUnit

/-- The kinds of node in which no module can stand. -/
def unprunedKinds : List String :=
  ["attribute_item", "inner_attribute_item", "token_tree", "macro_definition", "line_comment",
   "block_comment", "string_literal", "raw_string_literal"]

/-- Whether a sibling before a module goes with it: an attribute or a doc comment. -/
def belongsToNext (u : SourceUnit) (n : Node) : Except Fault Bool :=
  if n.kind == "attribute_item" then .ok true
  else if n.kind == "line_comment" || n.kind == "block_comment" then do
    let text := (← u.textOf n.toTag).toList
    return ['/', '/', '/'].isPrefixOf text || ['/', '*', '*'].isPrefixOf text
  else .ok false

/-- The offset of the outermost of the siblings that go with what starts at `start`, nearest first. -/
def removalStart (u : SourceUnit) : Nat → List Node → Except Fault Nat
  | start, [] => .ok start
  | start, n :: rest => do
    if ← u.belongsToNext n then u.removalStart n.start rest else return start

mutual

/-- The removals below a node of the module at `path`, and the path after the walk. -/
def deadBelow (u : SourceUnit) (live : Liveness) : Node → ModulePath → Traced (List Edit × ModulePath)
  | ⟨_, children⟩, path => u.deadIn live [] children path
termination_by structural n => n

/-- The removals among and below siblings, given the named siblings before them. -/
def deadIn (u : SourceUnit) (live : Liveness) (earlier : List Node) :
    List Node → ModulePath → Traced (List Edit × ModulePath)
  | [], path => return ([], path)
  | n :: rest, path => do
    let (edits, path) ← u.deadAt live earlier n path
    let (more, path) ← u.deadIn live (n.after earlier) rest path
    return (edits ++ more, path)
termination_by structural l => l

/-- The removals at a node, given the named siblings before it. -/
def deadAt (u : SourceUnit) (live : Liveness) (earlier : List Node) :
    Node → ModulePath → Traced (List Edit × ModulePath)
  | ⟨tag, children⟩, path =>
    if !tag.named then return ([], path)
    else if tag.kind != "mod_item" then
      if unprunedKinds.contains tag.kind then return ([], path) else u.deadIn live [] children path
    else do
      let path ← path.joinText (← u.nameOf (children.find? (·.fills "name")))
      if live.isLive path then
        let (edits, path) ← u.deadInBody live children path
        return (edits, path.pop)
      else
        .record .debug .liveness s!"[TreeShaking] dropping {path}"
        let start ← u.removalStart tag.start earlier
        return ([⟨start, tag.stop, []⟩], path.pop)
termination_by structural n => n

/-- The removals below the first sibling that is a body. -/
def deadInBody (u : SourceUnit) (live : Liveness) : List Node → ModulePath → Traced (List Edit × ModulePath)
  | [], path => return ([], path)
  | n :: rest, path => if n.fills "body" then u.deadBelow live n path else u.deadInBody live rest path
termination_by structural l => l

end

/-- The removals of all dead modules of a unit. -/
def removals (u : SourceUnit) (live : Liveness) : Traced (List Edit) := do
  return (← u.deadBelow live u.root .crate).1

/-- The unit without its dead modules; none if there are none. -/
def pruned? (u : SourceUnit) (grammar : Grammar) (live : Liveness) : Traced (Option SourceUnit) := do
  let edits ← u.removals live
  if edits.isEmpty then return none
  else
    .record .info .liveness s!"[TreeShaking] removed {edits.length} dead module(s) from {u.path}"
    return some (← parse grammar (← u.splice edits) u.path.text)

/-- The unit without its dead modules. -/
def prune (u : SourceUnit) (grammar : Grammar) (live : Liveness) : Traced SourceUnit := do
  return (← u.pruned? grammar live).getD u

end SourceUnit

end CrateFold
