import CrateFold.ModulePath.Parse
import CrateFold.Tree.Attribute

/-!
# Module declarations

The declarations of a unit are its modules without a body, wherever they stand, in source order. What
cannot be read as a declaration is a fault in its place, so that the declarations before it still come
first.
-/

namespace CrateFold

/-- A module whose body is in a file of its own. -/
structure Declaration where
  module : ModulePath
  /-- The value of its `path` attribute. -/
  override : Option String
  location : Location
  /-- The semicolon in whose place the body goes. -/
  semicolon : Option Tag
deriving DecidableEq, Repr

namespace SourceUnit

/-- The kinds of node in which no module declaration can stand. -/
def undeclaringKinds : List String :=
  ["attribute_item", "inner_attribute_item", "token_tree", "line_comment", "block_comment",
   "string_literal", "raw_string_literal"]

/-- The path of a module node in the module `outer`. -/
def modulePath (u : SourceUnit) (outer : ModulePath) (children : List Node) : Except Fault ModulePath := do
  outer.joinText (← u.nameOf (children.find? (·.fills "name")))

/-- Reads a module node without a body as the declaration of `module`. -/
def declaration (u : SourceUnit) (module : ModulePath) (p : Placed) : Except Fault Declaration := do
  return {
    module := module
    override := ← u.pathAttribute p
    location := u.locate p.node.toTag
    semicolon := (p.node.children.reverse.find? (·.kind == ";")).map Node.toTag }

mutual

/-- The declarations at a node of the module `outer`, given the named siblings before it. -/
def declarationsAt (u : SourceUnit) (outer : ModulePath) (earlier : List Node) :
    Node → List (Except Fault Declaration)
  | ⟨tag, children⟩ =>
    if !tag.named then []
    else if tag.kind == "mod_item" then
      match u.modulePath outer children with
      | .error fault => [.error fault]
      | .ok module =>
        if children.any (·.fills "body") then u.declarationsInBody module children
        else [u.declaration module ⟨⟨tag, children⟩, earlier⟩]
    else if undeclaringKinds.contains tag.kind then []
    else u.declarationsIn outer [] children
termination_by structural n => n

/-- The declarations among and below siblings, given the named siblings before them. -/
def declarationsIn (u : SourceUnit) (outer : ModulePath) (earlier : List Node) :
    List Node → List (Except Fault Declaration)
  | [] => []
  | n :: rest => u.declarationsAt outer earlier n ++ u.declarationsIn outer (n.after earlier) rest
termination_by structural l => l

/-- The declarations below the first sibling that is a body. -/
def declarationsInBody (u : SourceUnit) (outer : ModulePath) : List Node → List (Except Fault Declaration)
  | [] => []
  | n :: rest => if n.fills "body" then u.declarationsBelow outer n else u.declarationsInBody outer rest
termination_by structural l => l

/-- The declarations below a node of the module `outer`. -/
def declarationsBelow (u : SourceUnit) (outer : ModulePath) : Node → List (Except Fault Declaration)
  | ⟨_, children⟩ => u.declarationsIn outer [] children
termination_by structural n => n

end

/-- The declarations of a unit that is the body of `module`. -/
def declarations (u : SourceUnit) (module : ModulePath) : List (Except Fault Declaration) :=
  u.declarationsBelow module u.root

end SourceUnit

end CrateFold
