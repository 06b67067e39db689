import CrateFold.Scope.Basic
import CrateFold.Scope.Reference
import CrateFold.ModulePath.Parse

/-!
# Building scope trees

One walk over the tree of a unit records what each scope declares, imports and refers to. The walk
carries the scope it is in and only adds to it; a module, a generic scope or a block is walked with an
empty scope, which then becomes an item of the enclosing one. How a node is read depends on its kind
(`Rule`) and on where it stands (`Position`); where its children stand depends on their fields.
-/

namespace CrateFold

/-! ## Rules and positions -/

/-- How nodes of a kind are read where an item or expression stands. -/
inductive Rule where
  /-- Holds no reference. -/
  | skip
  /-- A reference of one segment. -/
  | name
  /-- A reference of several segments. -/
  | path
  /-- A macro call: the path of the macro, and references in its input. -/
  | call
  /-- A macro definition: references on the right of its rules. -/
  | definition
  | module
  /-- A function with its name. -/
  | function
  | implementation
  | block
  | type
  /-- A trait: a type, and a scope of that name. -/
  | trait
  /-- An owner of a generic scope of which nothing says what it is. -/
  | owner
  | use
  /-- The parameters of a closure, all patterns. -/
  | closure
  | pattern
  /-- Any other node: only its children matter. -/
  | plain
deriving DecidableEq, Repr

/-- The kinds of node that hold no reference, or text only. -/
def skippedKinds : List String :=
  ["attribute_item", "inner_attribute_item", "line_comment", "block_comment", "string_literal",
   "raw_string_literal", "char_literal", "lifetime", "label", "token_tree_pattern",
   "visibility_modifier", "extern_crate_declaration"]

/-- The rule for a kind of node. -/
def Rule.ofKind (kind : String) : Rule :=
  if skippedKinds.contains kind then .skip
  else match kind with
    | "identifier" | "type_identifier" => .name
    | "scoped_identifier" | "scoped_type_identifier" => .path
    | "macro_invocation" => .call
    | "macro_definition" => .definition
    | "mod_item" => .module
    | "function_item" | "function_signature_item" => .function
    | "impl_item" => .implementation
    | "block" => .block
    | "struct_item" | "enum_item" | "union_item" | "type_item" | "type_declaration" => .type
    | "trait_item" => .trait
    | "generic_owner" => .owner
    | "use_declaration" => .use
    | "closure_parameters" => .closure
    | "pattern" => .pattern
    | _ => .plain

/-- Where a node stands, as far as it matters for reading it. -/
inductive Position where
  /-- Where an item or an expression stands. -/
  | item
  /-- The body of a module or of a generic scope: only its children matter. -/
  | body
  /-- Where a pattern stands: names are bound, not referred to. -/
  | pattern
  /-- The way to the segments of a path: only type arguments and inner types matter. -/
  | path
  /-- The list of type parameters of a generic scope. -/
  | parameters
  | parameter
  | macroRule
  /-- Unparsed input of a macro. -/
  | tokens
deriving DecidableEq, Repr

/-- Whether the walk goes on after the first sibling that it reads. -/
inductive Reach where
  | all
  /-- Only the first sibling that has a position is read. -/
  | first
deriving DecidableEq, Repr

/-- The position of a named node, none for any other. -/
def Tag.ifNamed (t : Tag) (position : Option Position) : Option Position := if t.named then position else none

/-- The position of a child of a node of the given kind: a pattern in the field `pattern`, none in
the field `name` of most parents, as a name there is bound, and else an item. -/
def childPosition (parent : String) (t : Tag) : Option Position :=
  t.ifNamed <|
    if t.fills "pattern" then some .pattern
    else if t.fills "name" && parent != "struct_expression" then none
    else some .item

/-- The position of a part of a pattern. -/
def patternPosition (t : Tag) : Option Position :=
  t.ifNamed (if t.fills "type" || t.fills "condition" || t.fills "value" then some .item else some .pattern)

/-- The position of a part of a function, trait or `impl` block. -/
def ownerPosition (t : Tag) : Option Position :=
  t.ifNamed <|
    if t.fills "name" then none
    else if t.fills "type_parameters" then some .parameters
    else if t.fills "body" && t.kind == "declaration_list" then some .body
    else some .item

/-- The position of a part of a type parameter of the given kind. -/
def parameterPosition (parent : String) (t : Tag) : Option Position :=
  t.ifNamed <|
    if t.fills "name" || t.fills "left" then
      if parent == "const_parameter" then none else some .parameter
    else some .item

/-- The position of a part of a macro call. -/
def callPosition (t : Tag) : Option Position :=
  t.ifNamed <|
    if t.fills "macro" then some .item
    else if t.kind == "token_tree" then some .tokens
    else none

/-- The position of a part of a macro definition. -/
def definitionPosition (t : Tag) : Option Position :=
  t.ifNamed (if t.kind == "macro_rule" then some .macroRule else none)

/-- One position for every named node. -/
def namedPosition (position : Position) (t : Tag) : Option Position := t.ifNamed (some position)

/-- A position for nodes that fill a field. -/
def fieldPosition (field : String) (position : Position) (t : Tag) : Option Position :=
  if t.fills field then some position else none

/-! ## References -/

namespace SourceUnit

/-- Adds the access with the given segments. -/
def recordAccess (scope : Scope) (segments : List String) : Except Fault Scope := do
  return scope.addAccess (← ModulePath.ofSegments segments)

/-- Adds the accesses of runs of segment nodes, as far as they are references. -/
def recordRuns (u : SourceUnit) : List (List Node) → Scope → Except Fault Scope
  | [], scope => .ok scope
  | run :: rest, scope => do
    let texts ← run.mapM fun n => u.textOf n.toTag
    let scope ← if isReference texts then recordAccess scope texts else pure scope
    u.recordRuns rest scope

/-- Adds the access of a path node, unless it starts in a type of its own. -/
def recordPath (u : SourceUnit) (n : Node) (scope : Scope) : Except Fault Scope := do
  match ← u.segments n with
  | some segments => recordAccess scope segments
  | none => return scope

/-- The error for an import path that starts in a type of its own. -/
def unsupportedImport (u : SourceUnit) (t : Tag) (text : String) : BundleError where
  problem := .unsupported
  message := s!"unsupported import path `{text}`"
  location := some (u.locate t)
  source := some u.text

/-- The path of a node in a `use` declaration. -/
def usePath (u : SourceUnit) (n : Node) : Except Fault ModulePath := do
  match ← u.segments n with
  | some segments => ModulePath.ofSegments segments
  | none => throw (.bundle (u.unsupportedImport n.toTag (← u.textOf n.toTag)))

/-- What a path in a `use` declaration imports: `a::self` imports `a`. -/
def importTarget (path : ModulePath) : ModulePath :=
  if path.last? == some "self" && 1 < path.length then path.parent else path

/-- The import of a path under its own last segment. -/
def importLeaf (u : SourceUnit) (base : ModulePath) (n : Node) : Except Fault Import := do
  let target := importTarget (base.join (← u.usePath n))
  return ⟨target.last?, target⟩

/-- The base that an optional path extends; without the path a leading `::` is refused. -/
def extendBase (u : SourceUnit) (base : ModulePath) (t : Tag) (children : List Node) :
    Option Node → Except Fault ModulePath
  | some path => do return base.join (← u.usePath path)
  | none => do
    u.refuseLeadingSeparator t children
    return base

/-! ## The walk -/

/-- The shapes of a use tree. -/
inductive UseShape where
  /-- Several trees in braces. -/
  | list
  /-- A path before several trees in braces. -/
  | scopedList
  /-- All names of a path. -/
  | glob
  /-- A path under another name. -/
  | renamed
  | leaf
deriving DecidableEq, Repr

/-- The shape of a node as a use tree. -/
def UseShape.ofKind : String → UseShape
  | "use_list" => .list
  | "scoped_use_list" => .scopedList
  | "use_wildcard" => .glob
  | "use_as_clause" => .renamed
  | _ => .leaf

mutual

/-- Adds to a scope what a node at a position declares, imports and refers to. -/
def visit (u : SourceUnit) (position : Position) : Node → Scope → Except Fault Scope
  | ⟨tag, children⟩, scope =>
    match position with
    | .item =>
      match Rule.ofKind tag.kind with
      | .skip => .ok scope
      | .name => do recordAccess scope [← u.textOf tag]
      | .path => do
        let scope ← u.visitIn (fieldPosition "path" .path) .first children scope
        u.recordPath ⟨tag, children⟩ scope
      | .call => u.visitIn callPosition .all children scope
      | .definition => u.visitIn definitionPosition .all children scope.addMacros
      | .module => do
        let name ← u.nameOf (children.find? (·.fills "name"))
        let body ← u.visitIn (fieldPosition "body" .body) .first children .empty
        return scope.addItem (.module name body)
      | .function => do
        let name ← u.nameOf (children.find? (·.fills "name"))
        let body ← u.visitIn ownerPosition .all children .empty
        return scope.addItem (.generic (some name) body)
      | .implementation => do
        let body ← u.visitIn ownerPosition .all children .empty
        return scope.addItem (.generic none body)
      | .block => do
        let body ← u.visitIn (childPosition tag.kind) .all children .empty
        return scope.addItem (.block body)
      | .type => do
        let scope ← match children.find? (·.fills "name") with
          | some name => do pure (scope.addItem (.type (← u.textOf name.toTag)))
          | none => pure scope
        u.visitIn (childPosition tag.kind) .all children scope
      | .trait => do
        let name ← u.nameOf (children.find? (·.fills "name"))
        let body ← u.visitIn ownerPosition .all children .empty
        return (scope.addItem (.type name)).addItem (.generic (some name) body)
      | .owner => .error .unknownOwner
      | .use =>
        if children.any (·.fills "argument") then do
          let (scope, list) ← u.importsIn .empty (·.fills "argument") .first children scope
          return scope.addItem (.imports list)
        else .ok scope
      | .closure => u.visitIn (namedPosition .pattern) .all children scope
      | .pattern => u.visitIn patternPosition .all children scope
      | .plain => u.visitIn (childPosition tag.kind) .all children scope
    | .body => u.visitIn (childPosition tag.kind) .all children scope
    | .pattern =>
      match Rule.ofKind tag.kind with
      | .skip => .ok scope
      | .name => if tag.kind == "identifier" then .ok scope else do recordAccess scope [← u.textOf tag]
      | .path => do
        let scope ← u.visitIn (fieldPosition "path" .path) .first children scope
        u.recordPath ⟨tag, children⟩ scope
      | .call => u.visitIn callPosition .all children scope
      | _ => u.visitIn patternPosition .all children scope
    | .path =>
      match tag.pathShape with
      | .segment => .ok scope
      | .scoped => u.visitIn (fieldPosition "path" .path) .first children scope
      | .generic => do
        let scope ← u.visitIn (fieldPosition "type_arguments" .item) .first children scope
        u.visitIn (fieldPosition "type" .path) .first children scope
      | .other => u.visitIn (childPosition tag.kind) .all children scope
    | .parameters => u.visitIn (namedPosition .parameter) .all children scope
    | .parameter =>
      if tag.kind == "type_identifier" then do return scope.addItem (.type (← u.textOf tag))
      else if ["lifetime", "lifetime_parameter", "attribute_item", "metavariable"].contains tag.kind then .ok scope
      else u.visitIn (parameterPosition tag.kind) .all children scope
    | .macroRule => u.visitIn (fieldPosition "right" .tokens) .first children scope
    | .tokens => u.recordRuns (Node.tokenRuns u.bytes ⟨tag, children⟩) scope
termination_by structural n => n

/-- Adds to a scope what siblings with a position declare, import and refer to. -/
def visitIn (u : SourceUnit) (positionOf : Tag → Option Position) (reach : Reach) :
    List Node → Scope → Except Fault Scope
  | [], scope => .ok scope
  | n :: rest, scope =>
    match positionOf n.toTag with
    | none => u.visitIn positionOf reach rest scope
    | some position => do
      let scope ← u.visit position n scope
      match reach with
      | .first => return scope
      | .all => u.visitIn positionOf reach rest scope
termination_by structural l => l

/-- The imports of a use tree with parts of its own below a base path, and the scope with the type
arguments in it. A tree that is a single path is read by `importsIn`. -/
def imports (u : SourceUnit) (base : ModulePath) : Node → Scope → Except Fault (Scope × List Import)
  | ⟨tag, children⟩, scope =>
    match UseShape.ofKind tag.kind with
    | .list => u.importsIn base (·.named) .all children scope
    | .scopedList => do
      let scope ← u.visitIn (fieldPosition "path" .path) .first children scope
      let base ← u.extendBase base tag children (children.find? (·.fills "path"))
      u.importsIn base (·.fills "list") .first children scope
    | .glob => do
      let scope ← u.visitIn (namedPosition .path) .first children scope
      let base ← u.extendBase base tag children (children.find? (·.named))
      return (scope, [⟨some "*", base.join ⟨["*"]⟩⟩])
    | .renamed =>
      match children.find? (·.fills "path") with
      | none => .error .missingTarget
      | some path => do
        let scope ← u.visitIn (fieldPosition "path" .path) .first children scope
        let target := importTarget (base.join (← u.usePath path))
        let name ← u.nameOf (children.find? (·.fills "alias"))
        return (scope, [⟨some name, target⟩])
    | .leaf => .ok (scope, [])
termination_by structural n => n

/-- The imports of the sibling use trees that are picked. -/
def importsIn (u : SourceUnit) (base : ModulePath) (pick : Tag → Bool) (reach : Reach) :
    List Node → Scope → Except Fault (Scope × List Import)
  | [], scope => .ok (scope, [])
  | n :: rest, scope =>
    if !pick n.toTag then u.importsIn base pick reach rest scope
    else do
      let (scope, here) ←
        if UseShape.ofKind n.kind == .leaf then do
          let scope ← u.visit .path n scope
          pure (scope, [← u.importLeaf base n])
        else u.imports base n scope
      match reach with
      | .first => return (scope, here)
      | .all => do
        let (scope, more) ← u.importsIn base pick reach rest scope
        return (scope, here ++ more)
termination_by structural l => l

end

/-- The scope of a whole unit. -/
def scope (u : SourceUnit) : Except Fault Scope := u.visit .body u.root .empty

/-- The scope tree of a unit. -/
def scopeTree (u : SourceUnit) : Traced Item := do
  let scope ← u.scope
  .record .debug .scopes s!"Built scope tree for {u.path}: {scope.items.length} top-level items"
  return .file scope

end SourceUnit

end CrateFold
