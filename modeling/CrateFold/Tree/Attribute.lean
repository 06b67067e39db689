import CrateFold.Tree.SourceUnit

/-!
# Attributes

The attributes of an item stand before it among its siblings, with comments between them. A module
declaration may name its file in an attribute `#[path = "..."]`; `SourceUnit.pathAttribute` reads it.
-/

namespace CrateFold

/-- The kinds of node that may stand between an item and its first attribute. -/
def attributeSiblings : List String := ["attribute_item", "line_comment", "block_comment"]

/-- The attributes of an item, in source order. -/
def Placed.attributes (p : Placed) : List Node :=
  ((p.earlier.takeWhile fun n => attributeSiblings.contains n.kind).filter
    fun n => n.kind == "attribute_item").reverse

namespace SourceUnit

/-- The character that an escape sequence of a string literal stands for. -/
def unescape : String → String
  | "\\n" => "\n"
  | "\\r" => "\r"
  | "\\t" => "\t"
  | "\\0" => "\x00"
  | "\\\\" => "\\"
  | "\\\"" => "\""
  | "\\'" => "'"
  | other => other

/-- What a part of a string literal contributes to its value. -/
def literalPart? (u : SourceUnit) (n : Node) : Except Fault (Option String) :=
  if n.kind == "string_content" then some <$> u.textOf n.toTag
  else if n.kind == "escape_sequence" then (some ∘ unescape) <$> u.textOf n.toTag
  else .ok none

/-- The text between the quotation marks of a literal, also of a raw one. -/
def unquote (s : List Char) : List Char :=
  let hashes := fun c => c == '#'
  let quoted := match s with
    | 'r' :: rest => ((rest.dropWhile hashes).reverse.dropWhile hashes).reverse
    | _ => s
  (quoted.drop 1).dropLast

/-- The value of a string literal. -/
def literalValue (u : SourceUnit) (n : Node) : Except Fault String := do
  let parts := (← n.namedChildren.mapM u.literalPart?).filterMap id
  if parts.isEmpty then
    return String.ofList (unquote (← u.textOf n.toTag).toList)
  else
    return String.join parts

/-- The value of an attribute item, if it is a `path` attribute with a string for a value. -/
def pathValue? (u : SourceUnit) (item : Node) : Except Fault (Option String) := do
  let some inner := item.namedChildren.find? (·.kind == "attribute") | return none
  let some name := inner.firstNamed? | return none
  if name.kind != "identifier" then return none
  if (← u.textOf name.toTag) != "path" then return none
  let some value := inner.child? "value" | return none
  if ["string_literal", "raw_string_literal"].contains value.kind then
    return some (← u.literalValue value)
  else
    return none

/-- The first `path` value among attribute items. -/
def firstPathValue (u : SourceUnit) : List Node → Except Fault (Option String)
  | [] => .ok none
  | item :: rest => do
    match ← u.pathValue? item with
    | some value => return some value
    | none => u.firstPathValue rest

/-- The file that a module declaration names in an attribute. -/
def pathAttribute (u : SourceUnit) (p : Placed) : Except Fault (Option String) :=
  u.firstPathValue p.attributes

end SourceUnit

end CrateFold
