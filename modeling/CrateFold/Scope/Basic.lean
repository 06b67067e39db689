import CrateFold.Fault

/-!
# Scopes

A scope holds what one lexical scope of a crate declares and imports (its items, in source order), the
paths that occur directly in it (each once, in order of first occurrence) and whether a macro is
defined directly in it. Modules, generic scopes and blocks are items with a scope of their own; a
`file` stands at the top of a scope tree only.
-/

namespace CrateFold

/-! ## Lists without repetition -/

/-- Appends an element that is not in the list yet. -/
def insertNew {α : Type} [BEq α] (l : List α) (a : α) : List α := if l.contains a then l else l ++ [a]

/-- The elements of a list, each at its first occurrence only. -/
def firstSeen {α : Type} [BEq α] (l : List α) : List α := l.foldl insertNew []

/-! ## Scopes and items -/

/-- One imported name. -/
structure Import where
  /-- The name under which the target is known, `*` for a glob; none if the target is empty. -/
  name : Option String
  target : ModulePath
deriving DecidableEq, Repr

/-- A scope with items of type `ι`. -/
structure ScopeOf (ι : Type) where
  /-- What is declared and imported, in source order. -/
  items : List ι := []
  /-- The paths that occur directly in the scope, in order of first occurrence. -/
  accesses : List ModulePath := []
  definesMacros : Bool := false
deriving Inhabited

/-- An item of a scope. -/
inductive Item where
  | module (name : String) (body : ScopeOf Item)
  /-- The names that one `use` declaration brings in. -/
  | imports (list : List Import)
  /-- A function or trait, by the name of its owner, or an `impl` block, which has none. -/
  | generic (owner : Option String) (body : ScopeOf Item)
  /-- A type, or a type parameter of the enclosing generic scope. -/
  | type (name : String)
  | block (body : ScopeOf Item)
  | file (body : ScopeOf Item)
  /-- A bare text, which stands for no part of a source. -/
  | bare (text : String)
deriving Inhabited

/-- A lexical scope. -/
abbrev Scope := ScopeOf Item

/-- The name of an item's kind in messages. -/
def Item.kind : Item → String
  | .module _ _ => "Module"
  | .imports _ => "ImportList"
  | .generic _ _ => "GenericScope"
  | .type _ => "TypeDeclaration"
  | .block _ => "BlockScope"
  | .file _ => "FileScope"
  | .bare _ => "str"

namespace Scope

/-- The scope that holds nothing. -/
def empty : Scope := {}

/-- A scope made of its parts; an access given twice is kept once. -/
def ofParts (items : List Item) (accesses : List ModulePath) (definesMacros : Bool) : Scope :=
  ⟨items, firstSeen accesses, definesMacros⟩

/-- Adds an item. -/
def addItem (s : Scope) (item : Item) : Scope := { s with items := s.items ++ [item] }

/-- Adds an access that is not there yet. -/
def addAccess (s : Scope) (path : ModulePath) : Scope := { s with accesses := insertNew s.accesses path }

/-- Notes that a macro is defined in the scope. -/
def addMacros (s : Scope) : Scope := { s with definesMacros := true }

/-- Two scopes as one: the items of both, the accesses of both in order of first occurrence. -/
def merge (s t : Scope) : Scope :=
  ofParts (s.items ++ t.items) (s.accesses ++ t.accesses) (s.definesMacros || t.definesMacros)

/-! ## What a scope declares and imports -/

/-- The name that an item declares in its scope: that of a type, or the owner of a generic scope. -/
def declaredName? : Item → Except Fault (Option String)
  | .type name => .ok (some name)
  | .generic owner _ => .ok owner
  | .module _ _ | .imports _ | .block _ => .ok none
  | item => .error (.unknownItem item.kind)

/-- The names declared directly by a list of items. -/
def namesOf : List Item → Except Fault (List String)
  | [] => .ok []
  | item :: rest => do
    let name ← declaredName? item
    return name.toList ++ (← namesOf rest)

/-- The names of types and functions declared directly in a scope. -/
def declaredNames (s : Scope) : Except Fault (List String) := namesOf s.items

/-- The imports of a scope, in source order. -/
def importList (s : Scope) : List Import :=
  s.items.flatMap fun
    | .imports list => list
    | _ => []

/-- The scopes without a name directly in a list of items. -/
def nestedIn : List Item → Except Fault (List Item)
  | [] => .ok []
  | .generic owner body :: rest => return .generic owner body :: (← nestedIn rest)
  | .block body :: rest => return .block body :: (← nestedIn rest)
  | .module _ _ :: rest | .imports _ :: rest | .type _ :: rest => nestedIn rest
  | item :: _ => .error (.unknownItem item.kind)

/-- The generic scopes and blocks directly in a scope. -/
def nested (s : Scope) : Except Fault (List Item) := nestedIn s.items

end Scope

end CrateFold
