import CrateFold.ModuleMap.Basic
import CrateFold.Trace

/-!
# Resolving references

A path written in a module is resolved in three steps. Its first segment may be the name of an import
(`Aliases`), which puts the import's target in its place. The result is made canonical, a path from
the crate root (`ModuleMap.canonical`): `crate`, `self` and `super` say where to start, and a plain
name starts where it is declared, in the module itself or else at the crate root. The module that owns
a canonical path is the longest beginning of it that is a key of the map (`ModuleMap.owner`).
-/

namespace CrateFold

/-- The names that imports bind, the innermost and latest binding first. -/
abbrev Aliases := List (String × ModulePath)

/-- The binding of an import; globs and `_` bind no name. -/
def Import.binding? (i : Import) : Option (String × ModulePath) :=
  match i.name with
  | some name => if name == "*" || name == "_" then none else some (name, i.target)
  | none => none

/-- The names bound by the imports of a scope, the latest first. -/
def Scope.aliases (s : Scope) : Aliases := (s.importList.filterMap Import.binding?).reverse

namespace ModuleMap

/-- The names of types and functions declared directly in a module of the map. -/
def namesAt (m : ModuleMap) (path : ModulePath) : Except Fault (List String) :=
  match m.get? path with
  | some scope => scope.declaredNames
  | none => .error (.unmapped path)

/-- Whether a module declares a name, as a module in it or as a type or function. -/
def declares (m : ModuleMap) (path : ModulePath) (name : String) : Except Fault Bool :=
  if m.contains (path.join ⟨[name]⟩) then .ok true
  else do return (← m.namesAt path).contains name

/-- Leaves one module for each leading `super`; none if that goes above the crate root. -/
def ascend : ModulePath → List String → Option (ModulePath × List String)
  | path, [] => some (path, [])
  | path, segment :: rest =>
    if segment == "super" then
      match path.pop? with
      | some outer => ascend outer rest
      | none => none
    else some (path, segment :: rest)

/-- The path from the crate root that a path written in a module stands for. -/
def canonical (m : ModuleMap) (path module : ModulePath) : Traced (Option ModulePath) :=
  match path.segments with
  | [] => .fail .emptyPath
  | first :: rest =>
    if first == "crate" || first == "$crate" then return some (ModulePath.crate.join ⟨rest⟩)
    else if first == "self" then return some (module.join ⟨rest⟩)
    else if first == "super" then
      match ascend module path.segments with
      | some (outer, inner) => return some (outer.join ⟨inner⟩)
      | none => do
        .record .warning .liveness s!"`{path}` in {module} goes above the crate root"
        return none
    else do
      if ← m.declares module first then return some (module.join path)
      else if ← m.declares .crate first then return some (ModulePath.crate.join path)
      else return none

/-- The innermost module of the map that a path lies in; the first segment alone if there is none. -/
def owner (m : ModuleMap) (path : ModulePath) : ModulePath :=
  (path.lineage.find? m.contains).getD ⟨path.segments.take 1⟩

/-- The canonical form of an access of a module, given the names bound and shadowed where it is
written; none if it does not name an item of the crate. -/
def resolve (m : ModuleMap) (module : ModulePath) (aliases : Aliases) (shadowed : List String)
    (access : ModulePath) : Traced (Option ModulePath) :=
  match access.first? with
  | none => return none
  | some first =>
    if shadowed.contains first then return none
    else match aliases.lookup first with
      | some target => m.canonical (target.join access.suffix) module
      | none => m.canonical access module

end ModuleMap

end CrateFold
