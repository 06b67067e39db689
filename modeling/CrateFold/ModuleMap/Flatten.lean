import CrateFold.ModuleMap.Basic
import CrateFold.ModulePath.Parse
import CrateFold.Trace

/-!
# Flattening a scope tree

Flattening lifts every module out of a scope tree, wherever it stands, and files its body under its
path from the crate root. Generic scopes and blocks stay where they are and add nothing to the path.
A module comes before the modules in it; bodies with one path are merged in the order they are met.
-/

namespace CrateFold

namespace ModuleMap

/-- Makes sure that a module has an entry. -/
def reserve (m : ModuleMap) (path : ModulePath) : Traced ModuleMap :=
  if m.contains path then do
    .record .debug .moduleMap s!"[Flatten] merging another body into {path}"
    return m
  else
    return m.put path .empty

/-- Merges a body without modules into the entry of its path. -/
def mergeAt (m : ModuleMap) (path : ModulePath) (body : Scope) : ModuleMap :=
  m.put path (((m.get? path).getD .empty).merge body)

mutual

/-- Files a body under a path and every module in it under its own. -/
def lift (path : ModulePath) : ScopeOf Item → ModuleMap → Traced ModuleMap
  | ⟨items, accesses, definesMacros⟩, m => do
    let m ← m.reserve path
    let (m, items) ← stripItems path items m
    return m.mergeAt path ⟨items, accesses, definesMacros⟩
termination_by structural s => s

/-- A scope without the modules in it, which are filed under `path`. -/
def strip (path : ModulePath) : ScopeOf Item → ModuleMap → Traced (ModuleMap × Scope)
  | ⟨items, accesses, definesMacros⟩, m => do
    let (m, items) ← stripItems path items m
    return (m, ⟨items, accesses, definesMacros⟩)
termination_by structural s => s

/-- Items without the modules among and in them, which are filed under `path`. -/
def stripItems (path : ModulePath) : List Item → ModuleMap → Traced (ModuleMap × List Item)
  | [], m => return (m, [])
  | item :: rest, m => do
    let (m, kept) ← stripItem path item m
    let (m, more) ← stripItems path rest m
    return (m, kept ++ more)
termination_by structural l => l

/-- What is left of an item without the modules in it, which are filed under `path`. -/
def stripItem (path : ModulePath) : Item → ModuleMap → Traced (ModuleMap × List Item)
  | .module name body, m => do
    let m ← lift (← path.joinText name) body m
    return (m, [])
  | .generic owner body, m => do
    let (m, body) ← strip path body m
    return (m, [.generic owner body])
  | .block body, m => do
    let (m, body) ← strip path body m
    return (m, [.block body])
  | .imports list, m => return (m, [.imports list])
  | .type name, m => return (m, [.type name])
  | .file body, _ => .fail (.unknownItem (Item.file body).kind)
  | .bare text, _ => .fail (.unknownItem (Item.bare text).kind)
termination_by structural item => item

end

/-- The module map of a scope tree. -/
def ofTree : Item → Traced ModuleMap
  | .file body => do
    let m ← lift .crate body {}
    .record .debug .moduleMap s!"[Flatten] {m.entries.length} modules"
    return m
  | item => .fail (.notAFile item.kind)

end ModuleMap

end CrateFold
