import CrateFold.Scope.Basic

/-!
# Module maps

A module map gives the scope of each module by its path from the crate root. The entries keep the
order in which their keys were first put in.
-/

namespace CrateFold

/-- Scopes by module path. -/
structure ModuleMap where
  /-- The entries, in order of their first insertion. -/
  entries : List (ModulePath × Scope) := []

namespace ModuleMap

/-- The keys in order. -/
def keys (m : ModuleMap) : List ModulePath := m.entries.map Prod.fst

/-- Whether a path is a key. -/
def contains (m : ModuleMap) (path : ModulePath) : Bool := m.keys.contains path

/-- The scope of a module. -/
def get? (m : ModuleMap) (path : ModulePath) : Option Scope := m.entries.lookup path

/-- Replaces the scope of a module in a list of entries, or appends an entry. -/
def putIn (path : ModulePath) (scope : Scope) : List (ModulePath × Scope) → List (ModulePath × Scope)
  | [] => [(path, scope)]
  | entry :: rest => if entry.1 = path then (path, scope) :: rest else entry :: putIn path scope rest

/-- The map with the scope of one module replaced or put in last. -/
def put (m : ModuleMap) (path : ModulePath) (scope : Scope) : ModuleMap := ⟨putIn path scope m.entries⟩

/-- The map of a list of entries; of entries with one key the last counts. -/
def ofList (entries : List (ModulePath × Scope)) : ModuleMap :=
  entries.foldl (fun m entry => m.put entry.1 entry.2) {}

end ModuleMap

end CrateFold
