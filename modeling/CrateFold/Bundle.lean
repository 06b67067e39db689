import CrateFold.Inline.Load
import CrateFold.ModuleMap.Flatten
import CrateFold.Prune
import CrateFold.Scope.Build

/-!
# Bundling

Bundling a crate loads it as one unit, builds its scope tree, flattens it into a module map, finds the
live modules and, if asked, prunes the dead ones. The first error stops the run; the results of the
phases finished before it are kept, and there is no text then.
-/

namespace CrateFold

/-- The result of a bundling run. -/
structure BundleResult where
  unit : Option SourceUnit := none
  scopeTree : Option Item := none
  modules : Option ModuleMap := none
  liveness : Option Liveness := none
  error : Option BundleError := none

namespace BundleResult

/-- Whether the run ended with a unit. -/
def success (r : BundleResult) : Bool := r.error.isNone && r.unit.isSome

/-- Whether the run was stopped. -/
def hasErrors (r : BundleResult) : Bool := r.error.isSome

/-- The text of the bundle, empty if the run was stopped. -/
def text (r : BundleResult) : String := (r.unit.map SourceUnit.text).getD ""

end BundleResult

namespace Workspace

/-- Ends a run that an error has stopped. -/
def stopped (root : String) (r : BundleResult) (error : BundleError) : Traced BundleResult := do
  .record .debug .bundling s!"Bundling {root} failed: {error.summary}"
  return { r with unit := none, error := some error }

/-- Goes on with the result of a phase, or ends the run if an error has stopped it. -/
def proceed {α : Type} (root : String) (r : BundleResult) (phase : Traced α)
    (next : α → Traced BundleResult) : Traced BundleResult := do
  match ← phase.attempt with
  | .ok a => next a
  | .error error => stopped root r error

/-- Loads the crate and records the number of its files. -/
def loadPhase (w : Workspace) (root : String) : Traced SourceUnit :=
  Loader.traced do
    let unit ← w.load (FilePath.ofString root)
    let count := (← get).files.length
    Loader.ofTraced (.record .info .bundling s!"Loaded {count} file(s) from {root}")
    return unit

/-- Flattens a scope tree and records the number of modules. -/
def flattenPhase (tree : Item) : Traced ModuleMap := do
  let modules ← ModuleMap.ofTree tree
  .record .info .bundling s!"Found {modules.entries.length} module(s)"
  return modules

/-- Bundles the crate with the given root file. -/
def bundle (w : Workspace) (root : String) (prune : Bool) : Traced BundleResult :=
  proceed root {} (w.loadPhase root) fun unit =>
  proceed root {} unit.scopeTree fun tree =>
  proceed root { scopeTree := some tree } (flattenPhase tree) fun modules =>
  proceed root { scopeTree := some tree, modules := some modules } modules.liveness fun live =>
  let results : BundleResult := { scopeTree := some tree, modules := some modules, liveness := some live }
  proceed root results (if prune then unit.prune w.grammar live else pure unit) fun unit =>
  return { results with unit := some unit }

end Workspace

end CrateFold
