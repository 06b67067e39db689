import CrateFold.Liveness.Mark

/-!
# Live modules

The crate root is live, and so are the modules that define macros, since macros are used by name and
not by path. All that live modules refer to is live. Then the dead modules are gone through: one that
holds an `impl` block for something live is live too, with all that it refers to, and this is repeated
until a round adds nothing.
-/

namespace CrateFold

/-- The modules and declarations of a crate that are in use. -/
structure Liveness where
  modules : List ModulePath := []
  /-- The types and functions named by a reference of a live module. -/
  declarations : List ModulePath := []
deriving DecidableEq, Repr

/-- Whether a module is live. -/
def Liveness.isLive (l : Liveness) (path : ModulePath) : Bool := l.modules.contains path

/-- Whether a declaration is live. -/
def Liveness.isDeclarationLive (l : Liveness) (path : ModulePath) : Bool := l.declarations.contains path

namespace ModuleMap

/-- Makes sure that every scope of the map declares its names by known items. -/
def checkNames : List (ModulePath × Scope) → Except Fault Unit
  | [] => .ok ()
  | entry :: rest => do
    discard entry.2.declaredNames
    checkNames rest

/-- Makes sure that a map has a crate root and that its scopes hold known items. -/
def check (m : ModuleMap) : Except Fault Unit :=
  if m.contains .crate then checkNames m.entries else .error .noCrateRoot

/-- Whether an access out of a list has a live owner. -/
def anyLive (m : ModuleMap) (k : Marking) (module : ModulePath) (aliases : Aliases)
    (shadowed : List String) : List ModulePath → Traced Bool
  | [] => return false
  | access :: rest => do
    match ← m.resolve module aliases shadowed access with
    | some target => if k.isLive (m.owner target) then return true else anyLive m k module aliases shadowed rest
    | none => anyLive m k module aliases shadowed rest

/-- Whether one of the items is an `impl` block that refers to something live. -/
def anchorsIn (m : ModuleMap) (k : Marking) (module : ModulePath) (aliases : Aliases) :
    List Item → Traced Bool
  | [] => return false
  | .generic none body :: rest => do
    let names ← Scope.declaredNames body
    if ← m.anyLive k module aliases names body.accesses then return true
    else anchorsIn m k module aliases rest
  | _ :: rest => anchorsIn m k module aliases rest

/-- Whether a module holds an `impl` block that refers to something live. -/
def anchors (m : ModuleMap) (k : Marking) (module : ModulePath) (scope : Scope) : Traced Bool :=
  m.anchorsIn k module scope.aliases scope.items

/-- Marks the modules that define macros. -/
def markMacros : List (ModulePath × Scope) → Marking → Traced Marking
  | [], k => return k
  | (path, scope) :: rest, k =>
    if scope.definesMacros && !k.isLive path then do
      .record .debug .liveness s!"[TreeShaking] {path} kept for its macro definitions"
      markMacros rest (← k.mark path)
    else markMacros rest k

/-- One round over entries of the map: each dead one that holds an `impl` block for something live is
marked and visited. -/
def round (m : ModuleMap) : List (ModulePath × Scope) → Marking → List (ModulePath × Scope) →
    Traced (Marking × List (ModulePath × Scope))
  | [], k, waiting => return (k, waiting)
  | (path, scope) :: rest, k, waiting =>
    if k.isLive path then m.round rest k waiting
    else do
      if ← m.anchors k path scope then
        .record .debug .liveness s!"[TreeShaking] {path} kept for an impl of a live item"
        let (k, waiting) ← (← k.mark path).drain m waiting
        m.round rest k waiting
      else m.round rest k waiting

/-- Rounds over the whole map until one visits no further module. -/
def rounds (m : ModuleMap) (k : Marking) (waiting : List (ModulePath × Scope)) : Traced Marking := do
  let (next, left) ← m.round m.entries k waiting
  if left.length < waiting.length then m.rounds next left else return next
termination_by waiting.length

/-- The search for live modules. -/
def search (m : ModuleMap) : Traced Marking := do
  m.check
  let k ← Marking.mark {} .crate
  let k ← markMacros m.entries k
  let (k, waiting) ← k.drain m m.entries
  m.rounds k waiting

/-- The modules and declarations in use. -/
def liveness (m : ModuleMap) : Traced Liveness := do
  let k ← m.search
  .record .info .liveness
    (s!"[TreeShaking] {k.live.length}/{m.entries.length} modules live, " ++
      s!"{k.declarations.length} declarations named")
  return ⟨k.live, k.declarations⟩

end ModuleMap

end CrateFold
