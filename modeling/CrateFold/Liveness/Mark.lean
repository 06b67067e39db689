import CrateFold.Liveness.Resolve

/-!
# Marking modules live

The references of a live module make their owners live, together with the modules those lie in.
`Marking` is what is known so far: the live modules, the declarations named by some reference, and the
live modules whose scopes are still to be visited. Every module is put into the queue when it is marked
and at no other time.
-/

namespace CrateFold

/-- The progress of a search for live modules. -/
structure Marking where
  /-- The modules found live, in the order found. -/
  live : List ModulePath := []
  /-- The types and functions named by a reference, in the order found. -/
  declarations : List ModulePath := []
  /-- The live modules still to be visited. -/
  queue : List ModulePath := []
deriving DecidableEq, Repr

namespace Marking

/-- Whether a module has been found live. -/
def isLive (k : Marking) (path : ModulePath) : Bool := k.live.contains path

/-- Marks modules live and puts them into the queue, in order. -/
def markEach : List ModulePath → Marking → Traced Marking
  | [], k => return k
  | path :: rest, k => do
    .record .debug .liveness s!"[TreeShaking] reached {path}"
    markEach rest { k with live := k.live ++ [path], queue := k.queue ++ [path] }

/-- Marks a module live, and those it lies in up to the first that is live already, outermost first. -/
def mark (k : Marking) (path : ModulePath) : Traced Marking :=
  markEach (path.lineage.takeWhile (!k.isLive ·)).reverse k

/-- Follows a canonical path: its owner becomes live, and the name after its owner is noted if the
owner declares it. -/
def reach (m : ModuleMap) (target : ModulePath) (k : Marking) : Traced Marking := do
  let owner := m.owner target
  let k ← match target.segments.drop owner.length with
    | [] => pure k
    | name :: _ => do
      if (← m.namesAt owner).contains name then
        pure { k with declarations := insertNew k.declarations (owner.join ⟨[name]⟩) }
      else pure k
  if k.isLive owner then return k else k.mark owner

/-- Follows an access of a module. -/
def follow (m : ModuleMap) (module : ModulePath) (aliases : Aliases) (shadowed : List String)
    (access : ModulePath) (k : Marking) : Traced Marking := do
  match ← m.resolve module aliases shadowed access with
  | some target => k.reach m target
  | none => do
    .record .debug .liveness s!"[TreeShaking] {module}: `{access}` does not name a crate item"
    return k

/-- Follows the accesses of one scope. -/
def followAll (m : ModuleMap) (module : ModulePath) (aliases : Aliases) (shadowed : List String) :
    List ModulePath → Marking → Traced Marking
  | [], k => return k
  | access :: rest, k => do
    let k ← k.follow m module aliases shadowed access
    followAll m module aliases shadowed rest k

/-- What an import makes live: its target, or for a glob the module whose names it brings in. -/
def importSource? (i : Import) : Option ModulePath :=
  if i.name == some "*" then
    if i.target.parent.isEmpty then none else some i.target.parent
  else some i.target

mutual

/-- Follows the imports and accesses of a scope of a module and of all scopes nested in it. An import
is resolved as it is written; an access through the imports of its own scope and of those around it,
unless its first segment is declared in a nested scope around it. -/
def visitScope (m : ModuleMap) (module : ModulePath) (aliases : Aliases) (shadowed : List String) :
    ScopeOf Item → Marking → Traced Marking
  | ⟨items, accesses, definesMacros⟩, k => do
    let scope : Scope := ⟨items, accesses, definesMacros⟩
    let aliases := scope.aliases ++ aliases
    let k ← followAll m module [] [] (scope.importList.filterMap importSource?) k
    let k ← followAll m module aliases shadowed accesses k
    visitItems m module aliases shadowed items k
termination_by structural s => s

/-- Visits the nested scopes among items. -/
def visitItems (m : ModuleMap) (module : ModulePath) (aliases : Aliases) (shadowed : List String) :
    List Item → Marking → Traced Marking
  | [], k => return k
  | item :: rest, k => do
    let k ← visitItem m module aliases shadowed item k
    visitItems m module aliases shadowed rest k
termination_by structural l => l

/-- Visits the scope of an item that has one without being a module. -/
def visitItem (m : ModuleMap) (module : ModulePath) (aliases : Aliases) (shadowed : List String) :
    Item → Marking → Traced Marking
  | .generic _ body, k => do
    let names ← Scope.declaredNames body
    visitScope m module aliases (shadowed ++ names) body k
  | .block body, k => do
    let names ← Scope.declaredNames body
    visitScope m module aliases (shadowed ++ names) body k
  | .module _ _, k => return k
  | .imports _, k => return k
  | .type _, k => return k
  | .file body, _ => .fail (.unknownItem (Item.file body).kind)
  | .bare text, _ => .fail (.unknownItem (Item.bare text).kind)
termination_by structural item => item

end

/-- Visits the modules in the queue, and those that enter it meanwhile, until it is empty. `waiting`
holds the entries not visited yet; a module in the queue that is not among them is in no map. -/
def drain (m : ModuleMap) (waiting : List (ModulePath × Scope)) (k : Marking) :
    Traced (Marking × List (ModulePath × Scope)) :=
  match k.queue with
  | [] => return (k, waiting)
  | path :: queue =>
    match _found : waiting.find? (·.1 == path) with
    | none => .fail (.unmapped path)
    | some entry => do
      let k ← visitScope m path [] [] entry.2 { k with queue := queue }
      drain m (waiting.eraseP (·.1 == path)) k
termination_by waiting.length
decreasing_by
  have member := List.mem_of_find?_eq_some _found
  have same := List.find?_some _found
  rw [List.length_eraseP_of_mem member same]
  have := List.length_pos_of_mem member
  omega

end Marking

end CrateFold
