import CrateFold.Proofs.Flattening
import CrateFold.Proofs.Restriction

/-!
The analysis of a scope tree as a whole. Flattening a tree of known items gives a rooted map, on which no
look-up of the search fails; the live modules are modules of the map, with those that they lie in, and a
declaration is found live only below a live module that makes it (`liveness_ofTree`). The names that
modules declare come from the tree unchanged, since taking modules out and merging bodies keep them.
-/
namespace CrateFold

namespace Scope

variable {s t : Scope}

/-! ### Names kept by flattening -/

theorem names_merge (s t : Scope) : (s.merge t).names = s.names ++ t.names := by
  simp [names, namesIn, merge, ofParts]

/-- Taking modules out takes no declared name out. -/
theorem names_stripped (s : Scope) : (stripped s).names = s.names := by
  obtain ⟨items, accesses, definesMacros⟩ := s
  simp only [names, namesIn, stripped]
  induction items with
  | nil => rfl
  | cons item rest ih =>
    rw [strippedIn, List.filterMap_append, ih]
    cases item with
    | generic owner body => cases owner <;> rfl
    | _ => rfl

/-- Whether no name that a scope declares is `crate`. -/
def rootless (s : Scope) : Bool := s.names.all (· != "crate")

theorem rootless_merge (one : s.rootless = true) (other : t.rootless = true) : (s.merge t).rootless = true := by
  rw [rootless, names_merge, List.all_append, Bool.and_eq_true]
  exact ⟨one, other⟩

theorem rootless_stripped (fine : s.rootless = true) : (stripped s).rootless = true := by
  rw [rootless, names_stripped]
  exact fine

end Scope

namespace ModuleMap

variable {m : ModuleMap} {s : Scope} {d target : ModulePath}

/-! ### Declarations found live -/

/-- The declaration that a path names is the owner of the path with a name that the owner declares. -/
theorem named?_eq_some (found : m.named? target = some d) :
    ∃ name ∈ m.names (m.owner target), d = (m.owner target).join ⟨[name]⟩ := by
  unfold named? at found
  split at found
  · cases found
  · next name _ _ =>
    split at found
    · next declared => exact ⟨name, declared, (Option.some.inj found).symm⟩
    · cases found

/-- A declaration that a module of a closed set refers to is made by a module of the set. -/
theorem Closed.owner_of_names {modules : Set ModulePath} (rooted : m.Rooted) (closed : m.Closed modules)
    {entry : ModulePath × Scope} (inMap : entry ∈ m.entries) (live : entry.1 ∈ modules) (names : m.Names entry d) :
    ∃ owner ∈ modules, ∃ scope name, (owner, scope) ∈ m.entries ∧ name ∈ scope.names ∧ d = owner.join ⟨[name]⟩ := by
  obtain ⟨r, written, target, leads, found⟩ := names
  obtain ⟨name, declared, rfl⟩ := named?_eq_some found
  have bound := Scope.bound_references (rooted.targeted _ inMap) written
  have absolute := rooted.leadsTo_isCratePath (mem_keys_of_mem inMap) bound leads
  obtain ⟨scope, owned⟩ := mem_keys.mp (owner_spec rooted.root absolute).1
  rw [rooted.names_eq owned] at declared
  exact ⟨m.owner target, closed.references entry inMap live r written target leads, scope, name, owned, declared, rfl⟩

/-- The analysis of a tree of known items and named modules, in which nothing is called `crate` and nothing empty is
imported. Flattening and the search both succeed. The crate root is live; what is live is a module of the map, with all
that it lies in; and a declaration that is live is a name below a live module which declares that name directly. -/
theorem liveness_ofTree (known : Scope.everywhere Scope.known s = true)
    (named : Scope.everywhere Scope.wellNamed s = true) (rootless : Scope.everywhere Scope.rootless s = true)
    (targeted : Scope.everywhere Scope.targeted s = true) :
    ∃ m live, (ofTree (.file s)).outcome = .ok m ∧ m.liveness.outcome = .ok live ∧ .crate ∈ live.modules ∧
      (∀ p ∈ live.modules, p ∈ m.keys) ∧ (∀ p ∈ live.modules, ∀ q, p.Within q → q ∈ live.modules) ∧
      ∀ d ∈ live.declarations, ∃ owner ∈ live.modules, ∃ scope name, m.get? owner = some scope ∧
        (.type name ∈ scope.items ∨ ∃ body, .generic (some name) body ∈ scope.items) ∧
          d.segments = owner.segments ++ [name] := by
  have rooted := rooted_gather known named targeted
  have plain := everywhere_gather Scope.rootless rfl (fun _ _ => Scope.rootless_merge)
    (fun _ => Scope.rootless_stripped) rootless
  obtain ⟨live, run, ⟨closed, -⟩, keys, declared⟩ := liveness_total rooted
  refine ⟨_, live, ofTree_outcome known named, run, closed.root, keys, closed.ancestors, ?_⟩
  intro d member
  obtain ⟨entry, inMap, alive, names⟩ := (declared d).mp member
  obtain ⟨owner, liveOwner, scope, name, owned, listed, rfl⟩ := closed.owner_of_names rooted inMap alive names
  have other : name ≠ "crate" := by
    have all := (Scope.everywhere_iff.mp (plain _ owned)).1
    simpa using List.all_eq_true.mp all name listed
  exact ⟨owner, liveOwner, scope, name, rooted.get? owned, Scope.mem_names.mp listed,
    ModulePath.join_segments (q := ⟨[name]⟩) rfl other⟩

/-- A crate with a module in a function of a module, whose type is used through an import, and a module that nothing
refers to. -/
def nestedTree : Scope where
  items := [
    .imports [⟨some "T", ⟨["a", "b", "T"]⟩⟩],
    .module "a" { items := [.generic (some "f") { items := [.block { items := [.module "b" { items := [.type "T"] }] }] }] },
    .module "c" { accesses := [⟨["super", "a", "f"]⟩] }]
  accesses := [⟨["T", "new"]⟩]

theorem liveness_nestedTree : Scope.everywhere Scope.known nestedTree = true ∧
    Scope.everywhere Scope.wellNamed nestedTree = true ∧ Scope.everywhere Scope.rootless nestedTree = true ∧
    Scope.everywhere Scope.targeted nestedTree = true ∧
    ∃ m live, (ofTree (.file nestedTree)).outcome = .ok m ∧ m.liveness.outcome = .ok live ∧
      live.modules = [⟨["crate"]⟩, ⟨["crate", "a"]⟩, ⟨["crate", "a", "b"]⟩] ∧
      ∃ owner ∈ live.modules, ∃ scope name, m.get? owner = some scope ∧
        (.type name ∈ scope.items ∨ ∃ body, .generic (some name) body ∈ scope.items) ∧
          ["crate", "a", "b", "T"] = owner.segments ++ [name] := by
  have known : Scope.everywhere Scope.known nestedTree = true := by decide
  have named : Scope.everywhere Scope.wellNamed nestedTree = true := by decide +kernel
  have rootless : Scope.everywhere Scope.rootless nestedTree = true := by decide
  have targeted : Scope.everywhere Scope.targeted nestedTree = true := by decide
  obtain ⟨m, live, flat, run, -, -, -, declared⟩ := liveness_ofTree known named rootless targeted
  have found : ((ofTree (.file nestedTree)).outcome >>= fun m => m.liveness.outcome) =
      .ok ⟨[⟨["crate"]⟩, ⟨["crate", "a"]⟩, ⟨["crate", "a", "b"]⟩], [⟨["crate", "a", "b", "T"]⟩]⟩ := by decide +kernel
  rw [flat, ok_bind, run] at found
  cases found
  exact ⟨known, named, rootless, targeted, m, _, flat, run, rfl, declared ⟨["crate", "a", "b", "T"]⟩ (by simp)⟩

end ModuleMap

end CrateFold
