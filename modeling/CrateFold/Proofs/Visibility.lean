import CrateFold.Proofs.Runs

/-!
Which names a path written in a module can start with, and what it keeps in use. A path stands in a list of nested
scopes without a name (`Scope.Nests`); the imports of these and of the module are in force there, the
innermost first, and what these scopes declare is hidden, be it a type or a function. A path that is not hidden
keeps the module that it leads to (`access_live`). An import brings in one name, as it is written: a glob
keeps the module that it takes names from, but gives no name a meaning (`glob_source_live`), and an import that
starts with the name of another import leads nowhere (`chained_import_live`).
-/
namespace CrateFold

namespace Scope

/-! ### Places in a module -/

/-- A scope without a name stands directly in another scope. -/
def Holds (outer inner : Scope) : Prop := (∃ owner, .generic owner inner ∈ outer.items) ∨ .block inner ∈ outer.items

/-- The scopes without a name around a place in a module, the innermost first. -/
inductive Nests (module : Scope) : List Scope → Prop
  /-- Directly in the module. -/
  | module : Nests module []
  | nested {inner : Scope} {outers : List Scope} (place : Nests module outers)
      (held : (outers.headD module).Holds inner) : Nests module (inner :: outers)

/-- The names that imports bind at a place, the innermost binding first. -/
def aliasesAt (module : Scope) (nested : List Scope) : Aliases := nested.flatMap aliases ++ module.aliases

/-- The names that the scopes without a name around a place declare. -/
def hidden (nested : List Scope) : List String := nested.reverse.flatMap names

variable {module : Scope} {nested : List Scope} {name : String}

theorem mem_hidden : name ∈ hidden nested ↔ ∃ s ∈ nested, name ∈ s.names := by simp [hidden]

theorem mem_referencesIn {items : List Item} {item : Item} {aliases : Aliases} {shadowed : List String} {r : Reference}
    (member : item ∈ items) (written : r ∈ referencesAt aliases shadowed item) :
    r ∈ referencesIn aliases shadowed items := by
  induction items with
  | nil => cases member
  | cons first rest ih =>
    rw [referencesIn]
    rcases List.mem_cons.mp member with rfl | later
    · exact List.mem_append_left _ written
    · exact List.mem_append_right _ (ih later)

theorem referencesFrom_eq (s : Scope) (aliases : Aliases) (shadowed : List String) :
    referencesFrom aliases shadowed s =
      s.written (s.aliases ++ aliases) shadowed ++ referencesIn (s.aliases ++ aliases) shadowed s.items := by
  cases s
  rfl

/-- What is written at a place is among the references of the module, with the names bound and hidden there. -/
theorem Nests.references (place : module.Nests nested) :
    ∀ r ∈ (nested.headD module).written (module.aliasesAt nested) (hidden nested) ++
      referencesIn (module.aliasesAt nested) (hidden nested) (nested.headD module).items, r ∈ module.references := by
  induction place with
  | module =>
    intro r written
    rw [Scope.references, referencesFrom_eq, List.append_nil]
    exact written
  | @nested inner outers _ held ih =>
    intro r written
    apply ih
    have inside : r ∈ referencesFrom (module.aliasesAt outers) (hidden outers ++ inner.names) inner := by
      rw [referencesFrom_eq]
      simpa [aliasesAt, hidden] using written
    refine List.mem_append_right _ ?_
    rcases held with ⟨owner, listed⟩ | listed
    · exact mem_referencesIn listed inside
    · exact mem_referencesIn listed inside

theorem Nests.access (place : module.Nests nested) {path : ModulePath} (written : path ∈ (nested.headD module).accesses) :
    ⟨module.aliasesAt nested, hidden nested, path⟩ ∈ module.references := by
  apply place.references
  refine List.mem_append_left _ (List.mem_append_right _ ?_)
  exact List.mem_map.mpr ⟨path, written, rfl⟩

/-- What an import of a module makes live is among its references, as it is written. -/
theorem importSource_mem_references {i : Import} (imported : i ∈ module.importList) {path : ModulePath}
    (source : Marking.importSource? i = some path) : ⟨[], [], path⟩ ∈ module.references := by
  apply Nests.module.references
  refine List.mem_append_left _ (List.mem_append_left _ ?_)
  exact List.mem_map.mpr ⟨path, List.mem_filterMap.mpr ⟨i, imported, source⟩, rfl⟩

end Scope

namespace ModuleMap

variable {m : ModuleMap} {live : Liveness} {module path target : ModulePath} {aliases : Aliases} {shadowed : List String}
  {first : String}

/-! ### Meanings of paths -/

theorem answer_hidden (start : path.first? = some first) (declared : first ∈ shadowed) :
    m.answer module ⟨aliases, shadowed, path⟩ = .ok none := by
  simp [answer, resolve, start, declared]

theorem answer_of_not_hidden (start : path.first? = some first) (free : first ∉ shadowed) :
    m.answer module ⟨aliases, shadowed, path⟩ = m.answer module ⟨aliases, [], path⟩ := by
  simp [answer, resolve, start, free]

theorem answer_bound (start : path.first? = some first) (free : first ∉ shadowed)
    (bound : aliases.lookup first = some target) :
    m.answer module ⟨aliases, shadowed, path⟩ = (m.canonical (target.join path.suffix) module).outcome := by
  simp [answer, resolve, start, free, bound]

theorem answer_unbound (start : path.first? = some first) (free : first ∉ shadowed) (unbound : aliases.lookup first = none) :
    m.answer module ⟨aliases, shadowed, path⟩ = (m.canonical path module).outcome := by
  simp [answer, resolve, start, free, unbound]

/-- A path that is written as it is has its canonical form for an answer. -/
theorem answer_written (nonempty : path.segments ≠ []) : m.answer module ⟨[], [], path⟩ = (m.canonical path module).outcome := by
  cases segments : path.segments with
  | nil => exact absurd segments nonempty
  | cons first rest => exact answer_unbound (by rw [ModulePath.first?, segments]; rfl) (by simp) rfl

/-- A path stands for nothing if it starts with a plain name that neither the module nor the crate root declares. -/
theorem canonical_undeclared {rest : List String} (segments : path.segments = first :: rest)
    (plain : first ∉ startingSegments) (here : m.declares module first = .ok false)
    (top : m.declares .crate first = .ok false) : (m.canonical path module).outcome = .ok none := by
  simp only [startingSegments, List.mem_cons, List.not_mem_nil, or_false, not_or] at plain
  obtain ⟨notCrate, notMacro, notSelf, notSuper⟩ := plain
  simp [canonical, segments, notCrate, notMacro, notSelf, notSuper, here, top]

/-- A module of the map owns itself. -/
theorem owner_of_mem (member : target ∈ m.keys) : m.owner target = target := by
  obtain ⟨rest, first⟩ := target.lineage_head
  simp [owner, first, contains_iff.mpr member]

/-- What an import of a live module stands for as it is written is owned by a live module. -/
theorem import_live (distinct : m.keys.Nodup) (run : m.liveness.outcome = .ok live) {entry : ModulePath × Scope}
    (inMap : entry ∈ m.entries) (alive : entry.1 ∈ live.modules) {i : Import} (imported : i ∈ entry.2.importList)
    (source : Marking.importSource? i = some path) (leads : (m.canonical path entry.1).outcome = .ok (some target)) :
    m.owner target ∈ live.modules := by
  have nonempty : path.segments ≠ [] := by
    intro empty
    simp [canonical, empty] at leads
  refine liveness_followed distinct run entry inMap alive _ (Scope.importSource_mem_references imported source) target ?_
  rw [LeadsTo, answer_written nonempty]
  exact leads

/-! ### Hidden names -/

/-- An access of a live module, at any place in it. If no scope without a name around it declares the name that it
starts with, as a type or as the owner of a generic scope, the module that owns what it leads to through the
imports in force is live. If one does, the access stands for nothing. -/
theorem access_live (distinct : m.keys.Nodup) (run : m.liveness.outcome = .ok live) {entry : ModulePath × Scope}
    (inMap : entry ∈ m.entries) (alive : entry.1 ∈ live.modules) {nested : List Scope} (place : entry.2.Nests nested)
    {access : ModulePath} (written : access ∈ (nested.headD entry.2).accesses) (start : access.first? = some first) :
    ((∀ s ∈ nested, .type first ∉ s.items ∧ ∀ body, .generic (some first) body ∉ s.items) →
      ∀ target, m.LeadsTo entry.1 ⟨entry.2.aliasesAt nested, [], access⟩ target → m.owner target ∈ live.modules) ∧
    ∀ s ∈ nested, (.type first ∈ s.items ∨ ∃ body, .generic (some first) body ∈ s.items) →
      m.answer entry.1 ⟨entry.2.aliasesAt nested, Scope.hidden nested, access⟩ = .ok none := by
  constructor
  · intro free target leads
    have visible : first ∉ Scope.hidden nested := by
      rw [Scope.mem_hidden]
      rintro ⟨s, around, declared⟩
      rcases Scope.mem_names.mp declared with type | ⟨body, generic⟩
      · exact (free s around).1 type
      · exact (free s around).2 body generic
    refine liveness_followed distinct run entry inMap alive _ (place.access written) target ?_
    rw [LeadsTo, answer_of_not_hidden start visible]
    exact leads
  · intro s around declared
    exact answer_hidden start (Scope.mem_hidden.mpr ⟨s, around, Scope.mem_names.mpr declared⟩)

/-- A block that calls a function of a module. -/
def call : Scope := { accesses := [⟨["util", "f"]⟩] }

/-- An `impl` block with one method, which makes the call. -/
def implementation : Scope := { items := [.generic (some "new") { items := [.block call] }], accesses := [⟨["S"]⟩] }

def methods : ModuleMap where
  entries :=
    [(⟨["crate"]⟩, { items := [.type "S", .generic none implementation] }),
     (⟨["crate", "util"]⟩, { items := [.generic (some "f") { items := [.block {}] }] })]

theorem access_live_methods : ∃ live, methods.liveness.outcome = .ok live ∧
    methods.LeadsTo .crate ⟨[], [], ⟨["util", "f"]⟩⟩ ⟨["crate", "util", "f"]⟩ ∧ ⟨["crate", "util"]⟩ ∈ live.modules := by
  have found : methods.liveness.outcome =
      .ok ⟨[⟨["crate"]⟩, ⟨["crate", "util"]⟩], [⟨["crate", "S"]⟩, ⟨["crate", "util", "f"]⟩]⟩ := by decide +kernel
  have leads : methods.LeadsTo .crate ⟨[], [], ⟨["util", "f"]⟩⟩ ⟨["crate", "util", "f"]⟩ := by
    unfold LeadsTo
    decide +kernel
  have owner : methods.owner ⟨["crate", "util", "f"]⟩ = ⟨["crate", "util"]⟩ := by decide +kernel
  have place : Scope.Nests { items := [.type "S", .generic none implementation] }
      [call, { items := [.block call] }, implementation] :=
    ((Scope.Nests.module.nested (.inl ⟨none, .tail _ (.head _)⟩)).nested (.inl ⟨some "new", .head _⟩)).nested
      (.inr (.head _))
  have kept := (access_live (by decide) found (.head _) (.head _) place (.head _) rfl).1
    (by simp [implementation, call]) _ leads
  exact ⟨_, found, leads, owner ▸ kept⟩

/-! ### Globs -/

/-- A name that no scope declares and no import binds keeps the module of that name that a glob of its module
brings in. -/
def GlobNamesLive (m : ModuleMap) (live : Liveness) : Prop :=
  ∀ entry ∈ m.entries, entry.1 ∈ live.modules → ∀ i ∈ entry.2.importList, i.name = some "*" →
    ∀ source ∈ m.keys, (m.canonical i.target.parent entry.1).outcome = .ok (some source) →
      ∀ nested, entry.2.Nests nested → ∀ access ∈ (nested.headD entry.2).accesses, ∀ first, access.first? = some first →
        first ∉ Scope.hidden nested → (entry.2.aliasesAt nested).lookup first = none →
          m.declares entry.1 first = .ok false → m.declares .crate first = .ok false →
            source.join ⟨[first]⟩ ∈ m.keys → m.owner ((source.join ⟨[first]⟩).join access.suffix) ∈ live.modules

/-- A crate with a module that takes the name of a neighbour in by a glob. -/
def globbed : ModuleMap where
  entries :=
    [(⟨["crate"]⟩, { items := [.generic (some "main") { items := [.block { accesses := [⟨["a", "b", "g"]⟩] }] }] }),
     (⟨["crate", "a"]⟩, {}),
     (⟨["crate", "a", "util"]⟩, { items := [.generic (some "f") { items := [.block {}] }] }),
     (⟨["crate", "a", "b"]⟩, { items := [.imports [⟨some "*", ⟨["super", "*"]⟩⟩], .generic (some "g") { items := [.block call] }] })]

theorem globbed_liveness : globbed.liveness.outcome =
    .ok ⟨[⟨["crate"]⟩, ⟨["crate", "a"]⟩, ⟨["crate", "a", "b"]⟩], [⟨["crate", "a", "b", "g"]⟩]⟩ := by decide +kernel

theorem nests_globbed : (globbed.entries.getLast (by decide)).2.Nests [call, { items := [.block call] }] :=
  (Scope.Nests.module.nested (.inl ⟨some "g", .tail _ (.head _)⟩)).nested (.inr (.head _))

/-- A module can be dead although a live module refers to it by a name that a glob brings in. -/
theorem not_globNamesLive : globbed.Rooted ∧
    ∃ live, globbed.liveness.outcome = .ok live ∧ ¬ globbed.GlobNamesLive live := by
  refine ⟨by refine ⟨?_, ?_, ?_, ?_, ?_, ?_⟩ <;> decide, _, globbed_liveness, ?_⟩
  intro kept
  have member := kept _ (List.getLast_mem (by decide)) (by decide) ⟨some "*", ⟨["super", "*"]⟩⟩ (.head _) rfl
    ⟨["crate", "a"]⟩ (by decide) (by decide +kernel) _ nests_globbed ⟨["util", "f"]⟩ (.head _) "util" rfl (by decide)
    (by decide +kernel) (by decide +kernel) (by decide +kernel) (by decide)
  revert member
  decide +kernel

/-- A glob of a live module keeps the module that it takes names from, with all that this lies in, but gives no name
a meaning: an access that starts with a plain name which nothing around it declares or binds is followed, and
stands for nothing. -/
theorem glob_source_live (distinct : m.keys.Nodup) (run : m.liveness.outcome = .ok live) {entry : ModulePath × Scope}
    (inMap : entry ∈ m.entries) (alive : entry.1 ∈ live.modules) {i : Import} (imported : i ∈ entry.2.importList)
    (glob : i.name = some "*") {source : ModulePath} (member : source ∈ m.keys)
    (leads : (m.canonical i.target.parent entry.1).outcome = .ok (some source)) :
    source ∈ live.modules ∧ (∀ q, source.Within q → q ∈ live.modules) ∧
      ∀ nested, entry.2.Nests nested → ∀ access ∈ (nested.headD entry.2).accesses, ∀ first, access.first? = some first →
        first ∉ startingSegments → first ∉ Scope.hidden nested → (entry.2.aliasesAt nested).lookup first = none →
          m.declares entry.1 first = .ok false → m.declares .crate first = .ok false →
            ⟨entry.2.aliasesAt nested, Scope.hidden nested, access⟩ ∈ entry.2.references ∧
              m.answer entry.1 ⟨entry.2.aliasesAt nested, Scope.hidden nested, access⟩ = .ok none := by
  have from_ : Marking.importSource? i = some i.target.parent := by
    have nonempty : i.target.parent.isEmpty = false := by
      by_contra empty
      have none : i.target.parent.segments = [] := by simpa [ModulePath.isEmpty] using empty
      simp [canonical, none] at leads
    simp [Marking.importSource?, glob, nonempty]
  have kept : source ∈ live.modules := owner_of_mem member ▸ import_live distinct run inMap alive imported from_ leads
  refine ⟨kept, liveness_rising run source kept, ?_⟩
  intro nested place access written first start plain visible unbound here top
  refine ⟨place.access written, ?_⟩
  obtain ⟨rest, segments⟩ : ∃ rest, access.segments = first :: rest := by
    rw [ModulePath.first?] at start
    exact List.head?_eq_some_iff.mp start
  rw [answer_unbound start visible unbound]
  exact canonical_undeclared segments plain here top

theorem glob_source_live_globbed : ∃ live, globbed.liveness.outcome = .ok live ∧ ⟨["crate", "a"]⟩ ∈ live.modules ∧
    globbed.answer ⟨["crate", "a", "b"]⟩ ⟨[], [], ⟨["util", "f"]⟩⟩ = .ok none := by
  have leads : (globbed.canonical ⟨["super"]⟩ ⟨["crate", "a", "b"]⟩).outcome = .ok (some ⟨["crate", "a"]⟩) := by decide +kernel
  obtain ⟨kept, -, nothing⟩ := glob_source_live (by decide) globbed_liveness (List.getLast_mem (by decide))
    (by decide) (i := ⟨some "*", ⟨["super", "*"]⟩⟩) (.head _) rfl (by decide) leads
  have access := nothing _ nests_globbed ⟨["util", "f"]⟩ (.head _) "util" rfl (by decide) (by decide)
    (by decide +kernel) (by decide +kernel) (by decide +kernel)
  exact ⟨_, globbed_liveness, kept, access.2⟩

/-! ### Imports through imports -/

theorem importSource?_of_binding {i : Import} {name : String} (binds : i.binding? = some (name, target)) :
    Marking.importSource? i = some target := by
  unfold Import.binding? at binds
  split at binds
  · next named =>
    split at binds
    · cases binds
    · next other =>
      cases binds
      simp_all [Marking.importSource?]
  · cases binds

/-- An import of a live module that starts with the name of another import. What the other import stands for is kept, and
so is all that is written behind its name as long as that leads into no module below. But an import is followed
as it is written: if no module declares the name, the import and the accesses through it stand for nothing. -/
theorem chained_import_live (distinct : m.keys.Nodup) (run : m.liveness.outcome = .ok live) {entry : ModulePath × Scope}
    (inMap : entry ∈ m.entries) (alive : entry.1 ∈ live.modules) {i j : Import} (imported : i ∈ entry.2.importList)
    (other : j ∈ entry.2.importList) {name : String} {rest : List String} (binds : i.binding? = some (name, ⟨first :: rest⟩))
    (bound : j.binding? = some (first, path)) :
    (∀ base, (m.canonical path entry.1).outcome = .ok (some base) → ∀ tail target,
      (m.canonical (path.join tail) entry.1).outcome = .ok (some target) → m.owner target = m.owner base →
        m.owner target ∈ live.modules) ∧
    (first ∉ startingSegments → m.declares entry.1 first = .ok false → m.declares .crate first = .ok false →
      (⟨[], [], ⟨first :: rest⟩⟩ ∈ entry.2.references ∧ m.answer entry.1 ⟨[], [], ⟨first :: rest⟩⟩ = .ok none) ∧
      ∀ nested, entry.2.Nests nested → ∀ access ∈ (nested.headD entry.2).accesses, access.first? = some name →
        access.suffix.isCratePath = false → (entry.2.aliasesAt nested).lookup name = some ⟨first :: rest⟩ →
          ⟨entry.2.aliasesAt nested, Scope.hidden nested, access⟩ ∈ entry.2.references ∧
            m.answer entry.1 ⟨entry.2.aliasesAt nested, Scope.hidden nested, access⟩ = .ok none) := by
  constructor
  · intro base stands tail target _ same
    rw [same]
    exact import_live distinct run inMap alive other (importSource?_of_binding bound) stands
  · intro plain here top
    refine ⟨⟨Scope.importSource_mem_references imported (importSource?_of_binding binds), ?_⟩, ?_⟩
    · rw [answer_written (by simp)]
      exact canonical_undeclared rfl plain here top
    · intro nested place access written start relative last
      refine ⟨place.access written, ?_⟩
      by_cases covered : name ∈ Scope.hidden nested
      · exact answer_hidden start covered
      · rw [answer_bound start covered last]
        have segments : ((⟨first :: rest⟩ : ModulePath).join access.suffix).segments =
            first :: (rest ++ access.suffix.segments) := by
          simp [ModulePath.join, relative]
        exact canonical_undeclared segments plain here top

/-- A crate that imports a type through the other name of its module. -/
def aliased : ModuleMap where
  entries :=
    [(⟨["crate"]⟩,
       { items := [.imports [⟨some "k", ⟨["m"]⟩⟩], .imports [⟨some "z", ⟨["k", "T"]⟩⟩]], accesses := [⟨["z", "new"]⟩] }),
     (⟨["crate", "m"]⟩, { items := [.type "T"] })]

theorem chained_import_live_aliased : ∃ live, aliased.liveness.outcome = .ok live ∧
    (aliased.canonical ⟨["m", "T"]⟩ .crate).outcome = .ok (some ⟨["crate", "m", "T"]⟩) ∧
    aliased.owner ⟨["crate", "m", "T"]⟩ ∈ live.modules ∧
    aliased.answer .crate ⟨[], [], ⟨["k", "T"]⟩⟩ = .ok none := by
  have found : aliased.liveness.outcome = .ok ⟨[⟨["crate"]⟩, ⟨["crate", "m"]⟩], []⟩ := by decide +kernel
  have root : (.crate, _) ∈ aliased.entries := .head _
  have binds : Import.binding? ⟨some "z", ⟨["k", "T"]⟩⟩ = some ("z", ⟨["k", "T"]⟩) := by decide
  have bound : Import.binding? ⟨some "k", ⟨["m"]⟩⟩ = some ("k", ⟨["m"]⟩) := by decide
  have stands : (aliased.canonical ⟨["m"]⟩ .crate).outcome = .ok (some ⟨["crate", "m"]⟩) := by decide +kernel
  have leads : (aliased.canonical ⟨["m", "T"]⟩ .crate).outcome = .ok (some ⟨["crate", "m", "T"]⟩) := by decide +kernel
  have same : aliased.owner ⟨["crate", "m", "T"]⟩ = aliased.owner ⟨["crate", "m"]⟩ := by decide +kernel
  obtain ⟨kept, nothing⟩ := chained_import_live (by decide) found root (.head _) (.tail _ (.head _)) (.head _) binds bound
  have none := nothing (by decide) (by decide +kernel) (by decide +kernel)
  exact ⟨_, found, leads, kept _ stands ⟨["T"]⟩ _ leads same, none.1.2⟩

end ModuleMap

end CrateFold
