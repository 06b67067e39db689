import CrateFold.Proofs.Flattening
import CrateFold.Proofs.Restriction
import CrateFold.Proofs.Visibility
import Mathlib.Data.List.Forall2

/-!
Comparing what is live in two maps of the same modules. A relation of scopes mirrors if the second scope holds what the
first one holds, at any depth, and names mean the same in both (`Scope.Mirrors`). Every path written in the first is
then written in the second with the same meaning (`Mirrors.references`), so a set of modules that is closed under the
rules of use of the second map is closed under those of the first (`Closed.of_matched`), and what is live in the first
is live in the second (`liveness_of_matched`).
-/
namespace CrateFold

/-- Two references to one path, where the same names are bound to the same targets and the same names are hidden. -/
structure Reference.Like (r q : Reference) : Prop where
  path : r.path = q.path
  bound : ∀ name, r.aliases.lookup name = q.aliases.lookup name
  hidden : ∀ name, name ∈ r.shadowed ↔ name ∈ q.shadowed

namespace Scope

variable {module : Scope} {nested : List Scope} {r : Reference}

/-! ### The places of references -/

mutual

theorem place_of_referencesFrom : ∀ (inner : ScopeOf Item) (nested : List Scope), module.Nests nested →
    (nested.headD module).Holds inner →
      r ∈ referencesFrom (module.aliasesAt nested) (hidden nested ++ names inner) inner →
        ∃ places, module.Nests places ∧ r ∈ (places.headD module).written (module.aliasesAt places) (hidden places)
  | ⟨items, accesses, definesMacros⟩, nested, place, held, member => by
    let inner : Scope := ⟨items, accesses, definesMacros⟩
    have here : module.Nests (inner :: nested) := .nested place held
    have bound : inner.aliases ++ module.aliasesAt nested = module.aliasesAt (inner :: nested) := by simp [aliasesAt]
    have hides : hidden nested ++ names inner = hidden (inner :: nested) := by simp [hidden]
    change r ∈ inner.written (inner.aliases ++ module.aliasesAt nested) (hidden nested ++ names inner) ++
      referencesIn (inner.aliases ++ module.aliasesAt nested) (hidden nested ++ names inner) items at member
    rw [bound, hides] at member
    rcases List.mem_append.mp member with direct | deeper
    · exact ⟨inner :: nested, here, direct⟩
    · exact place_of_referencesIn items (inner :: nested) here (fun _ listed => listed) deeper
termination_by structural inner => inner

theorem place_of_referencesIn : ∀ (items : List Item) (nested : List Scope), module.Nests nested →
    (∀ item ∈ items, item ∈ (nested.headD module).items) →
      r ∈ referencesIn (module.aliasesAt nested) (hidden nested) items →
        ∃ places, module.Nests places ∧ r ∈ (places.headD module).written (module.aliasesAt places) (hidden places)
  | [], _, _, _, member => by cases member
  | item :: rest, nested, place, listed, member => by
    rcases List.mem_append.mp member with first | later
    · exact place_of_referencesAt item nested place (listed item (by simp)) first
    · exact place_of_referencesIn rest nested place (fun other among => listed other (by simp [among])) later
termination_by structural items => items

theorem place_of_referencesAt : ∀ (item : Item) (nested : List Scope), module.Nests nested →
    item ∈ (nested.headD module).items → r ∈ referencesAt (module.aliasesAt nested) (hidden nested) item →
      ∃ places, module.Nests places ∧ r ∈ (places.headD module).written (module.aliasesAt places) (hidden places)
  | .generic owner body, nested, place, listed, member =>
    place_of_referencesFrom body nested place (.inl ⟨owner, listed⟩) member
  | .block body, nested, place, listed, member => place_of_referencesFrom body nested place (.inr listed) member
  | .module _ _, _, _, _, member => by cases member
  | .imports _, _, _, _, member => by cases member
  | .type _, _, _, _, member => by cases member
  | .file _, _, _, _, member => by cases member
  | .bare _, _, _, _, member => by cases member
termination_by structural item => item

end

/-- The references of a module are what is written at the places in it. -/
theorem mem_references : r ∈ module.references ↔ ∃ nested, module.Nests nested ∧
    r ∈ (nested.headD module).written (module.aliasesAt nested) (hidden nested) := by
  constructor
  · intro member
    rw [references, referencesFrom_eq, List.append_nil] at member
    rcases List.mem_append.mp member with direct | deeper
    · exact ⟨[], .module, direct⟩
    · exact place_of_referencesIn module.items [] .module (fun _ listed => listed) deeper
  · rintro ⟨nested, place, member⟩
    exact place.references r (List.mem_append_left _ member)

/-! ### Scopes that mirror each other -/

/-- A relation under which the second scope holds what the first one holds, and names mean the same in both. -/
structure Mirrors (R : Scope → Scope → Prop) : Prop where
  names : ∀ {s t}, R s t → ∀ name, name ∈ s.names ↔ name ∈ t.names
  aliases : ∀ {s t}, R s t → ∀ name, s.aliases.lookup name = t.aliases.lookup name
  imports : ∀ {s t}, R s t → ∀ i ∈ s.importList, i ∈ t.importList
  accesses : ∀ {s t}, R s t → ∀ path ∈ s.accesses, path ∈ t.accesses
  macros : ∀ {s t}, R s t → s.definesMacros = true → t.definesMacros = true
  generic : ∀ {s t owner body}, R s t → .generic owner body ∈ s.items →
    ∃ inner, .generic owner inner ∈ t.items ∧ R body inner
  block : ∀ {s t body}, R s t → .block body ∈ s.items → ∃ inner, .block inner ∈ t.items ∧ R body inner

namespace Mirrors

variable {R : Scope → Scope → Prop} {s t : Scope} {others : List Scope}

theorem heads (related : R s t) (pairs : List.Forall₂ R nested others) : R (nested.headD s) (others.headD t) := by
  cases pairs with
  | nil => exact related
  | cons first _ => exact first

/-- A place in the first scope has a counterpart in the second. -/
theorem nests (mirrors : Mirrors R) (related : R s t) (place : s.Nests nested) :
    ∃ others, t.Nests others ∧ List.Forall₂ R nested others := by
  induction place with
  | module => exact ⟨[], .module, .nil⟩
  | @nested inner outers _ held ih =>
    obtain ⟨others, around, pairs⟩ := ih
    rcases held with ⟨owner, listed⟩ | listed
    · obtain ⟨other, there, same⟩ := mirrors.generic (heads related pairs) listed
      exact ⟨other :: others, .nested around (.inl ⟨owner, there⟩), .cons same pairs⟩
    · obtain ⟨other, there, same⟩ := mirrors.block (heads related pairs) listed
      exact ⟨other :: others, .nested around (.inr there), .cons same pairs⟩

theorem aliasesAt (mirrors : Mirrors R) (related : R s t) (pairs : List.Forall₂ R nested others) (name : String) :
    (s.aliasesAt nested).lookup name = (t.aliasesAt others).lookup name := by
  unfold Scope.aliasesAt
  induction pairs with
  | nil => exact mirrors.aliases related name
  | cons first _ ih =>
    simp only [List.flatMap_cons, List.lookup_append, Option.or_assoc] at ih ⊢
    rw [mirrors.aliases first name, ih]

theorem hidden (mirrors : Mirrors R) (pairs : List.Forall₂ R nested others) (name : String) :
    name ∈ Scope.hidden nested ↔ name ∈ Scope.hidden others := by
  rw [mem_hidden, mem_hidden]
  induction pairs with
  | nil => simp
  | cons first _ ih => simp only [List.mem_cons, exists_eq_or_imp, mirrors.names first name, ih]

/-- What is written in the first scope is written in the second with the same meaning. -/
theorem references (mirrors : Mirrors R) (related : R s t) : ∀ r ∈ s.references, ∃ q ∈ t.references, r.Like q := by
  intro r member
  obtain ⟨nested, place, written⟩ := mem_references.mp member
  obtain ⟨others, around, pairs⟩ := mirrors.nests related place
  have here := heads related pairs
  rcases List.mem_append.mp written with source | access
  · obtain ⟨path, listed, rfl⟩ := List.mem_map.mp source
    obtain ⟨i, imported, source⟩ := List.mem_filterMap.mp listed
    have among : path ∈ (others.headD t).importList.filterMap Marking.importSource? :=
      List.mem_filterMap.mpr ⟨i, mirrors.imports here i imported, source⟩
    refine ⟨⟨[], [], path⟩, mem_references.mpr ⟨others, around, ?_⟩, rfl, fun _ => rfl, fun _ => Iff.rfl⟩
    exact List.mem_append_left _ (List.mem_map.mpr ⟨path, among, rfl⟩)
  · obtain ⟨path, listed, rfl⟩ := List.mem_map.mp access
    exact ⟨⟨t.aliasesAt others, Scope.hidden others, path⟩, around.access (mirrors.accesses here path listed), rfl,
      mirrors.aliasesAt related pairs, mirrors.hidden pairs⟩

end Mirrors

end Scope

namespace ModuleMap

variable {m n : ModuleMap} {module target : ModulePath} {r q : Reference} {modules : Set ModulePath}

/-! ### Maps of the same modules -/

/-- References that are alike stand for the same. -/
theorem answer_like (like : r.Like q) : m.answer module r = m.answer module q := by
  have hides : ∀ name, r.shadowed.contains name = q.shadowed.contains name := by
    intro name
    rw [Bool.eq_iff_iff]
    simpa using like.hidden name
  simp only [answer, resolve, like.path, like.bound, hides]

/-- Two maps of the same modules, which declare the same names. -/
structure Level (m n : ModuleMap) : Prop where
  keys : ∀ p, p ∈ m.keys ↔ p ∈ n.keys
  names : ∀ p name, name ∈ m.names p ↔ name ∈ n.names p

namespace Level

theorem owner (level : m.Level n) (target : ModulePath) : m.owner target = n.owner target := by
  have same : m.contains = n.contains := by
    funext p
    rw [Bool.eq_iff_iff, contains_iff, contains_iff]
    exact level.keys p
  rw [ModuleMap.owner, ModuleMap.owner, same]

theorem named? (level : m.Level n) (target : ModulePath) : m.named? target = n.named? target := by
  simp only [ModuleMap.named?, level.owner, level.names]

theorem declares (level : m.Level n) (module : ModulePath) (name : String) :
    m.Declares module name ↔ n.Declares module name := by
  rw [Declares, Declares, level.keys, level.names]

/-- A path with segments has the same canonical form in both maps. -/
theorem canonical (level : m.Level n) (rooted : m.Rooted) (other : n.Rooted) (member : module ∈ m.keys)
    {path : ModulePath} (nonempty : path.segments ≠ []) :
    (m.canonical path module).outcome = (n.canonical path module).outcome := by
  cases segments : path.segments with
  | nil => exact absurd segments nonempty
  | cons first rest =>
    by_cases start : first ∈ startingSegments
    · rw [canonical_starting m n segments start]
    · have there := (level.keys module).mp member
      rw [rooted.searchable.canonical_plain member segments start, other.searchable.canonical_plain there segments start]
      simp only [level.declares]

/-- A path written in a module stands for the same in both maps. -/
theorem answer (level : m.Level n) (rooted : m.Rooted) (other : n.Rooted) (member : module ∈ m.keys)
    (bound : Scope.Bound r.aliases) : m.answer module r = n.answer module r := by
  rcases answer_cases module bound with nothing | ⟨path, nonempty, same⟩
  · rw [nothing, nothing]
  · rw [same, same]
    exact level.canonical rooted other member nonempty

end Level

/-- Two maps of the same modules, whose scopes are related. -/
structure Matched (R : Scope → Scope → Prop) (m n : ModuleMap) : Prop where
  keys : ∀ p, p ∈ m.keys ↔ p ∈ n.keys
  scopes : ∀ {p s t}, (p, s) ∈ m.entries → (p, t) ∈ n.entries → R s t

variable {R : Scope → Scope → Prop}

theorem Matched.flip (matched : Matched R m n) : Matched (fun t s => R s t) n m :=
  ⟨fun p => (matched.keys p).symm, fun there here => matched.scopes here there⟩

/-- The scope of a module has its counterpart in the second map. -/
theorem Matched.partner (matched : Matched R m n) {p : ModulePath} {s : Scope} (entry : (p, s) ∈ m.entries) :
    ∃ t, (p, t) ∈ n.entries ∧ R s t := by
  obtain ⟨t, there⟩ := mem_keys.mp ((matched.keys p).mp (mem_keys_of_mem entry))
  exact ⟨t, there, matched.scopes entry there⟩

theorem Matched.level (matched : Matched R m n) (mirrors : Scope.Mirrors R) (rooted : m.Rooted) (other : n.Rooted) :
    m.Level n := by
  refine ⟨matched.keys, ?_⟩
  intro p name
  by_cases member : p ∈ m.keys
  · obtain ⟨s, entry⟩ := mem_keys.mp member
    obtain ⟨t, there, related⟩ := matched.partner entry
    rw [rooted.names_eq entry, other.names_eq there]
    exact mirrors.names related name
  · have absent : p ∉ n.keys := fun there => member ((matched.keys p).mpr there)
    simp [ModuleMap.names, get?_eq_none member, get?_eq_none absent]

variable (matched : Matched R m n) (mirrors : Scope.Mirrors R) (rooted : m.Rooted) (other : n.Rooted)
include matched mirrors rooted other

theorem Matched.leadsTo (like : r.Like q) (member : module ∈ m.keys) (bound : Scope.Bound r.aliases)
    (leads : m.LeadsTo module r target) : n.LeadsTo module q target := by
  rw [LeadsTo, ← answer_like like, ← (matched.level mirrors rooted other).answer rooted other member bound]
  exact leads

/-- Modules that are closed under the rules of use of the second map are closed under those of the first. -/
theorem Closed.of_matched (closed : n.Closed modules) : m.Closed modules := by
  have level := matched.level mirrors rooted other
  refine ⟨closed.root, ?_, closed.ancestors, ?_, ?_⟩
  · rintro ⟨p, s⟩ entry defines
    obtain ⟨t, there, related⟩ := matched.partner entry
    exact closed.macros (p, t) there (mirrors.macros related defines)
  · rintro ⟨p, s⟩ entry used r written target leads
    obtain ⟨t, there, related⟩ := matched.partner entry
    obtain ⟨q, also, like⟩ := mirrors.references related r written
    have bound := Scope.bound_references (rooted.targeted _ entry) written
    rw [level.owner]
    exact closed.references (p, t) there used q also target
      (matched.leadsTo mirrors rooted other like (mem_keys_of_mem entry) bound leads)
  · rintro ⟨p, s⟩ entry ⟨body, item, access, written, target, leads, owner⟩
    obtain ⟨t, there, related⟩ := matched.partner entry
    obtain ⟨inner, listed, same⟩ := mirrors.generic related item
    have bound : Scope.Bound s.aliases := Scope.bound_aliases (Scope.everywhere_iff.mp (rooted.targeted _ entry)).1
    have like : Reference.Like ⟨s.aliases, Scope.names body, access⟩ ⟨t.aliases, Scope.names inner, access⟩ :=
      ⟨rfl, mirrors.aliases related, mirrors.names same⟩
    refine closed.anchors (p, t) there ⟨inner, listed, access, mirrors.accesses same access written, target,
      matched.leadsTo mirrors rooted other like (mem_keys_of_mem entry) bound leads, ?_⟩
    rw [← level.owner]
    exact owner

theorem Names.of_matched {p d : ModulePath} {s t : Scope} (entry : (p, s) ∈ m.entries) (related : R s t)
    (names : m.Names (p, s) d) : n.Names (p, t) d := by
  obtain ⟨r, written, target, leads, named⟩ := names
  obtain ⟨q, also, like⟩ := mirrors.references related r written
  have bound := Scope.bound_references (rooted.targeted _ entry) written
  rw [(matched.level mirrors rooted other).named?] at named
  exact ⟨q, also, target, matched.leadsTo mirrors rooted other like (mem_keys_of_mem entry) bound leads, named⟩

/-- What is live in the first map is live in the second. -/
theorem liveness_of_matched : ∃ live more, m.liveness.outcome = .ok live ∧ n.liveness.outcome = .ok more ∧
    (∀ p ∈ live.modules, p ∈ more.modules) ∧ ∀ d ∈ live.declarations, d ∈ more.declarations := by
  obtain ⟨live, run, least, -, named⟩ := liveness_total rooted
  obtain ⟨more, runs, ⟨closed, -⟩, -, also⟩ := liveness_total other
  have fewer : ∀ p ∈ live.modules, p ∈ more.modules :=
    fun p member => least.2 (Closed.of_matched matched mirrors rooted other closed) member
  refine ⟨live, more, run, runs, fewer, ?_⟩
  intro d member
  obtain ⟨⟨p, s⟩, entry, used, names⟩ := (named d).mp member
  obtain ⟨t, there, related⟩ := matched.partner entry
  exact (also d).mpr ⟨(p, t), there, fewer p used, Names.of_matched matched mirrors rooted other entry related names⟩

end ModuleMap

end CrateFold
