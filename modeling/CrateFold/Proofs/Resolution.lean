import CrateFold.Liveness.Collect
import CrateFold.Proofs.Outcomes
import CrateFold.Proofs.Scopes

/-!
Resolving the paths of a map. A map that passes the check before a search (`Searchable`) has a crate root and
items of known kinds: in it every path with segments has a canonical form, the rest of the path behind the
module it is in, one around that or the crate root (`Searchable.canonical_cases`), or none. A map is rooted when
its modules are those of a crate: the crate root is one of them, and each lies in others of them up to the root.
In such a map every path of a module has an answer (`Rooted.answer_total`). The owner of a crate-rooted path is
the innermost module of the map that the path lies in (`owner_spec`).
-/
namespace CrateFold

/-- A module map with a crate root whose scopes hold items of known kinds. -/
structure ModuleMap.Searchable (m : ModuleMap) : Prop where
  root : .crate ∈ m.keys
  known : ∀ entry ∈ m.entries, entry.2.known = true

/-- A module map such as flattening gives: its modules lie below the crate root, with each module those
around it are in the map, and its scopes hold known items and import nothing empty. -/
structure ModuleMap.Rooted (m : ModuleMap) : Prop where
  distinct : m.keys.Nodup
  root : .crate ∈ m.keys
  absolute : ∀ p ∈ m.keys, p.isCratePath = true
  ancestors : ∀ p ∈ m.keys, ∀ q ∈ p.lineage, q ∈ m.keys
  known : ∀ entry ∈ m.entries, Scope.everywhere Scope.known entry.2 = true
  targeted : ∀ entry ∈ m.entries, Scope.everywhere Scope.targeted entry.2 = true

namespace ModuleMap

variable {m : ModuleMap} {p q module path target : ModulePath} {scope : Scope}

/-! ### Looking up modules -/

theorem contains_iff : m.contains p = true ↔ p ∈ m.keys := by simp [contains]

theorem mem_keys : p ∈ m.keys ↔ ∃ scope, (p, scope) ∈ m.entries := by simp [keys]

theorem mem_keys_of_mem (member : (p, scope) ∈ m.entries) : p ∈ m.keys := mem_keys.mpr ⟨scope, member⟩

theorem mem_of_get? (found : m.get? p = some scope) : (p, scope) ∈ m.entries := by
  obtain ⟨before, after, split, -⟩ := List.lookup_eq_some_iff.mp found
  rw [split]
  simp

theorem get?_of_mem_keys (member : p ∈ m.keys) : m.get? p = some ((m.get? p).getD .empty) := by
  cases found : m.get? p with
  | some scope => rfl
  | none =>
    obtain ⟨entry, listed, rfl⟩ := List.mem_map.mp member
    have := List.lookup_eq_none_iff.mp found entry listed
    simp at this

/-- In a map without repeated keys the entry of a key is the one found. -/
theorem get?_of_mem (distinct : m.keys.Nodup) (member : (p, scope) ∈ m.entries) : m.get? p = some scope := by
  obtain ⟨before, after, split⟩ := List.append_of_mem member
  refine List.lookup_eq_some_iff.mpr ⟨before, after, split, ?_⟩
  rintro ⟨other, otherScope⟩ earlier
  have apart : (before.map Prod.fst ++ p :: after.map Prod.fst).Nodup := by
    simpa [keys, split] using distinct
  have different := (List.nodup_append.mp apart).2.2 other (List.mem_map_of_mem earlier) p (by simp)
  simpa using Ne.symm different

/-- The names that a module of the map declares. -/
def names (m : ModuleMap) (path : ModulePath) : List String := ((m.get? path).map Scope.names).getD []

namespace Rooted

theorem within (rooted : m.Rooted) (member : p ∈ m.keys) (lies : p.Within q) : q ∈ m.keys :=
  rooted.ancestors p member q
    ((ModulePath.mem_lineage (ModulePath.segments_ne_nil (rooted.absolute p member))).mpr lies)

theorem get? (rooted : m.Rooted) (member : (p, scope) ∈ m.entries) : m.get? p = some scope :=
  get?_of_mem rooted.distinct member

theorem names_eq (rooted : m.Rooted) (member : (p, scope) ∈ m.entries) : m.names p = scope.names := by
  simp [names, rooted.get? member]

theorem searchable (rooted : m.Rooted) : m.Searchable where
  root := rooted.root
  known entry member := Scope.known_of_everywhere (rooted.known entry member)

end Rooted

/-! ### Declared names -/

theorem checkNames_eq_ok_iff {entries : List (ModulePath × Scope)} :
    checkNames entries = .ok () ↔ ∀ entry ∈ entries, entry.2.known = true := by
  induction entries with
  | nil => simp [checkNames]
  | cons entry rest ih =>
    rw [checkNames, List.forall_mem_cons, ← ih, ← Scope.declaredNames_ok_iff]
    cases entry.2.declaredNames with
    | ok names =>
      change checkNames rest = .ok () ↔ _
      simp
    | error fault =>
      change (Except.error fault : Except Fault Unit) = .ok () ↔ _
      simp

/-- What is checked before a search. -/
theorem check_eq_ok_iff : m.check = .ok () ↔ m.Searchable := by
  unfold check
  split
  · next top =>
    rw [checkNames_eq_ok_iff]
    exact ⟨fun known => ⟨contains_iff.mp top, known⟩, Searchable.known⟩
  · next top =>
    exact ⟨(nomatch ·), fun searchable => absurd (contains_iff.mpr searchable.root) top⟩

theorem Searchable.namesAt (searchable : m.Searchable) (member : p ∈ m.keys) : m.namesAt p = .ok (m.names p) := by
  have found := get?_of_mem_keys member
  have fine := searchable.known _ (mem_of_get? found)
  rw [ModuleMap.namesAt, names, found]
  exact Scope.declaredNames_of_known fine

/-! ### Canonical paths -/

/-- A module of the map holds a module, a type or a function of the given name. -/
def Declares (m : ModuleMap) (module : ModulePath) (name : String) : Prop :=
  module.join ⟨[name]⟩ ∈ m.keys ∨ name ∈ m.names module

instance (m : ModuleMap) (module : ModulePath) (name : String) : Decidable (m.Declares module name) :=
  inferInstanceAs (Decidable (_ ∨ _))

theorem Searchable.declares (searchable : m.Searchable) (member : module ∈ m.keys) (name : String) :
    m.declares module name = .ok (decide (m.Declares module name)) := by
  unfold ModuleMap.declares Declares
  by_cases inner : module.join ⟨[name]⟩ ∈ m.keys
  · simp [contains_iff.mpr inner, inner]
  · have absent : ¬ m.contains (module.join ⟨[name]⟩) = true := fun found => inner (contains_iff.mp found)
    simp [absent, inner, searchable.namesAt member]

/-- The segments that say by themselves where a path starts. -/
def startingSegments : List String := ["crate", "$crate", "self", "super"]

/-- A path that starts with a plain name starts in the module if that declares the name, and else at the
crate root if that does. -/
theorem Searchable.canonical_plain (searchable : m.Searchable) (member : module ∈ m.keys) {first : String}
    {rest : List String} (segments : path.segments = first :: rest) (plain : first ∉ startingSegments) :
    (m.canonical path module).outcome =
      .ok (if m.Declares module first then some (module.join path)
        else if m.Declares .crate first then some (ModulePath.crate.join path) else none) := by
  simp only [startingSegments, List.mem_cons, List.not_mem_nil, or_false, not_or] at plain
  obtain ⟨notCrate, notMacro, notSelf, notSuper⟩ := plain
  unfold canonical
  rw [segments]
  simp only [notCrate, notMacro, notSelf, notSuper, beq_iff_eq, if_false, Bool.or_eq_true, or_self,
    searchable.declares member, searchable.declares searchable.root]
  by_cases here : m.Declares module first
  · simp [here]
  · by_cases top : m.Declares .crate first
    · simp [here, top]
    · simp [here, top]

/-- Leaving modules leads to one that they lie in, and the segments that are left end the path. -/
theorem ascend_within {segments inner : List String} {outer : ModulePath} (nonempty : p.segments ≠ [])
    (climbed : ascend p segments = some (outer, inner)) : p.Within outer ∧ inner <:+ segments := by
  induction segments generalizing p with
  | nil =>
    simp only [ascend, Option.some.injEq, Prod.mk.injEq] at climbed
    obtain ⟨rfl, rfl⟩ := climbed
    exact ⟨ModulePath.within_refl nonempty, List.suffix_rfl⟩
  | cons segment rest ih =>
    rw [ascend] at climbed
    split at climbed
    · split at climbed
      · next q left =>
        have up := ModulePath.within_of_pop? left
        obtain ⟨further, ends⟩ := ih up.1 climbed
        exact ⟨up.trans further, ends.trans (List.suffix_cons segment rest)⟩
      · cases climbed
    · simp only [Option.some.injEq, Prod.mk.injEq] at climbed
      obtain ⟨rfl, rfl⟩ := climbed
      exact ⟨ModulePath.within_refl nonempty, List.suffix_rfl⟩

/-- How a canonical form is made: segments of the path behind the module it is in, one around that or the crate root.
A `crate` among these segments is not the first one of the path. -/
structure Rebased (module path target : ModulePath) (base : ModulePath) (rest : List String) : Prop where
  joined : target = base.join ⟨rest⟩
  around : module.Within base ∨ base = .crate
  behind : "crate" ∈ rest → "crate" ∈ path.suffix.segments

/-- In a map that passes the check, a path with segments has a canonical form or stands for nothing of the crate. -/
theorem Searchable.canonical_cases (searchable : m.Searchable) (member : module ∈ m.keys)
    (inside : module.segments ≠ []) (nonempty : path.segments ≠ []) :
    ∃ answer, (m.canonical path module).outcome = .ok answer ∧
      ∀ target, answer = some target → ∃ base rest, Rebased module path target base rest := by
  have here := ModulePath.within_refl inside
  cases segments : path.segments with
  | nil => exact absurd segments nonempty
  | cons first rest =>
    have suffix : path.suffix.segments = rest := by simp [ModulePath.suffix, segments]
    by_cases plain : first ∈ startingSegments
    · simp only [startingSegments, List.mem_cons, List.not_mem_nil, or_false] at plain
      rcases plain with rfl | rfl | rfl | rfl
      · refine ⟨some (ModulePath.crate.join ⟨rest⟩), by simp [canonical, segments], ?_⟩
        rintro _ ⟨⟩
        exact ⟨.crate, rest, rfl, .inr rfl, suffix ▸ id⟩
      · refine ⟨some (ModulePath.crate.join ⟨rest⟩), by simp [canonical, segments], ?_⟩
        rintro _ ⟨⟩
        exact ⟨.crate, rest, rfl, .inr rfl, suffix ▸ id⟩
      · refine ⟨some (module.join ⟨rest⟩), by simp [canonical, segments], ?_⟩
        rintro _ ⟨⟩
        exact ⟨module, rest, rfl, .inl here, suffix ▸ id⟩
      · cases climbed : ascend module ("super" :: rest) with
        | none => exact ⟨none, by simp [canonical, segments, climbed], by simp⟩
        | some ends =>
          obtain ⟨outer, inner⟩ := ends
          obtain ⟨up, ending⟩ := ascend_within inside climbed
          refine ⟨some (outer.join ⟨inner⟩), by simp [canonical, segments, climbed], ?_⟩
          rintro _ ⟨⟩
          exact ⟨outer, inner, rfl, .inl up, fun crate => by simpa [suffix] using ending.subset crate⟩
    · have other : first ≠ "crate" := by
        rintro rfl
        exact plain (by simp [startingSegments])
      have behind : "crate" ∈ path.segments → "crate" ∈ path.suffix.segments := by
        simp [segments, suffix, Ne.symm other]
      refine ⟨_, searchable.canonical_plain member segments plain, ?_⟩
      intro target found
      split at found
      · cases found
        exact ⟨module, path.segments, rfl, .inl here, behind⟩
      · split at found
        · cases found
          exact ⟨.crate, path.segments, rfl, .inr rfl, behind⟩
        · cases found

theorem Rebased.base_isCratePath {base : ModulePath} {rest : List String} (rebased : Rebased module path target base rest)
    (inside : module.isCratePath = true) : base.isCratePath = true := by
  rcases rebased.around with up | rfl
  · exact up.isCratePath inside
  · rfl

/-- A canonical form in a crate-rooted module is crate-rooted. -/
theorem Rebased.isCratePath {base : ModulePath} {rest : List String} (rebased : Rebased module path target base rest)
    (inside : module.isCratePath = true) : target.isCratePath = true :=
  rebased.joined ▸ ModulePath.join_isCratePath (rebased.base_isCratePath inside)

theorem Searchable.canonical_total (searchable : m.Searchable) (member : module ∈ m.keys)
    (inside : module.isCratePath = true) (nonempty : path.segments ≠ []) :
    ∃ answer, (m.canonical path module).outcome = .ok answer ∧
      ∀ target, answer = some target → target.isCratePath = true := by
  obtain ⟨answer, found, made⟩ :=
    searchable.canonical_cases member (ModulePath.segments_ne_nil inside) nonempty
  refine ⟨answer, found, ?_⟩
  intro target same
  obtain ⟨base, rest, rebased⟩ := made target same
  exact rebased.isCratePath inside

/-! ### Resolving -/

/-- What a path written in a module stands for. -/
def answer (m : ModuleMap) (module : ModulePath) (r : Reference) : Except Fault (Option ModulePath) :=
  (m.resolve module r.aliases r.shadowed r.path).outcome

/-- A path is left alone, or the path with segments that stands for it is made canonical. -/
theorem answer_cases (module : ModulePath) {r : Reference} (bound : Scope.Bound r.aliases) :
    (∀ m : ModuleMap, m.answer module r = .ok none) ∨
      ∃ path : ModulePath, path.segments ≠ [] ∧
        ∀ m : ModuleMap, m.answer module r = (m.canonical path module).outcome := by
  unfold answer resolve
  cases start : r.path.first? with
  | none => exact .inl fun _ => rfl
  | some first =>
    have nonempty : r.path.segments ≠ [] := by
      intro empty
      simp [ModulePath.first?, empty] at start
    by_cases hidden : r.shadowed.contains first = true
    · exact .inl fun _ => by simp only [hidden, if_true, Traced.outcome_pure]
    · right
      cases bind : r.aliases.lookup first with
      | none => exact ⟨r.path, nonempty, fun _ => by simp only [hidden, bind, Bool.false_eq_true, if_false]⟩
      | some target =>
        obtain ⟨before, after, split, -⟩ := List.lookup_eq_some_iff.mp bind
        have given : target.segments ≠ [] := bound (first, target) (by rw [split]; simp)
        exact ⟨target.join r.path.suffix, ModulePath.join_ne_nil given,
          fun _ => by simp only [hidden, bind, Bool.false_eq_true, if_false]⟩

/-- In a rooted map every path has an answer, and what it stands for is crate-rooted. -/
theorem Rooted.answer_total (rooted : m.Rooted) (member : module ∈ m.keys) {r : Reference}
    (bound : Scope.Bound r.aliases) :
    ∃ found, m.answer module r = .ok found ∧ ∀ target, found = some target → target.isCratePath = true := by
  rcases answer_cases module bound with nothing | ⟨path, nonempty, same⟩
  · exact ⟨none, nothing m, by simp⟩
  · rw [same m]
    exact rooted.searchable.canonical_total member (rooted.absolute module member) nonempty

/-! ### Owners -/

/-- The owner of a path in the map is the innermost module of the map that the path lies in. -/
theorem owner_spec (root : .crate ∈ m.keys) (absolute : target.isCratePath = true) :
    m.owner target ∈ m.keys ∧ target.Within (m.owner target) ∧
      ∀ q ∈ m.keys, target.Within q → (m.owner target).Within q := by
  have lineage := fun q => ModulePath.mem_lineage (q := q) (ModulePath.segments_ne_nil absolute)
  have top : (target.lineage.find? m.contains).isSome = true :=
    List.find?_isSome.mpr ⟨.crate, (lineage _).mpr (ModulePath.within_crate absolute), contains_iff.mpr root⟩
  obtain ⟨found, first⟩ := Option.isSome_iff_exists.mp top
  have same : m.owner target = found := by simp [owner, first]
  obtain ⟨inMap, before, after, split, earlier⟩ := List.find?_eq_some_iff_append.mp first
  rw [same]
  refine ⟨contains_iff.mp inMap, (lineage found).mp (by rw [split]; simp), ?_⟩
  intro q member lies
  have listed : q ∈ before ++ found :: after := split ▸ (lineage q).mpr lies
  have ordered : (before ++ found :: after).Pairwise ModulePath.Within := split ▸ target.lineage_ordered
  rcases List.mem_append.mp listed with inner | outer
  · have absent := earlier q inner
    rw [contains_iff.mpr member] at absent
    cases absent
  · rcases List.mem_cons.mp outer with rfl | outside
    · exact ModulePath.within_refl lies.1
    · exact (List.pairwise_cons.mp (List.pairwise_append.mp ordered).2.1).1 q outside

end ModuleMap

end CrateFold
