import CrateFold.Proofs.Comparison

/-!
Scopes that hold the same but for some latitude: in the order of their items, in their accesses or in their macros
(`Scope.Varies`). They declare the same names and import the same, and what is asked of all scopes of the one holds of
all scopes of the other (`everywhere_of_varies`). With further accesses and macros nothing that was live is lost
(`liveness_mono`).
-/
namespace CrateFold

theorem exists_of_forall₂ {α β : Type} {R : α → β → Prop} {list : List α} {others : List β} {a : α}
    (pairs : List.Forall₂ R list others) (member : a ∈ list) : ∃ b ∈ others, R a b := by
  induction pairs with
  | nil => cases member
  | @cons first other _ _ related _ ih =>
    rcases List.mem_cons.mp member with rfl | later
    · exact ⟨other, by simp, related⟩
    · obtain ⟨b, listed, same⟩ := ih later
      exact ⟨b, by simp [listed], same⟩

/-- What may differ between two scopes that hold the same otherwise. -/
structure Latitude where
  order : List Item → List Item → Prop
  accesses : List ModulePath → List ModulePath → Prop
  macros : Bool → Bool → Prop
  /-- Items may change their places and nothing else. -/
  perm : ∀ {items others}, order items others → items.Perm others

namespace Latitude

/-- Items keep their places; accesses and macros may be added. -/
def addition : Latitude where
  order := Eq
  accesses := fun few more => ∀ path ∈ few, path ∈ more
  macros := fun few more => few = true → more = true
  perm := fun same => same ▸ .refl _

/-- Items may come in another order, accesses in another order and number. -/
def reordering : Latitude where
  order := List.Perm
  accesses := fun one other => ∀ path, path ∈ one ↔ path ∈ other
  macros := Eq
  perm := id

end Latitude

/-- The names that an item imports. -/
def Item.imported : Item → List Import
  | .imports list => list
  | _ => []

namespace Scope

mutual

/-- Whether two scopes, and the scopes in them, differ in no more than the latitude allows. -/
def Varies (v : Latitude) : ScopeOf Item → Scope → Prop
  | ⟨items, accesses, definesMacros⟩, t =>
    (∃ others, VariesIn v items others ∧ v.order others t.items) ∧ v.accesses accesses t.accesses ∧
      v.macros definesMacros t.definesMacros
termination_by structural s => s

/-- Whether the items of two lists, one by one, differ in no more than the latitude allows. -/
def VariesIn (v : Latitude) : List Item → List Item → Prop
  | [], [] => True
  | item :: rest, other :: more => VariesAt v item other ∧ VariesIn v rest more
  | _, _ => False
termination_by structural l => l

/-- Whether two items are of one kind and name and their scopes differ in no more than the latitude allows. -/
def VariesAt (v : Latitude) : Item → Item → Prop
  | .module name body, other => ∃ inner, other = .module name inner ∧ Varies v body inner
  | .generic owner body, other => ∃ inner, other = .generic owner inner ∧ Varies v body inner
  | .block body, other => ∃ inner, other = .block inner ∧ Varies v body inner
  | .file body, other => ∃ inner, other = .file inner ∧ Varies v body inner
  | .imports list, other => other = .imports list
  | .type name, other => other = .type name
  | .bare text, other => other = .bare text
termination_by structural item => item

end

variable {v : Latitude} {s t : Scope} {items others : List Item} {item other : Item}

theorem varies_iff : Varies v s t ↔ (∃ others, VariesIn v s.items others ∧ v.order others t.items) ∧
    v.accesses s.accesses t.accesses ∧ v.macros s.definesMacros t.definesMacros := by
  cases s
  rfl

theorem variesIn_iff : VariesIn v items others ↔ List.Forall₂ (VariesAt v) items others := by
  induction items generalizing others with
  | nil => cases others <;> simp [VariesIn]
  | cons item rest ih => cases others <;> simp [VariesIn, ih]

/-! ### What scopes have in common -/

/-- What is known of an item but for its scope. -/
theorem VariesAt.shape (same : VariesAt v item other) :
    other.isKnown = item.isKnown ∧ other.isNamed = item.isNamed ∧ other.name? = item.name? ∧
      other.imported = item.imported := by
  cases item with
  | module | generic | block | file =>
    obtain ⟨inner, rfl, -⟩ := same
    exact ⟨rfl, rfl, rfl, rfl⟩
  | imports | type | bare =>
    cases same
    exact ⟨rfl, rfl, rfl, rfl⟩

theorem VariesIn.namesIn (same : VariesIn v items others) : Scope.namesIn others = Scope.namesIn items := by
  rw [variesIn_iff] at same
  induction same with
  | nil => rfl
  | cons first _ ih =>
    unfold Scope.namesIn at ih ⊢
    rw [List.filterMap_cons, ih, first.shape.2.2.1, List.filterMap_cons]

theorem importList_eq (s : Scope) : s.importList = s.items.flatMap Item.imported := by
  refine congrArg (s.items.flatMap ·) (funext fun item => ?_)
  cases item <;> rfl

theorem VariesIn.imported (same : VariesIn v items others) :
    others.flatMap Item.imported = items.flatMap Item.imported := by
  rw [variesIn_iff] at same
  induction same with
  | nil => rfl
  | cons first _ ih => rw [List.flatMap_cons, ih, first.shape.2.2.2, List.flatMap_cons]

theorem Varies.names (varies : Varies v s t) : s.names.Perm t.names := by
  obtain ⟨⟨others, same, order⟩, -, -⟩ := varies_iff.mp varies
  rw [Scope.names, ← same.namesIn]
  exact (v.perm order).filterMap _

theorem Varies.importList (varies : Varies v s t) : s.importList.Perm t.importList := by
  obtain ⟨⟨others, same, order⟩, -, -⟩ := varies_iff.mp varies
  rw [importList_eq, importList_eq, ← same.imported]
  exact (v.perm order).flatMap_right _

/-- Each item of the first scope has its counterpart in the second. -/
theorem Varies.forth (varies : Varies v s t) (listed : item ∈ s.items) : ∃ other ∈ t.items, VariesAt v item other := by
  obtain ⟨⟨others, same, order⟩, -, -⟩ := varies_iff.mp varies
  obtain ⟨other, among, like⟩ := exists_of_forall₂ (variesIn_iff.mp same) listed
  exact ⟨other, (v.perm order).mem_iff.mp among, like⟩

/-- Each item of the second scope has its counterpart in the first. -/
theorem Varies.back (varies : Varies v s t) (listed : other ∈ t.items) : ∃ item ∈ s.items, VariesAt v item other := by
  obtain ⟨⟨others, same, order⟩, -, -⟩ := varies_iff.mp varies
  exact exists_of_forall₂ (variesIn_iff.mp same).flip ((v.perm order).mem_iff.mpr listed)

/-! ### Properties at any depth -/

theorem everywhereIn_iff {property : Scope → Bool} :
    everywhereIn property items = true ↔ ∀ item ∈ items, everywhereAt property item = true := by
  induction items with
  | nil => simp [everywhereIn]
  | cons item rest ih => simp [everywhereIn, ih]

mutual

/-- What is asked of a scope and all scopes in it holds of the other scope, if the latitude does not matter to it. -/
theorem everywhere_of_varies {property : Scope → Bool}
    (keeps : ∀ {s t}, Varies v s t → property s = true → property t = true) :
    ∀ (s : ScopeOf Item) {t : Scope}, Varies v s t → everywhere property s = true → everywhere property t = true
  | ⟨items, accesses, definesMacros⟩, t, varies, all => by
    obtain ⟨here, below⟩ := everywhere_iff.mp all
    obtain ⟨⟨others, same, order⟩, -, -⟩ := varies_iff.mp varies
    refine everywhere_iff.mpr ⟨keeps varies here, everywhereIn_iff.mpr ?_⟩
    have among := everywhereIn_iff.mp (everywhereIn_of_varies keeps items others same below)
    intro item listed
    exact among item ((v.perm order).mem_iff.mpr listed)
termination_by structural s => s

theorem everywhereIn_of_varies {property : Scope → Bool}
    (keeps : ∀ {s t}, Varies v s t → property s = true → property t = true) :
    ∀ items others : List Item, VariesIn v items others → everywhereIn property items = true →
      everywhereIn property others = true
  | [], [], _, _ => rfl
  | item :: rest, other :: more, same, all => by
    simp only [everywhereIn, Bool.and_eq_true] at all ⊢
    exact ⟨everywhereAt_of_varies keeps item other same.1 all.1, everywhereIn_of_varies keeps rest more same.2 all.2⟩
  | [], _ :: _, same, _ => same.elim
  | _ :: _, [], same, _ => same.elim
termination_by structural items => items

theorem everywhereAt_of_varies {property : Scope → Bool}
    (keeps : ∀ {s t}, Varies v s t → property s = true → property t = true) :
    ∀ item other : Item, VariesAt v item other → everywhereAt property item = true → everywhereAt property other = true
  | .module _ body, _, ⟨_, rfl, varies⟩, all => everywhere_of_varies keeps body varies all
  | .generic _ body, _, ⟨_, rfl, varies⟩, all => everywhere_of_varies keeps body varies all
  | .block body, _, ⟨_, rfl, varies⟩, all => everywhere_of_varies keeps body varies all
  | .file body, _, ⟨_, rfl, varies⟩, all => everywhere_of_varies keeps body varies all
  | .imports _, _, rfl, all => all
  | .type _, _, rfl, all => all
  | .bare _, _, rfl, all => all
termination_by structural item => item

end

theorem Varies.known (varies : Varies v s t) (fine : s.known = true) : t.known = true := by
  refine List.all_eq_true.mpr fun other listed => ?_
  obtain ⟨item, among, same⟩ := varies.back listed
  rw [same.shape.1]
  exact List.all_eq_true.mp fine item among

theorem Varies.wellNamed (varies : Varies v s t) (fine : s.wellNamed = true) : t.wellNamed = true := by
  refine List.all_eq_true.mpr fun other listed => ?_
  obtain ⟨item, among, same⟩ := varies.back listed
  rw [same.shape.2.1]
  exact List.all_eq_true.mp fine item among

theorem Varies.targeted (varies : Varies v s t) (fine : s.targeted = true) : t.targeted = true := by
  refine List.all_eq_true.mpr fun i imported => ?_
  exact List.all_eq_true.mp fine i (varies.importList.mem_iff.mpr imported)

/-! ### Further accesses -/

/-- What is added to a scope leaves what was there. -/
theorem mirrors_addition : Mirrors (Varies .addition) where
  names varies name := varies.names.mem_iff
  aliases varies name := by
    obtain ⟨⟨others, same, order⟩, -, -⟩ := varies_iff.mp varies
    have imports := same.imported
    rw [show others = _ from order, ← importList_eq, ← importList_eq] at imports
    rw [aliases, aliases, imports]
  imports varies i imported := varies.importList.mem_iff.mp imported
  accesses varies := (varies_iff.mp varies).2.1
  macros varies := (varies_iff.mp varies).2.2
  generic varies listed := by
    obtain ⟨other, there, inner, rfl, same⟩ := varies.forth listed
    exact ⟨inner, there, same⟩
  block varies listed := by
    obtain ⟨other, there, inner, rfl, same⟩ := varies.forth listed
    exact ⟨inner, there, same⟩

end Scope

namespace ModuleMap

variable {m n : ModuleMap} {v : Latitude}

/-- A map of the modules of a rooted one, whose scopes differ in no more than some latitude allows, is rooted. -/
theorem Rooted.of_varies (rooted : m.Rooted) (distinct : n.keys.Nodup) (matched : Matched (Scope.Varies v) m n) :
    n.Rooted := by
  refine ⟨distinct, (matched.keys _).mp rooted.root, ?_, ?_, ?_, ?_⟩
  · intro p member
    exact rooted.absolute p ((matched.keys p).mpr member)
  · intro p member q listed
    exact (matched.keys q).mp (rooted.ancestors p ((matched.keys p).mpr member) q listed)
  · rintro ⟨p, t⟩ entry
    obtain ⟨s, there, varies⟩ := matched.flip.partner entry
    exact Scope.everywhere_of_varies (fun varies fine => varies.known fine) s varies (rooted.known _ there)
  · rintro ⟨p, t⟩ entry
    obtain ⟨s, there, varies⟩ := matched.flip.partner entry
    exact Scope.everywhere_of_varies (fun varies fine => varies.targeted fine) s varies (rooted.targeted _ there)

/-- Further accesses and macros keep in use what was in use: what is live in a rooted map is live in every map of the
same modules and items that has the accesses and macros of the first in the corresponding scopes, modules and
declarations alike. -/
theorem liveness_mono (rooted : m.Rooted) (distinct : n.keys.Nodup) (grown : Matched (Scope.Varies .addition) m n) :
    ∃ live more, m.liveness.outcome = .ok live ∧ n.liveness.outcome = .ok more ∧
      (∀ p ∈ live.modules, p ∈ more.modules) ∧ ∀ d ∈ live.declarations, d ∈ more.declarations :=
  liveness_of_matched grown Scope.mirrors_addition rooted (rooted.of_varies distinct grown)

/-- A crate with a function and two modules, given what the block of the function refers to and whether the second
module defines a macro. -/
def blockMap (accesses : List ModulePath) (definesMacros : Bool) : ModuleMap where
  entries := [
    (⟨["crate"]⟩, { items := [.generic (some "f") { items := [.block { accesses := accesses }] }] }),
    (⟨["crate", "a"]⟩, { items := [.type "T"] }),
    (⟨["crate", "b"]⟩, { accesses := [⟨["crate", "a"]⟩], definesMacros := definesMacros })]

theorem blockMap_grown : Matched (Scope.Varies .addition) (blockMap [] false) (blockMap [⟨["a", "T"]⟩] true) := by
  refine ⟨fun _ => Iff.rfl, ?_⟩
  intro p s t here there
  simp only [blockMap, List.mem_cons, Prod.mk.injEq, List.not_mem_nil, or_false] at here there
  rcases here with ⟨rfl, rfl⟩ | ⟨rfl, rfl⟩ | ⟨rfl, rfl⟩ <;> obtain rfl := by simpa using there
  all_goals simp [Latitude.addition, Scope.Varies, Scope.VariesIn, Scope.VariesAt]

theorem liveness_mono_blockMap : (blockMap [] false).Rooted ∧ (blockMap [⟨["a", "T"]⟩] true).keys.Nodup ∧
    Matched (Scope.Varies .addition) (blockMap [] false) (blockMap [⟨["a", "T"]⟩] true) ∧
    ∃ live more, (blockMap [] false).liveness.outcome = .ok live ∧
      (blockMap [⟨["a", "T"]⟩] true).liveness.outcome = .ok more ∧
      ⟨["crate"]⟩ ∈ more.modules ∧ ⟨["crate", "b"]⟩ ∉ live.modules ∧ ⟨["crate", "b"]⟩ ∈ more.modules ∧
      live.declarations = [] ∧ more.declarations = [⟨["crate", "a", "T"]⟩] := by
  have rooted : (blockMap [] false).Rooted := by refine ⟨?_, ?_, ?_, ?_, ?_, ?_⟩ <;> decide
  have distinct : (blockMap [⟨["a", "T"]⟩] true).keys.Nodup := by decide
  obtain ⟨live, more, run, runs, modules, -⟩ := liveness_mono rooted distinct blockMap_grown
  have few : (blockMap [] false).liveness.outcome = .ok ⟨[⟨["crate"]⟩], []⟩ := by decide +kernel
  have found : (blockMap [⟨["a", "T"]⟩] true).liveness.outcome =
      .ok ⟨[⟨["crate"]⟩, ⟨["crate", "b"]⟩, ⟨["crate", "a"]⟩], [⟨["crate", "a", "T"]⟩]⟩ := by decide +kernel
  obtain rfl := Except.ok.inj (few.symm.trans run)
  obtain rfl := Except.ok.inj (found.symm.trans runs)
  exact ⟨rooted, distinct, blockMap_grown, _, _, run, runs, modules _ (by decide), by decide, by decide, rfl, rfl⟩

end ModuleMap

end CrateFold
