import CrateFold.Proofs.Encounters
import CrateFold.Proofs.Variation
import Mathlib.Data.List.Perm.Basic

/-!
The order of items does not matter to what is live. If the items and accesses of a scope tree come in another order, at
any depth, the same bodies are filed under the same paths (`filings_reordering`), and the scopes of the two maps differ
in order alone (`matched_gather`). Where no name is imported twice with different targets, the order of the imports does
not matter either (`lookup_of_perm`), so that each map mirrors the other (`mirrors_reordering`) and the search finds the
same in both (`liveness_reordered`).
-/
namespace CrateFold

/-! ### Lists in another order -/

section
variable {α β γ δ : Type} {R : α → β → Prop} {Q : γ → δ → Prop} {l : List α} {k : List β}

/-- A list with its elements replaced by related ones, in any order. -/
def Reorders (R : α → β → Prop) (l : List α) (k : List β) : Prop := ∃ middle, List.Forall₂ R l middle ∧ middle.Perm k

theorem reorders_nil : Reorders R [] [] := ⟨[], .nil, .nil⟩

theorem Reorders.append {more : List α} {others : List β} (one : Reorders R l k) (two : Reorders R more others) :
    Reorders R (l ++ more) (k ++ others) := by
  obtain ⟨first, pairs, perm⟩ := one
  obtain ⟨second, further, reordered⟩ := two
  exact ⟨first ++ second, List.rel_append pairs further, perm.append reordered⟩

theorem Reorders.cons {a : α} {b : β} (head : R a b) (tail : Reorders R l k) : Reorders R (a :: l) (b :: k) := by
  obtain ⟨middle, pairs, perm⟩ := tail
  exact ⟨b :: middle, .cons head pairs, perm.cons b⟩

theorem Reorders.perm {others : List β} (reorders : Reorders R l k) (perm : k.Perm others) : Reorders R l others := by
  obtain ⟨middle, pairs, first⟩ := reorders
  exact ⟨middle, pairs, first.trans perm⟩

theorem Reorders.flatMap {f : α → List γ} {g : β → List δ} (reorders : Reorders R l k)
    (each : ∀ a b, R a b → Reorders Q (f a) (g b)) : Reorders Q (l.flatMap f) (k.flatMap g) := by
  obtain ⟨middle, pairs, perm⟩ := reorders
  refine Reorders.perm ?_ (perm.flatMap_right g)
  clear perm
  induction pairs with
  | nil => exact reorders_nil
  | cons first _ ih => exact (each _ _ first).append ih

theorem Reorders.filter {keep : α → Bool} {keeps : β → Bool} (reorders : Reorders R l k)
    (same : ∀ a b, R a b → keep a = keeps b) : Reorders R (l.filter keep) (k.filter keeps) := by
  obtain ⟨middle, pairs, perm⟩ := reorders
  refine ⟨middle.filter keeps, List.rel_filter (fun a b related => ?_) pairs, perm.filter keeps⟩
  change keep a = true ↔ keeps b = true
  rw [same a b related]

theorem Reorders.exists_iff {P : α → Prop} {S : β → Prop} (reorders : Reorders R l k)
    (same : ∀ a b, R a b → (P a ↔ S b)) : (∃ a ∈ l, P a) ↔ ∃ b ∈ k, S b := by
  obtain ⟨middle, pairs, perm⟩ := reorders
  constructor
  · rintro ⟨a, listed, holds⟩
    obtain ⟨b, among, related⟩ := exists_of_forall₂ pairs listed
    exact ⟨b, perm.mem_iff.mp among, (same a b related).mp holds⟩
  · rintro ⟨b, listed, holds⟩
    obtain ⟨a, among, related⟩ := exists_of_forall₂ pairs.flip (perm.mem_iff.mpr listed)
    exact ⟨a, among, (same a b related).mpr holds⟩

end

/-- If no name is bound to two targets, the order of the bindings does not matter. -/
theorem lookup_of_perm {one other : Aliases} (perm : one.Perm other)
    (clear : ∀ a ∈ one, ∀ b ∈ one, a.1 = b.1 → a.2 = b.2) (name : String) : one.lookup name = other.lookup name := by
  -- with no two targets for a name, a lookup is membership, which knows no order
  have found : ∀ list : Aliases, (∀ a ∈ list, ∀ b ∈ list, a.1 = b.1 → a.2 = b.2) →
      ∀ target, list.lookup name = some target ↔ (name, target) ∈ list := by
    intro list clear target
    constructor
    · intro bound
      obtain ⟨before, after, split, -⟩ := List.lookup_eq_some_iff.mp bound
      rw [split]
      simp
    · intro listed
      cases bound : list.lookup name with
      | none =>
        have := List.lookup_eq_none_iff.mp bound _ listed
        simp at this
      | some first =>
        obtain ⟨before, after, split, -⟩ := List.lookup_eq_some_iff.mp bound
        have among : (name, first) ∈ list := by
          rw [split]
          simp
        have same : first = target := clear _ among _ listed rfl
        rw [same]
  have also : ∀ a ∈ other, ∀ b ∈ other, a.1 = b.1 → a.2 = b.2 :=
    fun a one b two => clear a (perm.mem_iff.mpr one) b (perm.mem_iff.mpr two)
  refine Option.ext fun target => ?_
  rw [found one clear, found other also, perm.mem_iff]

namespace Scope

variable {s t : Scope}

/-! ### Scopes in another order -/

theorem reordering_iff : Varies .reordering s t ↔ Reorders (VariesAt .reordering) s.items t.items ∧
    (∀ path, path ∈ s.accesses ↔ path ∈ t.accesses) ∧ s.definesMacros = t.definesMacros := by
  simp only [varies_iff, variesIn_iff]
  rfl

mutual

theorem reordering_symm : ∀ (s : ScopeOf Item) {t : Scope}, Varies .reordering s t → Varies .reordering t s
  | ⟨items, accesses, definesMacros⟩, t, varies => by
    obtain ⟨⟨others, same, order⟩, accesses, macros⟩ := varies_iff.mp varies
    have back : List.Forall₂ (VariesAt .reordering) others items :=
      variesIn_iff.mp (reorderingIn_symm items others same)
    refine reordering_iff.mpr ⟨List.perm_comp_forall₂ (List.Perm.symm order) back, ?_, macros.symm⟩
    intro path
    exact (accesses path).symm
termination_by structural s => s

theorem reorderingIn_symm : ∀ items others : List Item, VariesIn .reordering items others →
    VariesIn .reordering others items
  | [], [], _ => trivial
  | item :: rest, other :: more, same => ⟨reorderingAt_symm item other same.1, reorderingIn_symm rest more same.2⟩
  | [], _ :: _, same => same.elim
  | _ :: _, [], same => same.elim
termination_by structural items => items

theorem reorderingAt_symm : ∀ item other : Item, VariesAt .reordering item other → VariesAt .reordering other item
  | .module _ body, _, ⟨_, rfl, varies⟩ => ⟨body, rfl, reordering_symm body varies⟩
  | .generic _ body, _, ⟨_, rfl, varies⟩ => ⟨body, rfl, reordering_symm body varies⟩
  | .block body, _, ⟨_, rfl, varies⟩ => ⟨body, rfl, reordering_symm body varies⟩
  | .file body, _, ⟨_, rfl, varies⟩ => ⟨body, rfl, reordering_symm body varies⟩
  | .imports _, _, rfl => rfl
  | .type _, _, rfl => rfl
  | .bare _, _, rfl => rfl
termination_by structural item => item

end

theorem strippedIn_eq (items : List Item) : strippedIn items = items.flatMap strippedAt := by
  induction items with
  | nil => rfl
  | cons item rest ih => rw [strippedIn, ih, List.flatMap_cons]

mutual

/-- Scopes in another order are in another order without the modules in them. -/
theorem stripped_reordering : ∀ (s : ScopeOf Item) {t : Scope}, Varies .reordering s t →
    Varies .reordering (stripped s) (stripped t)
  | ⟨items, accesses, definesMacros⟩, ⟨_, _, _⟩, varies => by
    obtain ⟨⟨others, same, order⟩, accesses, macros⟩ := varies_iff.mp varies
    refine reordering_iff.mpr ⟨(strippedIn_reordering items others same).perm ?_, accesses, macros⟩
    rw [strippedIn_eq, stripped, strippedIn_eq]
    exact List.Perm.flatMap_right _ order
termination_by structural s => s

theorem strippedIn_reordering : ∀ items others : List Item, VariesIn .reordering items others →
    Reorders (VariesAt .reordering) (strippedIn items) (strippedIn others)
  | [], [], _ => reorders_nil
  | item :: rest, other :: more, same =>
    (strippedAt_reordering item other same.1).append (strippedIn_reordering rest more same.2)
  | [], _ :: _, same => same.elim
  | _ :: _, [], same => same.elim
termination_by structural items => items

theorem strippedAt_reordering : ∀ item other : Item, VariesAt .reordering item other →
    Reorders (VariesAt .reordering) (strippedAt item) (strippedAt other)
  | .module _ _, _, ⟨_, rfl, _⟩ => reorders_nil
  | .generic _ body, _, ⟨_, rfl, varies⟩ => reorders_nil.cons ⟨_, rfl, stripped_reordering body varies⟩
  | .block body, _, ⟨_, rfl, varies⟩ => reorders_nil.cons ⟨_, rfl, stripped_reordering body varies⟩
  | .file _, _, ⟨_, rfl, varies⟩ => reorders_nil.cons ⟨_, rfl, varies⟩
  | .imports _, _, rfl => reorders_nil.cons rfl
  | .type _, _, rfl => reorders_nil.cons rfl
  | .bare _, _, rfl => reorders_nil.cons rfl
termination_by structural item => item

end

/-! ### Names that are imported twice -/

/-- Whether no name is bound by two imports of a scope to different targets. -/
def unambiguous (s : Scope) : Bool := decide (∀ a ∈ s.aliases, ∀ b ∈ s.aliases, a.1 = b.1 → a.2 = b.2)

theorem unambiguous_iff : s.unambiguous = true ↔ ∀ a ∈ s.aliases, ∀ b ∈ s.aliases, a.1 = b.1 → a.2 = b.2 :=
  decide_eq_true_iff

theorem Varies.aliases {v : Latitude} (varies : Varies v s t) : s.aliases.Perm t.aliases :=
  (List.reverse_perm _).trans ((varies.importList.filterMap _).trans (List.reverse_perm _).symm)

theorem Varies.unambiguous {v : Latitude} (varies : Varies v s t) (clear : s.unambiguous = true) :
    t.unambiguous = true := by
  have same := varies.aliases
  rw [unambiguous_iff] at clear ⊢
  intro a one b two
  exact clear a (same.mem_iff.mpr one) b (same.mem_iff.mpr two)

/-- Scopes in another order mirror each other, if no name is imported twice with different targets. -/
theorem mirrors_reordering : Mirrors fun s t => Varies .reordering s t ∧ everywhere unambiguous s = true where
  names both name := both.1.names.mem_iff
  aliases both name := lookup_of_perm both.1.aliases (unambiguous_iff.mp (everywhere_iff.mp both.2).1) name
  imports both i imported := both.1.importList.mem_iff.mp imported
  accesses both path listed := ((reordering_iff.mp both.1).2.1 path).mp listed
  macros both defines := (reordering_iff.mp both.1).2.2 ▸ defines
  generic both listed := by
    obtain ⟨other, there, inner, rfl, same⟩ := both.1.forth listed
    exact ⟨inner, there, same, everywhereIn_iff.mp (everywhere_iff.mp both.2).2 _ listed⟩
  block both listed := by
    obtain ⟨other, there, inner, rfl, same⟩ := both.1.forth listed
    exact ⟨inner, there, same, everywhereIn_iff.mp (everywhere_iff.mp both.2).2 _ listed⟩

end Scope

namespace ModuleMap

variable {s t : Scope} {p : ModulePath} {bodies others : List (ModulePath × Scope)}

/-! ### The bodies of a tree -/

/-- Two bodies of one module, the second in another order. -/
def BodyReordering (body other : ModulePath × Scope) : Prop :=
  body.1 = other.1 ∧ Scope.Varies .reordering body.2 other.2

theorem filingsIn_eq (path : ModulePath) (items : List Item) :
    filingsIn path items = items.flatMap (filingsAt path) := by
  induction items with
  | nil => rfl
  | cons item rest ih => rw [filingsIn, ih, List.flatMap_cons]

mutual

/-- The same bodies are filed under the same paths. -/
theorem filings_reordering : ∀ (s : ScopeOf Item) {t : Scope} {path : ModulePath}, Scope.Varies .reordering s t →
    Reorders BodyReordering (filings path s) (filings path t)
  | ⟨items, accesses, definesMacros⟩, t, path, varies => by
    obtain ⟨⟨others, same, order⟩, -, -⟩ := Scope.varies_iff.mp varies
    refine (filingsIn_reordering items others same).perm ?_
    rw [filings_eq, filingsIn_eq, filingsIn_eq]
    exact List.Perm.flatMap_right _ order
termination_by structural s => s

theorem filingsIn_reordering : ∀ (items others : List Item) {path : ModulePath},
    Scope.VariesIn .reordering items others →
      Reorders BodyReordering (filingsIn path items) (filingsIn path others)
  | [], [], _, _ => reorders_nil
  | item :: rest, other :: more, _, same =>
    (filingsAt_reordering item other same.1).append (filingsIn_reordering rest more same.2)
  | [], _ :: _, _, same => same.elim
  | _ :: _, [], _, same => same.elim
termination_by structural items => items

theorem filingsAt_reordering : ∀ (item other : Item) {path : ModulePath}, Scope.VariesAt .reordering item other →
    Reorders BodyReordering (filingsAt path item) (filingsAt path other)
  | .module _ body, _, _, ⟨_, rfl, varies⟩ => (filings_reordering body varies).cons ⟨rfl, varies⟩
  | .generic _ body, _, _, ⟨_, rfl, varies⟩ => filings_reordering body varies
  | .block body, _, _, ⟨_, rfl, varies⟩ => filings_reordering body varies
  | .file _, _, _, ⟨_, rfl, _⟩ => reorders_nil
  | .imports _, _, _, rfl => reorders_nil
  | .type _, _, _, rfl => reorders_nil
  | .bare _, _, _, rfl => reorders_nil
termination_by structural item => item

end

theorem bodies_reordering (varies : Scope.Varies .reordering s t) :
    Reorders BodyReordering (ModuleMap.bodies s) (ModuleMap.bodies t) :=
  (filings_reordering s varies).cons ⟨rfl, varies⟩

/-! ### The scopes of the map -/

theorem items_mergedAt (start : Scope) : (mergedAt p bodies start).items =
    start.items ++ (bodies.filter (·.1 == p)).flatMap fun body => (Scope.stripped body.2).items := by
  unfold mergedAt
  induction bodies.filter (·.1 == p) generalizing start with
  | nil => simp
  | cons body rest ih =>
    rw [List.foldl_cons, ih]
    simp [Scope.merge, Scope.ofParts]

theorem mem_accesses_mergedAt (start : Scope) {path : ModulePath} : path ∈ (mergedAt p bodies start).accesses ↔
    path ∈ start.accesses ∨ ∃ body ∈ bodies.filter (·.1 == p), path ∈ (Scope.stripped body.2).accesses := by
  unfold mergedAt
  induction bodies.filter (·.1 == p) generalizing start with
  | nil => simp
  | cons body rest ih =>
    rw [List.foldl_cons, ih]
    simp [Scope.merge, Scope.ofParts, mem_firstSeen, or_assoc]

theorem definesMacros_mergedAt (start : Scope) : (mergedAt p bodies start).definesMacros = true ↔
    start.definesMacros = true ∨ ∃ body ∈ bodies.filter (·.1 == p), (Scope.stripped body.2).definesMacros = true := by
  unfold mergedAt
  induction bodies.filter (·.1 == p) generalizing start with
  | nil => simp
  | cons body rest ih =>
    rw [List.foldl_cons, ih]
    simp [Scope.merge, Scope.ofParts, or_assoc]

/-- Bodies in another order are merged into scopes in another order. -/
theorem mergedAt_reordering (p : ModulePath) (reorders : Reorders BodyReordering bodies others) :
    Scope.Varies .reordering (mergedAt p bodies .empty) (mergedAt p others .empty) := by
  have here : Reorders BodyReordering (bodies.filter (·.1 == p)) (others.filter (·.1 == p)) :=
    reorders.filter fun body other same => by rw [same.1]
  have strips : ∀ {body other}, BodyReordering body other →
      Scope.Varies .reordering (Scope.stripped body.2) (Scope.stripped other.2) :=
    fun same => Scope.stripped_reordering _ same.2
  refine Scope.reordering_iff.mpr ⟨?_, ?_, ?_⟩
  · rw [items_mergedAt, items_mergedAt]
    exact reorders_nil.append (here.flatMap fun _ _ same => (Scope.reordering_iff.mp (strips same)).1)
  · intro path
    rw [mem_accesses_mergedAt, mem_accesses_mergedAt]
    exact or_congr_right (here.exists_iff fun _ _ same => (Scope.reordering_iff.mp (strips same)).2.1 path)
  · rw [Bool.eq_iff_iff, definesMacros_mergedAt, definesMacros_mergedAt]
    refine or_congr_right (here.exists_iff fun _ _ same => ?_)
    rw [(Scope.reordering_iff.mp (strips same)).2.2]

theorem eq_mergedAt (entry : (p, s) ∈ (gather {} bodies).entries) : s = mergedAt p bodies .empty := by
  have distinct : (gather {} bodies).keys.Nodup := nodup_gather (by simp [ModuleMap.keys])
  have found : ((gather {} bodies).get? p).getD .empty = mergedAt p bodies .empty := get?_gather p
  rw [get?_of_mem distinct entry] at found
  exact found

/-- The maps of two trees that differ in order alone have the same modules, and their scopes differ in order alone. -/
theorem matched_gather (reorders : Reorders BodyReordering bodies others) :
    Matched (Scope.Varies .reordering) (gather {} bodies) (gather {} others) := by
  refine ⟨?_, ?_⟩
  · intro p
    rw [mem_keys_gather, mem_keys_gather, List.mem_map, List.mem_map]
    refine or_congr_right (reorders.exists_iff fun body other same => ?_)
    rw [same.1]
  · intro p s t here there
    rw [eq_mergedAt here, eq_mergedAt there]
    exact mergedAt_reordering p reorders

/-- What is live in the map of a tree is live in the map of the tree in another order. -/
theorem liveness_reordering (rooted : (gather {} (ModuleMap.bodies s)).Rooted)
    (other : (gather {} (ModuleMap.bodies t)).Rooted) (varies : Scope.Varies .reordering s t)
    (clear : ∀ entry ∈ (gather {} (ModuleMap.bodies s)).entries, Scope.everywhere Scope.unambiguous entry.2 = true) :
    ∃ live more, (gather {} (ModuleMap.bodies s)).liveness.outcome = .ok live ∧
      (gather {} (ModuleMap.bodies t)).liveness.outcome = .ok more ∧
      (∀ p ∈ live.modules, p ∈ more.modules) ∧ ∀ d ∈ live.declarations, d ∈ more.declarations := by
  have matched := matched_gather (bodies_reordering varies)
  refine liveness_of_matched ⟨matched.keys, ?_⟩ Scope.mirrors_reordering rooted other
  intro p s t here there
  exact ⟨matched.scopes here there, clear _ here⟩

/-- The order of items and accesses does not matter to what is live. Take a tree of known items and named modules that
imports nothing empty, where no name is bound by imports of one scope of the map to different targets. If another tree
holds the same at every depth, with items and accesses in any order, then both are flattened, and the same modules and
declarations are live in both. -/
theorem liveness_reordered (known : Scope.everywhere Scope.known s = true)
    (named : Scope.everywhere Scope.wellNamed s = true) (targeted : Scope.everywhere Scope.targeted s = true)
    (reordered : Scope.Varies .reordering s t)
    (clear : ∀ m, (ofTree (.file s)).outcome = .ok m →
      ∀ entry ∈ m.entries, Scope.everywhere Scope.unambiguous entry.2 = true) :
    ∃ m n live other, (ofTree (.file s)).outcome = .ok m ∧ (ofTree (.file t)).outcome = .ok n ∧
      m.liveness.outcome = .ok live ∧ n.liveness.outcome = .ok other ∧
      (∀ p, p ∈ live.modules ↔ p ∈ other.modules) ∧ ∀ d, d ∈ live.declarations ↔ d ∈ other.declarations := by
  have knows := Scope.everywhere_of_varies (fun varies fine => varies.known fine) s reordered known
  have names := Scope.everywhere_of_varies (fun varies fine => varies.wellNamed fine) s reordered named
  have targets := Scope.everywhere_of_varies (fun varies fine => varies.targeted fine) s reordered targeted
  have here := rooted_gather known named targeted
  have there := rooted_gather knows names targets
  have clear := clear _ (ofTree_outcome known named)
  have clearly : ∀ entry ∈ (gather {} (ModuleMap.bodies t)).entries,
      Scope.everywhere Scope.unambiguous entry.2 = true := by
    rintro ⟨p, _⟩ entry
    obtain ⟨scope, found, varies⟩ := (matched_gather (bodies_reordering reordered)).flip.partner entry
    exact Scope.everywhere_of_varies (fun varies fine => varies.unambiguous fine) scope varies (clear _ found)
  obtain ⟨live, other, run, runs, modules, declarations⟩ := liveness_reordering here there reordered clear
  obtain ⟨other', live', runs', run', modules', declarations'⟩ :=
    liveness_reordering there here (Scope.reordering_symm s reordered) clearly
  obtain rfl := Except.ok.inj (run.symm.trans run')
  obtain rfl := Except.ok.inj (runs.symm.trans runs')
  refine ⟨_, _, live, other, ofTree_outcome known named, ofTree_outcome knows names, run, runs, ?_, ?_⟩
  · intro p
    exact ⟨modules p, modules' p⟩
  · intro d
    exact ⟨declarations d, declarations' d⟩

/-- A crate with two bodies of one module, where a function uses the one and an `impl` block for it stands in another
module; and what is imported without a name comes from two modules. -/
def forwardTree : Scope where
  items := [
    .generic (some "f") { items := [.type "L", .block { accesses := [⟨["k", "T"]⟩, ⟨["L"]⟩] }] },
    .imports [⟨some "k", ⟨["a"]⟩⟩],
    .module "a" { items := [.type "T"] },
    .module "b" { items := [.generic none { accesses := [⟨["crate", "a", "T"]⟩, ⟨["x"]⟩] }] },
    .module "a" { items := [.imports [⟨some "_", ⟨["crate", "c"]⟩⟩, ⟨some "_", ⟨["crate"]⟩⟩]] },
    .module "c" {},
    .module "d" {}]

/-- The same crate, with items and accesses the other way round. -/
def backwardTree : Scope where
  items := [
    .module "d" {},
    .module "c" {},
    .module "a" { items := [.imports [⟨some "_", ⟨["crate", "c"]⟩⟩, ⟨some "_", ⟨["crate"]⟩⟩]] },
    .module "b" { items := [.generic none { accesses := [⟨["x"]⟩, ⟨["crate", "a", "T"]⟩] }] },
    .module "a" { items := [.type "T"] },
    .imports [⟨some "k", ⟨["a"]⟩⟩],
    .generic (some "f") { items := [.block { accesses := [⟨["L"]⟩, ⟨["k", "T"]⟩] }, .type "L"] }]

theorem forwardTree_reordered : Scope.Varies .reordering forwardTree backwardTree := by
  have swap : ∀ p q path : ModulePath, path ∈ [p, q] ↔ path ∈ [q, p] := by
    intro p q path
    simp [or_comm]
  have still : ∀ {items : List Item}, Scope.VariesIn .reordering items items →
      Scope.Varies .reordering ⟨items, [], false⟩ ⟨items, [], false⟩ :=
    fun same => ⟨⟨_, same, .refl _⟩, fun _ => Iff.rfl, rfl⟩
  have turned : ∀ p q : ModulePath, Scope.Varies .reordering ⟨[], [p, q], false⟩ ⟨[], [q, p], false⟩ :=
    fun p q => ⟨⟨[], trivial, .refl _⟩, swap p q, rfl⟩
  have function : Scope.Varies .reordering
      { items := [.type "L", .block { accesses := [⟨["k", "T"]⟩, ⟨["L"]⟩] }] }
      { items := [.block { accesses := [⟨["L"]⟩, ⟨["k", "T"]⟩] }, .type "L"] } :=
    ⟨⟨[.type "L", _], ⟨rfl, ⟨_, rfl, turned _ _⟩, trivial⟩, .swap _ _ _⟩, fun _ => Iff.rfl, rfl⟩
  have second : Scope.Varies .reordering
      { items := [.generic none { accesses := [⟨["crate", "a", "T"]⟩, ⟨["x"]⟩] }] }
      { items := [.generic none { accesses := [⟨["x"]⟩, ⟨["crate", "a", "T"]⟩] }] } :=
    ⟨⟨[.generic none _], ⟨⟨_, rfl, turned _ _⟩, trivial⟩, .refl _⟩, fun _ => Iff.rfl, rfl⟩
  refine ⟨⟨backwardTree.items.reverse, ?_, List.reverse_perm _⟩, fun _ => Iff.rfl, rfl⟩
  exact ⟨⟨_, rfl, function⟩, rfl, ⟨_, rfl, still ⟨rfl, trivial⟩⟩, ⟨_, rfl, second⟩, ⟨_, rfl, still ⟨rfl, trivial⟩⟩,
    ⟨_, rfl, still trivial⟩, ⟨_, rfl, still trivial⟩, trivial⟩

theorem liveness_reordered_backward : Scope.Varies .reordering forwardTree backwardTree ∧
    ∃ m n live other, (ofTree (.file forwardTree)).outcome = .ok m ∧ (ofTree (.file backwardTree)).outcome = .ok n ∧
      m.liveness.outcome = .ok live ∧ n.liveness.outcome = .ok other ∧
      (∀ p, p ∈ live.modules ↔ p ∈ other.modules) ∧ (∀ d, d ∈ live.declarations ↔ d ∈ other.declarations) ∧
      m.keys ≠ n.keys ∧ live.modules = [⟨["crate"]⟩, ⟨["crate", "a"]⟩, ⟨["crate", "c"]⟩, ⟨["crate", "b"]⟩] := by
  have known : Scope.everywhere Scope.known forwardTree = true := by decide
  have named : Scope.everywhere Scope.wellNamed forwardTree = true := by decide +kernel
  have clear : ∀ m, (ofTree (.file forwardTree)).outcome = .ok m →
      ∀ entry ∈ m.entries, Scope.everywhere Scope.unambiguous entry.2 = true := by
    intro m flat
    rw [ofTree_outcome known named] at flat
    obtain rfl := Except.ok.inj flat
    decide +kernel
  obtain ⟨m, n, live, other, flat, flats, run, runs, modules, declarations⟩ :=
    liveness_reordered known named (by decide) forwardTree_reordered clear
  obtain rfl := Except.ok.inj ((ofTree_outcome known named).symm.trans flat)
  obtain rfl := Except.ok.inj ((ofTree_outcome (s := backwardTree) (by decide) (by decide +kernel)).symm.trans flats)
  have found : (gather {} (ModuleMap.bodies forwardTree)).liveness.outcome = .ok ⟨[⟨["crate"]⟩, ⟨["crate", "a"]⟩,
    ⟨["crate", "c"]⟩, ⟨["crate", "b"]⟩], [⟨["crate", "a", "T"]⟩]⟩ := by decide +kernel
  obtain rfl := Except.ok.inj (found.symm.trans run)
  exact ⟨forwardTree_reordered, _, _, _, other, flat, flats, run, runs, modules, declarations, by decide +kernel, rfl⟩

end ModuleMap

end CrateFold
