import CrateFold.Proofs.Flattening
import CrateFold.Proofs.Locality

/-!
The order of a flattened tree. Flattening succeeds exactly on trees of known items. The keys of the map are the
paths of the bodies in the order in which they are first met, so that a module comes behind all that it lies
in (`Led`), and the scope of a key is the merge of the bodies met under it, in order (`ofTree_encounters`).
-/
namespace CrateFold

theorem firstSeen_append {α : Type} [BEq α] (first rest : List α) :
    firstSeen (first ++ rest) = rest.foldl insertNew (firstSeen first) := List.foldl_append

theorem mem_firstSeen {α : Type} [BEq α] [LawfulBEq α] {l : List α} {a : α} : a ∈ firstSeen l ↔ a ∈ l := by
  rw [firstSeen, mem_foldl_insertNew]
  simp

namespace ModuleMap

variable {m : ModuleMap} {p path : ModulePath} {s : Scope} {bodies : List (ModulePath × Scope)}

/-! ### Modules behind what they lie in -/

/-- Each path of a list comes behind all that it lies in, apart from what has been seen before the list. -/
def Led (seen : List ModulePath) : List ModulePath → Prop
  | [] => True
  | p :: rest => (∀ q, p.Within q → q = p ∨ q ∈ seen) ∧ Led (p :: seen) rest

theorem led_append {seen first rest : List ModulePath} :
    Led seen (first ++ rest) ↔ Led seen first ∧ Led (first.reverse ++ seen) rest := by
  induction first generalizing seen with
  | nil => simp [Led]
  | cons p more ih => simp [Led, ih, and_assoc]

/-- Dropping the paths that were met before keeps the others behind what they lie in. -/
theorem Led.firstSeen {list : List ModulePath} (led : Led [] list) : Led [] (firstSeen list) := by
  induction list using List.reverseRecOn with
  | nil => trivial
  | append_singleton first p ih =>
    obtain ⟨before, here, -⟩ := led_append.mp led
    rw [firstSeen_append, List.foldl_cons, List.foldl_nil]
    by_cases member : p ∈ CrateFold.firstSeen first
    · rw [insertNew_of_mem member]
      exact ih before
    · rw [insertNew, if_neg (by simpa using member)]
      refine led_append.mpr ⟨ih before, ?_, trivial⟩
      intro q lies
      have := here q lies
      simpa [mem_firstSeen] using this

theorem Led.before {list before after : List ModulePath} (led : Led [] list) (split : list = before ++ p :: after)
    {q : ModulePath} (lies : p.Within q) (other : q ≠ p) : q ∈ before := by
  rw [split] at led
  obtain ⟨-, here, -⟩ := led_append.mp led
  simpa [other] using here q lies

mutual

/-- The modules in a scope are listed behind the modules that they lie in. -/
theorem filings_led : ∀ (s : ScopeOf Item) (path : ModulePath) (seen : List ModulePath),
    Scope.everywhere Scope.wellNamed s = true → (∀ q, path.Within q → q ∈ seen) → Led seen ((filings path s).map Prod.fst)
  | ⟨items, _, _⟩, path, seen, named, around => by
    have all := Scope.everywhere_iff.mp named
    exact filingsIn_led items path seen all.1 all.2 around
termination_by structural s => s

theorem filingsIn_led : ∀ (items : List Item) (path : ModulePath) (seen : List ModulePath),
    items.all Item.isNamed = true → Scope.everywhereIn Scope.wellNamed items = true →
      (∀ q, path.Within q → q ∈ seen) → Led seen ((filingsIn path items).map Prod.fst)
  | [], _, _, _, _, _ => trivial
  | item :: rest, path, seen, here, named, around => by
    simp only [Scope.everywhereIn, Bool.and_eq_true] at named
    simp only [List.all_cons, Bool.and_eq_true] at here
    rw [filingsIn, List.map_append, led_append]
    refine ⟨filingsAt_led item path seen here.1 named.1 around, filingsIn_led rest path _ here.2 named.2 ?_⟩
    intro q lies
    exact List.mem_append_right _ (around q lies)
termination_by structural l => l

theorem filingsAt_led : ∀ (item : Item) (path : ModulePath) (seen : List ModulePath), item.isNamed = true →
    Scope.everywhereAt Scope.wellNamed item = true → (∀ q, path.Within q → q ∈ seen) →
      Led seen ((filingsAt path item).map Prod.fst)
  | .module name body, path, seen, here, named, around => by
    have step : ∀ q, (path.enter name).Within q → q = path.enter name ∨ q ∈ seen := by
      intro q lies
      exact (ModulePath.within_enter here lies).imp_right (around q)
    refine ⟨step, filings_led body (path.enter name) _ named ?_⟩
    intro q lies
    exact List.mem_cons.mpr (step q lies)
  | .generic _ body, path, seen, _, named, around => filings_led body path seen named around
  | .block body, path, seen, _, named, around => filings_led body path seen named around
  | .imports _, _, _, _, _, _ => trivial
  | .type _, _, _, _, _, _ => trivial
  | .file _, _, _, _, _, _ => trivial
  | .bare _, _, _, _, _, _ => trivial
termination_by structural item => item

end

/-- The bodies of a crate are listed behind those of the modules that they lie in. -/
theorem bodies_led (named : Scope.everywhere Scope.wellNamed s = true) : Led [] ((ModuleMap.bodies s).map Prod.fst) := by
  have top : ∀ q, ModulePath.crate.Within q → q = .crate := by
    intro q lies
    exact (ModulePath.within_crate (lies.isCratePath rfl)).antisymm lies
  constructor
  · intro q lies
    exact .inl (top q lies)
  · apply filings_led s .crate _ named
    intro q lies
    exact List.mem_singleton.mpr (top q lies)

/-! ### Keys and scopes of the gathered map -/

theorem keys_gather : (m.gather bodies).keys = (bodies.map Prod.fst).foldl insertNew m.keys := by
  induction bodies generalizing m with
  | nil => rfl
  | cons body rest ih =>
    have step : (m.mergeAt body.1 (Scope.stripped body.2)).keys = insertNew m.keys body.1 := by
      unfold mergeAt
      rw [keys_put]
      by_cases member : body.1 ∈ m.keys
      · rw [if_pos member, insertNew_of_mem member]
      · simp [insertNew, member]
    rw [gather_cons, ih, step, List.map_cons, List.foldl_cons]

/-- The merge of the bodies listed under a path, in order, each without the modules in it. -/
def mergedAt (p : ModulePath) (bodies : List (ModulePath × Scope)) (start : Scope) : Scope :=
  (bodies.filter (·.1 == p)).foldl (fun found body => found.merge (Scope.stripped body.2)) start

theorem get?_gather (p : ModulePath) : ((m.gather bodies).get? p).getD .empty = mergedAt p bodies ((m.get? p).getD .empty) := by
  induction bodies generalizing m with
  | nil => rfl
  | cons body rest ih =>
    rw [gather_cons, ih, mergeAt, get?_put]
    by_cases here : body.1 = p
    · subst here
      simp [mergedAt]
    · simp [mergedAt, here, Ne.symm here]

/-! ### Items that may not stand in a scope -/

mutual

/-- Filing a body that holds an unknown item somewhere is refused. -/
theorem lift_unknown : ∀ (s : ScopeOf Item) (path : ModulePath) (m : ModuleMap),
    Scope.everywhere Scope.wellNamed s = true → Scope.everywhere Scope.known s = false →
      ∃ item : Item, item.isKnown = false ∧ (lift path s m).outcome = .error (.unknownItem item.kind)
  | ⟨items, _, _⟩, path, m, named, unknown => by
    have names := Scope.everywhere_iff.mp named
    obtain ⟨item, strange, refused⟩ := stripItems_unknown items path (m.reserved path) names.1 names.2 unknown
    refine ⟨item, strange, ?_⟩
    simp only [lift, Traced.outcome_bind, reserve_outcome, ok_bind, refused, error_bind]
termination_by structural s => s

theorem strip_unknown : ∀ (s : ScopeOf Item) (path : ModulePath) (m : ModuleMap),
    Scope.everywhere Scope.wellNamed s = true → Scope.everywhere Scope.known s = false →
      ∃ item : Item, item.isKnown = false ∧ (strip path s m).outcome = .error (.unknownItem item.kind)
  | ⟨items, _, _⟩, path, m, named, unknown => by
    have names := Scope.everywhere_iff.mp named
    obtain ⟨item, strange, refused⟩ := stripItems_unknown items path m names.1 names.2 unknown
    refine ⟨item, strange, ?_⟩
    simp only [strip, Traced.outcome_bind, refused, error_bind]
termination_by structural s => s

theorem stripItems_unknown : ∀ (items : List Item) (path : ModulePath) (m : ModuleMap),
    items.all Item.isNamed = true → Scope.everywhereIn Scope.wellNamed items = true →
    (items.all Item.isKnown && Scope.everywhereIn Scope.known items) = false →
      ∃ item : Item, item.isKnown = false ∧ (stripItems path items m).outcome = .error (.unknownItem item.kind)
  | [], _, _, _, _, unknown => by cases unknown
  | item :: rest, path, m, names, named, unknown => by
    simp only [List.all_cons, Bool.and_eq_true] at names
    simp only [Scope.everywhereIn, Bool.and_eq_true] at named
    by_cases here : (item.isKnown && Scope.everywhereAt Scope.known item) = true
    · -- the first unknown item comes later, and this one is passed over
      rw [Bool.and_eq_true] at here
      have later : (rest.all Item.isKnown && Scope.everywhereIn Scope.known rest) = false := by
        simpa [Scope.everywhereIn, here.1, here.2] using unknown
      obtain ⟨other, strange, refused⟩ :=
        stripItems_unknown rest path (m.gather (filingsAt path item)) names.2 named.2 later
      refine ⟨other, strange, ?_⟩
      simp only [stripItems, Traced.outcome_bind, stripItem_outcome item path m here.1 here.2 names.1 named.1, ok_bind,
        refused, error_bind]
    · obtain ⟨other, strange, refused⟩ := stripItem_unknown item path m names.1 named.1 (by simpa using here)
      refine ⟨other, strange, ?_⟩
      simp only [stripItems, Traced.outcome_bind, refused, error_bind]
termination_by structural l => l

theorem stripItem_unknown : ∀ (item : Item) (path : ModulePath) (m : ModuleMap), item.isNamed = true →
    Scope.everywhereAt Scope.wellNamed item = true → (item.isKnown = true → Scope.everywhereAt Scope.known item = false) →
      ∃ other : Item, other.isKnown = false ∧ (stripItem path item m).outcome = .error (.unknownItem other.kind)
  | .module name body, path, m, name_, named, unknown => by
    obtain ⟨other, strange, refused⟩ := lift_unknown body (path.enter name) m named (unknown rfl)
    refine ⟨other, strange, ?_⟩
    simp only [stripItem, ModulePath.joinText_eq_enter name_ path, Traced.lift_ok, pure_bind, Traced.outcome_bind, refused,
      error_bind]
  | .generic _ body, path, m, _, named, unknown => by
    obtain ⟨other, strange, refused⟩ := strip_unknown body path m named (unknown rfl)
    refine ⟨other, strange, ?_⟩
    simp only [stripItem, Traced.outcome_bind, refused, error_bind]
  | .block body, path, m, _, named, unknown => by
    obtain ⟨other, strange, refused⟩ := strip_unknown body path m named (unknown rfl)
    refine ⟨other, strange, ?_⟩
    simp only [stripItem, Traced.outcome_bind, refused, error_bind]
  | .imports _, _, _, _, _, unknown => by cases unknown rfl
  | .type _, _, _, _, _, unknown => by cases unknown rfl
  | .file body, _, _, _, _, _ => ⟨.file body, rfl, rfl⟩
  | .bare text, _, _, _, _, _ => ⟨.bare text, rfl, rfl⟩
termination_by structural item => item

end

/-! ### The flattened tree -/

/-- Flattening a tree of named modules. It succeeds if all items of the tree are known, and names an unknown one
otherwise. The keys of the map are the paths of the bodies as they are first met, each behind what it lies in, and the
scope of a key is the merge of the bodies met under it, in the same order and without the modules in them. -/
theorem ofTree_encounters (named : Scope.everywhere Scope.wellNamed s = true) :
    ((∃ m, (ofTree (.file s)).outcome = .ok m) ↔ Scope.everywhere Scope.known s = true) ∧
    (Scope.everywhere Scope.known s = false →
      ∃ item : Item, item.isKnown = false ∧ (ofTree (.file s)).outcome = .error (.unknownItem item.kind)) ∧
    ∀ m, (ofTree (.file s)).outcome = .ok m →
      m.keys = firstSeen ((ModuleMap.bodies s).map Prod.fst) ∧
      (∀ before p after, m.keys = before ++ p :: after → ∀ q, p.Within q → q ≠ p → q ∈ before) ∧
      ∀ p ∈ m.keys, m.get? p = some (mergedAt p (ModuleMap.bodies s) .empty) := by
  have refused : Scope.everywhere Scope.known s = false →
      ∃ item : Item, item.isKnown = false ∧ (ofTree (.file s)).outcome = .error (.unknownItem item.kind) := by
    intro unknown
    obtain ⟨item, strange, refused⟩ := lift_unknown s .crate {} named unknown
    exact ⟨item, strange, by simp [ofTree, refused]⟩
  have known_of_ok : ∀ m, (ofTree (.file s)).outcome = .ok m → Scope.everywhere Scope.known s = true := by
    intro m flat
    by_contra unknown
    obtain ⟨item, -, failed⟩ := refused (by simpa using unknown)
    rw [flat] at failed
    cases failed
  refine ⟨⟨?_, ?_⟩, refused, ?_⟩
  · rintro ⟨m, flat⟩
    exact known_of_ok m flat
  · intro known
    exact ⟨_, ofTree_outcome known named⟩
  · intro m flat
    rw [ofTree_outcome (known_of_ok m flat) named] at flat
    obtain rfl := Except.ok.inj flat
    have keys : (gather {} (ModuleMap.bodies s)).keys = firstSeen ((ModuleMap.bodies s).map Prod.fst) := keys_gather
    refine ⟨keys, ?_, ?_⟩
    · intro before p after split q lies other
      rw [keys] at split
      exact (bodies_led named).firstSeen.before split lies other
    · intro p member
      rw [get?_of_mem_keys member, get?_gather]
      rfl

/-- A crate with two bodies of one module, the second of them in a function, behind another module. -/
def scatteredTree : Scope where
  items := [
    .module "a" { items := [.type "T"], accesses := [⟨["x"]⟩] },
    .generic (some "f") { items := [.block {
      items := [.module "b" {}, .module "a" { accesses := [⟨["y"]⟩, ⟨["x"]⟩] }]
      accesses := [⟨["a", "T"]⟩] }] }]

theorem ofTree_encounters_scattered : Scope.everywhere Scope.wellNamed scatteredTree = true ∧
    ∃ m, (ofTree (.file scatteredTree)).outcome = .ok m ∧
      m.keys = [⟨["crate"]⟩, ⟨["crate", "a"]⟩, ⟨["crate", "b"]⟩] ∧
      m.get? ⟨["crate"]⟩ = some { items := [.generic (some "f") { items := [.block { accesses := [⟨["a", "T"]⟩] }] }] } ∧
      m.get? ⟨["crate", "a"]⟩ = some { items := [.type "T"], accesses := [⟨["x"]⟩, ⟨["y"]⟩] } := by
  have named : Scope.everywhere Scope.wellNamed scatteredTree = true := by decide +kernel
  obtain ⟨⟨-, succeeds⟩, -, made⟩ := ofTree_encounters named
  obtain ⟨m, flat⟩ := succeeds (by decide)
  obtain ⟨keys, -, scopes⟩ := made m flat
  have listed : m.keys = [⟨["crate"]⟩, ⟨["crate", "a"]⟩, ⟨["crate", "b"]⟩] := by
    rw [keys]
    decide +kernel
  refine ⟨named, m, flat, listed, ?_, ?_⟩
  · rw [scopes _ (by simp [listed])]
    rfl
  · rw [scopes _ (by simp [listed])]
    rfl

end ModuleMap

end CrateFold
