import CrateFold.Liveness.Mark
import CrateFold.Proofs.Outcomes
import CrateFold.Proofs.Paths

/-!
What a scope holds, at any depth. `Scope.everywhere` asks a property of a scope and of all scopes in it;
from it come the two conditions under which following the paths of a module cannot fail: all items are
of known kinds (`Scope.known`), and nothing empty is imported (`Scope.targeted`). `Scope.references` lists
the paths written in a module and in the scopes without a name in it, each with the imports in force and
the names shadowed where it is written.
-/
namespace CrateFold

/-- Whether an item may stand in a scope. -/
def Item.isKnown : Item → Bool
  | .file _ | .bare _ => false
  | _ => true

/-- The name that an item declares in its scope. -/
def Item.name? : Item → Option String
  | .type name => some name
  | .generic owner _ => owner
  | _ => none

/-- Whether an item is a scope without a name. -/
def Item.isNested : Item → Bool
  | .generic _ _ | .block _ => true
  | _ => false

/-- What an import needs: a name its target, and a glob the module that the names come from, which is its target without the
last segment, if anything is left. -/
inductive Import.Needs (i : Import) : ModulePath → Prop where
  | target (plain : i.name ≠ some "*") : i.Needs i.target
  | source {path : ModulePath} {last : String} (glob : i.name = some "*")
      (below : i.target.segments = path.segments ++ [last]) (nonempty : path.segments ≠ []) : i.Needs path

/-- A path written in a module, with the names bound there by imports and those declared by the scopes without a name
around it. -/
structure Reference where
  aliases : Aliases
  shadowed : List String
  path : ModulePath

theorem mem_insertNew {α : Type} [BEq α] [LawfulBEq α] {l : List α} {a b : α} :
    b ∈ insertNew l a ↔ b ∈ l ∨ b = a := by
  unfold insertNew
  split
  · next there =>
    have member : a ∈ l := by simpa using there
    constructor
    · exact .inl
    · rintro (old | rfl)
      · exact old
      · exact member
  · simp

namespace Scope

/-! ### Properties at any depth -/

mutual

/-- Whether a property holds of a scope and of all scopes in it. -/
def everywhere (property : Scope → Bool) : ScopeOf Item → Bool
  | ⟨items, accesses, definesMacros⟩ =>
    property ⟨items, accesses, definesMacros⟩ && everywhereIn property items
termination_by structural s => s

/-- Whether a property holds of all scopes in a list of items. -/
def everywhereIn (property : Scope → Bool) : List Item → Bool
  | [] => true
  | item :: rest => everywhereAt property item && everywhereIn property rest
termination_by structural l => l

/-- Whether a property holds of all scopes in an item. -/
def everywhereAt (property : Scope → Bool) : Item → Bool
  | .module _ body => everywhere property body
  | .generic _ body => everywhere property body
  | .block body => everywhere property body
  | .file body => everywhere property body
  | .imports _ => true
  | .type _ => true
  | .bare _ => true
termination_by structural item => item

end

/-- Whether all items of a scope may stand in it. -/
def known (s : Scope) : Bool := s.items.all Item.isKnown

/-- Whether no import of a scope is of the empty path. -/
def targeted (s : Scope) : Bool := s.importList.all fun i => !i.target.isEmpty

variable {property : Scope → Bool} {s : Scope} {items : List Item} {item : Item}

theorem everywhere_iff : everywhere property s = true ↔
    property s = true ∧ everywhereIn property s.items = true := by
  cases s
  simp [everywhere]

/-! ### Declared names -/

/-- The names that items declare. -/
def namesIn (items : List Item) : List String := items.filterMap Item.name?

/-- The names that a scope declares. -/
def names (s : Scope) : List String := namesIn s.items

theorem declaredName?_of_known (fine : item.isKnown = true) : declaredName? item = .ok item.name? := by
  cases item <;> first | rfl | cases fine

theorem namesOf_of_known (fine : items.all Item.isKnown = true) : namesOf items = .ok (namesIn items) := by
  induction items with
  | nil => rfl
  | cons item rest ih =>
    simp only [List.all_cons, Bool.and_eq_true] at fine
    rw [namesOf, declaredName?_of_known fine.1, ih fine.2]
    cases name : item.name? <;> simp [namesIn, name, bind, Except.bind, pure, Except.pure]

/-- A scope of known items declares its names. -/
theorem declaredNames_of_known (fine : s.known = true) : s.declaredNames = .ok s.names :=
  namesOf_of_known fine

theorem known_of_namesOf {names : List String} (read : namesOf items = .ok names) : items.all Item.isKnown = true := by
  induction items generalizing names with
  | nil => rfl
  | cons item rest ih =>
    rw [namesOf] at read
    cases item with
    | file _ | bare _ => cases read
    | module _ _ | imports _ | generic _ _ | type _ | block _ =>
      cases more : namesOf rest with
      | error fault =>
        rw [more] at read
        cases read
      | ok _ => simp [Item.isKnown, ih more]

/-- A scope declares its names exactly if all its items are known. -/
theorem declaredNames_ok_iff : (∃ names, s.declaredNames = .ok names) ↔ s.known = true :=
  ⟨fun ⟨_, read⟩ => known_of_namesOf read, fun fine => ⟨_, declaredNames_of_known fine⟩⟩

/-- A name that a scope declares is that of a type or of the owner of a generic scope in it. -/
theorem mem_names {name : String} :
    name ∈ s.names ↔ .type name ∈ s.items ∨ ∃ body, .generic (some name) body ∈ s.items := by
  simp only [names, namesIn, List.mem_filterMap]
  constructor
  · rintro ⟨item, member, declared⟩
    cases item with
    | type _ =>
      cases declared
      exact .inl member
    | generic _ body =>
      obtain rfl : _ = some name := declared
      exact .inr ⟨body, member⟩
    | _ => cases declared
  · rintro (type | ⟨body, generic⟩)
    · exact ⟨_, type, rfl⟩
    · exact ⟨_, generic, rfl⟩

theorem known_of_everywhere (fine : everywhere known s = true) : s.known = true := (everywhere_iff.mp fine).1

/-- The nested scopes among items can be listed exactly if all items are known. -/
theorem nestedIn_eq_ok_iff {inner : List Item} :
    nestedIn items = .ok inner ↔ items.all Item.isKnown = true ∧ inner = items.filter Item.isNested := by
  induction items generalizing inner with
  | nil => simp [nestedIn, eq_comm]
  | cons item rest ih =>
    cases item with
    | generic _ _ | block _ =>
      rw [nestedIn]
      constructor
      · intro listed
        obtain ⟨others, later, same⟩ := bind_eq_ok.mp listed
        cases same
        obtain ⟨fine, rfl⟩ := ih.mp later
        exact ⟨by simp [Item.isKnown, fine], rfl⟩
      · rintro ⟨fine, rfl⟩
        simp only [List.all_cons, Item.isKnown, Bool.true_and] at fine
        rw [ih.mpr ⟨fine, rfl⟩]
        rfl
    | module _ _ | imports _ | type _ => simp [nestedIn, Item.isKnown, Item.isNested, ih]
    | file _ | bare _ => simp [nestedIn, Item.isKnown]

/-! ### References -/

/-- An import makes live what it needs. -/
theorem importSource?_eq_some_iff {i : Import} {path : ModulePath} :
    Marking.importSource? i = some path ↔ i.Needs path := by
  unfold Marking.importSource?
  by_cases glob : i.name = some "*"
  · simp only [glob, beq_self_eq_true, if_true]
    constructor
    · intro kept
      split at kept
      · cases kept
      · next nonempty =>
        cases kept
        have some : i.target.segments ≠ [] := by
          rintro none
          simp [ModulePath.isEmpty, ModulePath.parent, none] at nonempty
        exact .source glob (List.dropLast_append_getLast some).symm (by simpa [ModulePath.isEmpty] using nonempty)
    · intro needs
      cases needs with
      | target plain => exact absurd glob plain
      | @source _ last _ below nonempty =>
        have parent : i.target.parent = path := by simp [ModulePath.parent, below]
        rw [parent, if_neg (by simpa [ModulePath.isEmpty] using nonempty)]
  · simp only [beq_iff_eq, glob, if_false]
    constructor
    · intro same
      cases same
      exact .target glob
    · intro needs
      cases needs with
      | target _ => rfl
      | source other _ _ => exact absurd other glob

/-- The paths written directly in a scope: what its imports make live, each as it is written, then its
accesses. -/
def written (s : Scope) (aliases : Aliases) (shadowed : List String) : List Reference :=
  (s.importList.filterMap Marking.importSource?).map (⟨[], [], ·⟩) ++ s.accesses.map (⟨aliases, shadowed, ·⟩)

mutual

/-- The paths written in a scope and in the scopes without a name in it, given the names bound and
shadowed around it. The imports of a scope come before those around it; what a nested scope declares is
shadowed in it. -/
def referencesFrom (aliases : Aliases) (shadowed : List String) : ScopeOf Item → List Reference
  | ⟨items, accesses, definesMacros⟩ =>
    let scope : Scope := ⟨items, accesses, definesMacros⟩
    scope.written (scope.aliases ++ aliases) shadowed ++
      referencesIn (scope.aliases ++ aliases) shadowed items
termination_by structural s => s

/-- The paths written in the scopes without a name among items. -/
def referencesIn (aliases : Aliases) (shadowed : List String) : List Item → List Reference
  | [] => []
  | item :: rest => referencesAt aliases shadowed item ++ referencesIn aliases shadowed rest
termination_by structural l => l

/-- The paths written in an item that is a scope without a name. -/
def referencesAt (aliases : Aliases) (shadowed : List String) : Item → List Reference
  | .generic _ body => referencesFrom aliases (shadowed ++ names body) body
  | .block body => referencesFrom aliases (shadowed ++ names body) body
  | .module _ _ => []
  | .imports _ => []
  | .type _ => []
  | .file _ => []
  | .bare _ => []
termination_by structural item => item

end

/-- The paths written in a module. -/
def references (s : Scope) : List Reference := referencesFrom [] [] s

/-! ### What imports bind -/

/-- Every name that is bound stands for a path with segments. -/
def Bound (aliases : Aliases) : Prop := ∀ binding ∈ aliases, binding.2.segments ≠ []

theorem bound_append {inner outer : Aliases} (one : Bound inner) (other : Bound outer) :
    Bound (inner ++ outer) := by
  intro binding member
  rcases List.mem_append.mp member with here | there
  · exact one binding here
  · exact other binding there

theorem bound_aliases (fine : s.targeted = true) : Bound s.aliases := by
  intro binding member
  simp only [aliases, List.mem_reverse, List.mem_filterMap] at member
  obtain ⟨i, imported, bound⟩ := member
  have target : i.target.segments ≠ [] := by
    have := List.all_eq_true.mp fine i imported
    simpa [ModulePath.isEmpty] using this
  unfold Import.binding? at bound
  split at bound
  · split at bound
    · cases bound
    · cases bound
      exact target
  · cases bound

/-- What is written directly in a scope is what its imports need, where nothing is bound, and its accesses. -/
theorem mem_written {aliases : Aliases} {shadowed : List String} {r : Reference} : r ∈ s.written aliases shadowed ↔
    (∃ i ∈ s.importList, i.Needs r.path ∧ r.aliases = [] ∧ r.shadowed = []) ∨
      r.path ∈ s.accesses ∧ r.aliases = aliases ∧ r.shadowed = shadowed := by
  obtain ⟨bound, hidden, path⟩ := r
  simp only [written, List.mem_append, List.mem_map, List.mem_filterMap, importSource?_eq_some_iff, Reference.mk.injEq]
  constructor
  · rintro (⟨_, ⟨i, imported, needs⟩, rfl, rfl, rfl⟩ | ⟨_, access, rfl, rfl, rfl⟩)
    · exact .inl ⟨i, imported, needs, rfl, rfl⟩
    · exact .inr ⟨access, rfl, rfl⟩
  · rintro (⟨i, imported, needs, rfl, rfl⟩ | ⟨access, rfl, rfl⟩)
    · exact .inl ⟨path, ⟨i, imported, needs⟩, rfl, rfl, rfl⟩
    · exact .inr ⟨path, access, rfl, rfl, rfl⟩

theorem bound_written {aliases : Aliases} {shadowed : List String} (fine : Bound aliases) {r : Reference}
    (member : r ∈ s.written aliases shadowed) : Bound r.aliases := by
  rcases mem_written.mp member with ⟨_, -, -, none, -⟩ | ⟨-, same, -⟩
  · rw [none]
    intro binding impossible
    cases impossible
  · rw [same]
    exact fine

mutual

theorem bound_referencesFrom {r : Reference} :
    ∀ (s : ScopeOf Item) {aliases : Aliases} {shadowed : List String}, everywhere targeted s = true →
      Bound aliases → r ∈ referencesFrom aliases shadowed s → Bound r.aliases
  | ⟨items, accesses, definesMacros⟩, aliases, shadowed, fine, bound, member => by
    have all := everywhere_iff.mp fine
    have here := bound_append (bound_aliases all.1) bound
    simp only [referencesFrom] at member
    rcases List.mem_append.mp member with direct | nested
    · exact bound_written here direct
    · exact bound_referencesIn items all.2 here nested
termination_by structural s => s

theorem bound_referencesIn {r : Reference} :
    ∀ (items : List Item) {aliases : Aliases} {shadowed : List String}, everywhereIn targeted items = true →
      Bound aliases → r ∈ referencesIn aliases shadowed items → Bound r.aliases
  | [], _, _, _, _, member => by cases member
  | item :: rest, aliases, shadowed, fine, bound, member => by
    simp only [everywhereIn, Bool.and_eq_true] at fine
    simp only [referencesIn] at member
    rcases List.mem_append.mp member with here | later
    · exact bound_referencesAt item fine.1 bound here
    · exact bound_referencesIn rest fine.2 bound later
termination_by structural l => l

theorem bound_referencesAt {r : Reference} :
    ∀ (item : Item) {aliases : Aliases} {shadowed : List String}, everywhereAt targeted item = true →
      Bound aliases → r ∈ referencesAt aliases shadowed item → Bound r.aliases
  | .generic _ body, _, _, fine, bound, member => bound_referencesFrom body fine bound member
  | .block body, _, _, fine, bound, member => bound_referencesFrom body fine bound member
  | .module _ _, _, _, _, _, member => by cases member
  | .imports _, _, _, _, _, member => by cases member
  | .type _, _, _, _, _, member => by cases member
  | .file _, _, _, _, _, member => by cases member
  | .bare _, _, _, _, _, member => by cases member
termination_by structural item => item

end

/-- The paths of a module that imports nothing empty are written where no empty path is bound. -/
theorem bound_references (fine : everywhere targeted s = true) {r : Reference} (member : r ∈ s.references) :
    Bound r.aliases :=
  bound_referencesFrom s fine (fun _ none => by cases none) member

end Scope

end CrateFold
