import CrateFold.Scope.Build
import CrateFold.Proofs.Flattening

/-!
What reading a tree can add to a scope. Whatever a node is and wherever it stands, reading it takes the
steps of `Scope.Extends` (`visit_extends`): it adds accesses, types, imports and scopes that were made from
nothing in the same way, and modules only if there is a module in the tree. All that holds of every such
step holds of what is built: the items are of known kinds (`Extends.known`), and without a module in the
tree there is none among them (`Extends.moduleFree`).
-/
namespace CrateFold

/-! ### Trees without modules -/

mutual

/-- Whether no node at or below a node is a module. -/
def Node.moduleFree : Node → Bool
  | ⟨tag, children⟩ => tag.kind != "mod_item" && Node.moduleFreeIn children
termination_by structural n => n

/-- Whether no node at or below siblings is a module. -/
def Node.moduleFreeIn : List Node → Bool
  | [] => true
  | n :: rest => n.moduleFree && Node.moduleFreeIn rest
termination_by structural l => l

end

theorem ruleOfKind_eq_module {kind : String} : Rule.ofKind kind = .module ↔ kind = "mod_item" := by
  constructor
  · intro rule
    unfold Rule.ofKind at rule
    split at rule
    · cases rule
    · split at rule <;> first | rfl | cases rule
  · rintro rfl
    decide

namespace Scope

/-! ### Steps of building -/

/-- A scope with what reading a tree may add to it; modules only if there may be some. -/
inductive Extends (modules : Bool) : Scope → Scope → Prop where
  | refl (s : Scope) : Extends modules s s
  | trans {s t r : Scope} (one : Extends modules s t) (two : Extends modules t r) : Extends modules s r
  | access (s : Scope) (path : ModulePath) : Extends modules s (s.addAccess path)
  | macros (s : Scope) : Extends modules s s.addMacros
  | type (s : Scope) (name : String) : Extends modules s (s.addItem (.type name))
  | imports (s : Scope) (list : List Import) : Extends modules s (s.addItem (.imports list))
  | generic (s : Scope) (owner : Option String) {body : Scope} (built : Extends modules .empty body) :
      Extends modules s (s.addItem (.generic owner body))
  | block (s : Scope) {body : Scope} (built : Extends modules .empty body) : Extends modules s (s.addItem (.block body))
  | module (s : Scope) (name : String) {body : Scope} (allowed : modules = true) (built : Extends modules .empty body) :
      Extends modules s (s.addItem (.module name body))

variable {modules : Bool} {s t : Scope}

theorem everywhere_addItem {property : Scope → Bool} {item : Item} (here : property (s.addItem item) = true)
    (all : everywhere property s = true) (added : everywhereAt property item = true) :
    everywhere property (s.addItem item) = true := by
  rw [everywhere_iff] at all ⊢
  refine ⟨here, ?_⟩
  simp only [addItem, everywhereIn_append, all.2, everywhereIn, added, Bool.and_self]

/-- What holds of all items that may be added holds at every depth of what is built. -/
theorem Extends.items_all (fine : Item → Bool) (built : Extends modules s t)
    (plain : ∀ item : Item, item.isKnown = true → (∀ name body, item ≠ .module name body) → fine item = true)
    (module : modules = true → ∀ name body, fine (.module name body) = true)
    (all : everywhere (fun s => s.items.all fine) s = true) : everywhere (fun s => s.items.all fine) t = true := by
  have adds : ∀ {s : Scope} {item : Item}, everywhere (fun s => s.items.all fine) s = true → fine item = true →
      everywhereAt (fun s => s.items.all fine) item = true → everywhere (fun s => s.items.all fine) (s.addItem item) = true := by
    intro s item all kind added
    refine everywhere_addItem ?_ all added
    simp only [addItem, List.all_append, List.all_cons, List.all_nil, kind, Bool.and_true]
    exact (everywhere_iff.mp all).1
  induction built with
  | refl => exact all
  | trans _ _ first second => exact second (first all)
  | access s path =>
    obtain ⟨here, deeper⟩ := everywhere_iff.mp all
    exact everywhere_iff.mpr ⟨here, deeper⟩
  | macros s =>
    obtain ⟨here, deeper⟩ := everywhere_iff.mp all
    exact everywhere_iff.mpr ⟨here, deeper⟩
  | type => exact adds all (plain _ rfl (by rintro _ _ ⟨⟩)) rfl
  | imports => exact adds all (plain _ rfl (by rintro _ _ ⟨⟩)) rfl
  | generic s owner _ inner => exact adds all (plain _ rfl (by rintro _ _ ⟨⟩)) (inner rfl)
  | block s _ inner => exact adds all (plain _ rfl (by rintro _ _ ⟨⟩)) (inner rfl)
  | module s name allowed _ inner => exact adds all (module allowed _ _) (inner rfl)

/-- What is built holds items of known kinds. -/
theorem Extends.known (built : Extends modules s t) (fine : everywhere Scope.known s = true) :
    everywhere Scope.known t = true :=
  built.items_all Item.isKnown (fun _ known _ => known) (fun _ _ _ => rfl) fine

/-- What is built without modules holds no module without a name. -/
theorem Extends.wellNamed (built : Extends false s t) (fine : everywhere Scope.wellNamed s = true) :
    everywhere Scope.wellNamed t = true := by
  refine built.items_all Item.isNamed ?_ (fun allowed => by cases allowed) fine
  intro item _ other
  cases item with
  | module name body => exact absurd rfl (other name body)
  | _ => rfl

/-- What is built without modules is what was there, with items that hold no module. -/
theorem Extends.moduleFree (built : Extends false s t) :
    ∃ added, t.items = s.items ++ added ∧ ∀ path, ModuleMap.filingsIn path added = [] := by
  induction built with
  | refl => exact ⟨[], by simp, fun _ => rfl⟩
  | trans _ _ first second =>
    obtain ⟨added, items, nothing⟩ := first
    obtain ⟨more, items', nothing'⟩ := second
    exact ⟨added ++ more, by simp [items, items'], fun path => by
      rw [ModuleMap.filingsIn_append, nothing, nothing']; rfl⟩
  | access s path => exact ⟨[], by simp [addAccess], fun _ => rfl⟩
  | macros s => exact ⟨[], by simp [addMacros], fun _ => rfl⟩
  | type s name => exact ⟨[.type name], rfl, fun _ => rfl⟩
  | imports s list => exact ⟨[.imports list], rfl, fun _ => rfl⟩
  | @generic s owner body _ inner =>
    obtain ⟨added, items, nothing⟩ := inner
    refine ⟨[.generic owner body], rfl, ?_⟩
    intro path
    simp only [ModuleMap.filingsIn, ModuleMap.filingsAt, ModuleMap.filings_eq, items, empty, List.nil_append, nothing, List.append_nil]
  | @block s body _ inner =>
    obtain ⟨added, items, nothing⟩ := inner
    refine ⟨[.block body], rfl, ?_⟩
    intro path
    simp only [ModuleMap.filingsIn, ModuleMap.filingsAt, ModuleMap.filings_eq, items, empty, List.nil_append, nothing, List.append_nil]
  | module _ _ allowed _ => cases allowed

end Scope

namespace SourceUnit

open Scope

variable {u : SourceUnit} {modules : Bool}

theorem recordAccess_extends {s t : Scope} {segments : List String} (run : recordAccess s segments = .ok t) :
    Extends modules s t := by
  obtain ⟨path, -, rest⟩ := bind_eq_ok.mp run
  cases rest
  exact .access s path

theorem recordRuns_extends {s t : Scope} (runs : List (List Node)) (run : u.recordRuns runs s = .ok t) :
    Extends modules s t := by
  induction runs generalizing s with
  | nil =>
    cases run
    exact .refl _
  | cons first rest ih =>
    obtain ⟨texts, -, run⟩ := bind_eq_ok.mp run
    simp only at run
    split at run
    · obtain ⟨next, recorded, run⟩ := bind_eq_ok.mp run
      exact .trans (recordAccess_extends recorded) (ih run)
    · exact ih run

theorem recordPath_extends {s t : Scope} {n : Node} (run : u.recordPath n s = .ok t) : Extends modules s t := by
  obtain ⟨segments, -, run⟩ := bind_eq_ok.mp run
  cases segments with
  | none =>
    cases run
    exact .refl s
  | some segments => exact recordAccess_extends run

/-- The imports of a use tree, be it a single path or not. -/
def importsAt (u : SourceUnit) (base : ModulePath) (n : Node) (s : Scope) : Except Fault (Scope × List Import) :=
  if UseShape.ofKind n.kind == .leaf then do
    let t ← u.visit .path n s
    return (t, [← u.importLeaf base n])
  else u.imports base n s

theorem importsIn_cons (base : ModulePath) (pick : Tag → Bool) (reach : Reach) (n : Node) (rest : List Node) (s : Scope) :
    u.importsIn base pick reach (n :: rest) s =
      if !pick n.toTag then u.importsIn base pick reach rest s
      else u.importsAt base n s >>= fun found =>
        match reach with
        | .first => .ok found
        | .all => u.importsIn base pick .all rest found.1 >>= fun more => .ok (more.1, found.2 ++ more.2) := by
  rw [importsIn, importsAt]
  cases reach <;> cases pick n.toTag <;> cases UseShape.ofKind n.kind == .leaf <;> simp

mutual

/-- Reading a node takes steps of building; it adds modules only if there is one at or below the node. -/
theorem visit_extends : ∀ (n : Node) (position : Position) (s t : Scope), (modules = false → n.moduleFree = true) →
    u.visit position n s = .ok t → Extends modules s t
  | ⟨tag, children⟩, position, s, t, free, run => by
    have below : modules = false → Node.moduleFreeIn children = true := by
      intro none
      have := free none
      simp only [Node.moduleFree, Bool.and_eq_true] at this
      exact this.2
    cases position with
    | item =>
      simp only [visit] at run
      cases rule : Rule.ofKind tag.kind with
      | skip => simp only [rule] at run; cases run; exact .refl s
      | name =>
        simp only [rule] at run
        obtain ⟨text, -, run⟩ := bind_eq_ok.mp run
        exact recordAccess_extends run
      | path =>
        simp only [rule] at run
        obtain ⟨next, first, run⟩ := bind_eq_ok.mp run
        exact .trans (visitIn_extends children _ _ s next below first) (recordPath_extends run)
      | call => simp only [rule] at run; exact visitIn_extends children _ _ s t below run
      | definition =>
        simp only [rule] at run
        exact .trans (.macros s) (visitIn_extends children _ _ _ t below run)
      | module =>
        simp only [rule] at run
        obtain ⟨name, -, run⟩ := bind_eq_ok.mp run
        obtain ⟨body, built, run⟩ := bind_eq_ok.mp run
        cases run
        have allowed : modules = true := by
          by_contra none
          have := free (by simpa using none)
          simp [Node.moduleFree, ruleOfKind_eq_module.mp rule] at this
        exact .module s name allowed (visitIn_extends children _ _ _ body below built)
      | function =>
        simp only [rule] at run
        obtain ⟨name, -, run⟩ := bind_eq_ok.mp run
        obtain ⟨body, built, run⟩ := bind_eq_ok.mp run
        cases run
        exact .generic s (some name) (visitIn_extends children _ _ _ body below built)
      | implementation =>
        simp only [rule] at run
        obtain ⟨body, built, run⟩ := bind_eq_ok.mp run
        cases run
        exact .generic s none (visitIn_extends children _ _ _ body below built)
      | block =>
        simp only [rule] at run
        obtain ⟨body, built, run⟩ := bind_eq_ok.mp run
        cases run
        exact .block s (visitIn_extends children _ _ _ body below built)
      | type =>
        simp only [rule] at run
        split at run
        · obtain ⟨name, -, run⟩ := bind_eq_ok.mp run
          exact .trans (.type s name) (visitIn_extends children _ _ _ t below run)
        · exact visitIn_extends children _ _ s t below run
      | trait =>
        simp only [rule] at run
        obtain ⟨name, -, run⟩ := bind_eq_ok.mp run
        obtain ⟨body, built, run⟩ := bind_eq_ok.mp run
        cases run
        exact .trans (.type s name) (.generic _ (some name) (visitIn_extends children _ _ _ body below built))
      | owner => simp only [rule] at run; cases run
      | use =>
        simp only [rule] at run
        split at run
        · obtain ⟨⟨next, list⟩, first, run⟩ := bind_eq_ok.mp run
          cases run
          exact .trans (importsIn_extends children _ _ _ s next list below first) (.imports next list)
        · cases run
          exact .refl s
      | closure => simp only [rule] at run; exact visitIn_extends children _ _ s t below run
      | pattern => simp only [rule] at run; exact visitIn_extends children _ _ s t below run
      | plain => simp only [rule] at run; exact visitIn_extends children _ _ s t below run
    | body => exact visitIn_extends children _ _ s t below run
    | pattern =>
      simp only [visit] at run
      split at run
      · cases run
        exact .refl s
      · split at run
        · cases run
          exact .refl s
        · obtain ⟨text, -, run⟩ := bind_eq_ok.mp run
          exact recordAccess_extends run
      · obtain ⟨next, first, run⟩ := bind_eq_ok.mp run
        exact .trans (visitIn_extends children _ _ s next below first) (recordPath_extends run)
      · exact visitIn_extends children _ _ s t below run
      · exact visitIn_extends children _ _ s t below run
    | path =>
      simp only [visit] at run
      split at run
      · cases run
        exact .refl s
      · exact visitIn_extends children _ _ s t below run
      · obtain ⟨next, first, run⟩ := bind_eq_ok.mp run
        exact .trans (visitIn_extends children _ _ s next below first) (visitIn_extends children _ _ next t below run)
      · exact visitIn_extends children _ _ s t below run
    | parameters => exact visitIn_extends children _ _ s t below run
    | parameter =>
      simp only [visit] at run
      split at run
      · obtain ⟨text, -, run⟩ := bind_eq_ok.mp run
        cases run
        exact .type s text
      · split at run
        · cases run
          exact .refl s
        · exact visitIn_extends children _ _ s t below run
    | macroRule => exact visitIn_extends children _ _ s t below run
    | tokens => exact recordRuns_extends _ run
termination_by structural n => n

theorem visitIn_extends : ∀ (nodes : List Node) (positionOf : Tag → Option Position) (reach : Reach) (s t : Scope),
    (modules = false → Node.moduleFreeIn nodes = true) → u.visitIn positionOf reach nodes s = .ok t → Extends modules s t
  | [], _, _, s, _, _, run => by
    cases run
    exact .refl s
  | n :: rest, positionOf, reach, s, t, free, run => by
    have here : modules = false → n.moduleFree = true := fun none => by
      have := free none
      simp only [Node.moduleFreeIn, Bool.and_eq_true] at this
      exact this.1
    have later : modules = false → Node.moduleFreeIn rest = true := fun none => by
      have := free none
      simp only [Node.moduleFreeIn, Bool.and_eq_true] at this
      exact this.2
    rw [visitIn] at run
    split at run
    · exact visitIn_extends rest _ _ s t later run
    · obtain ⟨next, first, run⟩ := bind_eq_ok.mp run
      refine .trans (visit_extends n _ s next here first) ?_
      cases reach with
      | first =>
        cases run
        exact .refl _
      | all => exact visitIn_extends rest _ _ next t later run
termination_by structural l => l

theorem imports_extends : ∀ (n : Node) (base : ModulePath) (s t : Scope) (list : List Import),
    (modules = false → n.moduleFree = true) → u.imports base n s = .ok (t, list) → Extends modules s t
  | ⟨tag, children⟩, base, s, t, list, free, run => by
    have below : modules = false → Node.moduleFreeIn children = true := by
      intro none
      have := free none
      simp only [Node.moduleFree, Bool.and_eq_true] at this
      exact this.2
    simp only [imports] at run
    split at run
    · exact importsIn_extends children _ _ _ s t list below run
    · obtain ⟨next, first, run⟩ := bind_eq_ok.mp run
      obtain ⟨inner, -, run⟩ := bind_eq_ok.mp run
      exact .trans (visitIn_extends children _ _ s next below first) (importsIn_extends children _ _ _ next t list below run)
    · obtain ⟨next, first, run⟩ := bind_eq_ok.mp run
      obtain ⟨inner, -, run⟩ := bind_eq_ok.mp run
      cases run
      exact visitIn_extends children _ _ s _ below first
    · split at run
      · cases run
      · obtain ⟨next, first, run⟩ := bind_eq_ok.mp run
        obtain ⟨path, -, run⟩ := bind_eq_ok.mp run
        obtain ⟨name, -, run⟩ := bind_eq_ok.mp run
        cases run
        exact visitIn_extends children _ _ s _ below first
    · cases run
      exact .refl s
termination_by structural n => n

theorem importsIn_extends : ∀ (nodes : List Node) (base : ModulePath) (pick : Tag → Bool) (reach : Reach) (s t : Scope)
    (list : List Import), (modules = false → Node.moduleFreeIn nodes = true) →
      u.importsIn base pick reach nodes s = .ok (t, list) → Extends modules s t
  | [], _, _, _, s, _, _, _, run => by
    cases run
    exact .refl s
  | n :: rest, base, pick, reach, s, t, list, free, run => by
    have here : modules = false → n.moduleFree = true := fun none => by
      have := free none
      simp only [Node.moduleFreeIn, Bool.and_eq_true] at this
      exact this.1
    have later : modules = false → Node.moduleFreeIn rest = true := fun none => by
      have := free none
      simp only [Node.moduleFreeIn, Bool.and_eq_true] at this
      exact this.2
    rw [importsIn_cons] at run
    split at run
    · exact importsIn_extends rest _ _ _ s t list later run
    · obtain ⟨⟨next, found⟩, first, run⟩ := bind_eq_ok.mp run
      have step : Extends modules s next := by
        unfold importsAt at first
        split at first
        · obtain ⟨visited, path, first⟩ := bind_eq_ok.mp first
          obtain ⟨leaf, -, first⟩ := bind_eq_ok.mp first
          cases first
          exact visit_extends n _ s _ here path
        · exact imports_extends n _ s next found here first
      apply step.trans
      cases reach with
      | first =>
        cases run
        exact .refl _
      | all =>
        obtain ⟨⟨last, more⟩, others, run⟩ := bind_eq_ok.mp run
        cases run
        exact importsIn_extends rest _ _ _ next _ more later others
termination_by structural l => l

end

/-- The scope of a unit holds items of known kinds. -/
theorem scope_known {s : Scope} (built : u.scope = .ok s) : everywhere Scope.known s = true := by
  have extends_ : Extends true .empty s := visit_extends u.root .body .empty s (fun none => by cases none) built
  exact extends_.known rfl

end SourceUnit

end CrateFold
