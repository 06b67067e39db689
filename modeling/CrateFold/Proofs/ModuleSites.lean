import CrateFold.Inline.Declaration
import CrateFold.Proofs.Locality

/-!
The modules of a tree and where they stand. `SourceUnit.sites` lists the module nodes that a walk through
named nodes meets, each with its path, the modules around it and whether it stands in a node that another
walk does not look into. Reading the tree for scopes goes by fields and kinds, and finds the same modules
under the same paths if modules stand only where items are read (`Node.modulesInPlace`): the bodies of the
scope tree are those of the sites, in order (`filing_sites`).
-/
namespace CrateFold

/-! ### Reading the parts of a node -/

/-- The rules by which the children of a node are read one by one. -/
def Rule.passes : Rule → Bool
  | .plain | .block | .function | .implementation | .trait => true
  | _ => false

/-- The positions of the children of a node at a position if all of them are read, whatever they are. -/
def Position.inside (position : Position) (kind : String) : Option (Tag → Option Position) :=
  let rule := Rule.ofKind kind
  if !rule.passes then none
  else match position with
    | .item => some (if rule == .plain || rule == .block then childPosition kind else ownerPosition)
    | .body => some (childPosition kind)
    | .pattern => some patternPosition
    | .parameters => some (namedPosition .parameter)
    | .parameter =>
      if ["lifetime", "lifetime_parameter", "attribute_item", "metavariable"].contains kind then none
      else some (parameterPosition kind)
    | _ => none

/-- The rule by which a node at a position makes a scope of its own. -/
def Position.rule (position : Position) (kind : String) : Rule := if position == .item then Rule.ofKind kind else .plain

/-- What a node makes of what its children hold: the same, or a scope of its own. -/
def Rule.shell (rule : Rule) (name : Option String) (body : Scope) : Scope :=
  match rule with
  | .block => ⟨[.block body], [], false⟩
  | .function | .implementation => ⟨[.generic name body], [], false⟩
  | .trait => ⟨[.type (name.getD ""), .generic name body], [], false⟩
  | _ => body

/-- The name that a rule reads among children. -/
def SourceUnit.ownName (u : SourceUnit) (rule : Rule) (children : List Node) : Except Fault (Option String) :=
  match rule with
  | .function | .trait => some <$> u.nameOf (children.find? (·.fills "name"))
  | _ => .ok none

/-- A choice of positions for named nodes. -/
def NamedOnly (positionOf : Tag → Option Position) : Prop := ∀ t position, positionOf t = some position → t.named = true

theorem namedOnly_ifNamed (choice : Tag → Option Position) : NamedOnly (fun t => t.ifNamed (choice t)) := by
  intro t position found
  simp only [Tag.ifNamed] at found
  split at found
  · assumption
  · cases found

theorem namedOnly_childPosition (kind : String) : NamedOnly (childPosition kind) := namedOnly_ifNamed _

variable {position : Position} {kind : String} {positionOf : Tag → Option Position}

/-- A node whose children are read one by one is no module, and only named children are read. -/
theorem inside_eq_some (inside : position.inside kind = some positionOf) :
    (Rule.ofKind kind).passes = true ∧ kind ≠ "mod_item" ∧ NamedOnly positionOf := by
  unfold Position.inside at inside
  simp only at inside
  split at inside
  · cases inside
  · next passes =>
    have known : (Rule.ofKind kind).passes = true := by simpa using passes
    refine ⟨known, ?_, ?_⟩
    · rintro rfl
      exact absurd known (by decide)
    · split at inside
      · cases inside
        split
        · exact namedOnly_ifNamed _
        · exact namedOnly_ifNamed _
      · cases inside
        exact namedOnly_ifNamed _
      · cases inside
        exact namedOnly_ifNamed _
      · cases inside
        exact namedOnly_ifNamed _
      · split at inside
        · cases inside
        · cases inside
          exact namedOnly_ifNamed _
      · cases inside

@[simp] theorem Rule.shell_plain (name : Option String) : Rule.plain.shell name = id := rfl

/-- Reading a node whose children are read one by one. -/
theorem SourceUnit.visit_inside (u : SourceUnit) (tag : Tag) (children : List Node)
    (inside : position.inside tag.kind = some positionOf) :
    u.visit position ⟨tag, children⟩ .empty = u.ownName (position.rule tag.kind) children >>= fun name =>
      (position.rule tag.kind).shell name <$> u.visitIn positionOf .all children .empty := by
  unfold Position.inside at inside
  simp only at inside
  split at inside
  · cases inside
  · next passes =>
    cases position with
    | item =>
      simp only [Position.rule, visit, beq_self_eq_true, if_true]
      cases rule : Rule.ofKind tag.kind with
      | plain =>
        simp only [rule, beq_self_eq_true, Bool.true_or, if_true, Option.some.injEq] at inside
        subst inside
        simp [ownName]
      | block =>
        simp only [rule, beq_self_eq_true, Bool.or_true, if_true, Option.some.injEq] at inside
        subst inside
        rfl
      | function =>
        rw [rule] at inside
        cases inside
        simp only [ownName]
        cases u.nameOf (children.find? (·.fills "name")) <;> rfl
      | implementation =>
        rw [rule] at inside
        cases inside
        rfl
      | trait =>
        rw [rule] at inside
        cases inside
        simp only [ownName]
        cases u.nameOf (children.find? (·.fills "name")) <;> rfl
      | _ => exact absurd passes (by simp [rule, Rule.passes])
    | body =>
      cases inside
      simp [Position.rule, visit, ownName]
    | pattern =>
      cases inside
      cases rule : Rule.ofKind tag.kind with
      | plain => simp [Position.rule, visit, ownName, rule]
      | block => simp [Position.rule, visit, ownName, rule]
      | function => simp [Position.rule, visit, ownName, rule]
      | implementation => simp [Position.rule, visit, ownName, rule]
      | trait => simp [Position.rule, visit, ownName, rule]
      | _ => exact absurd passes (by simp [rule, Rule.passes])
    | parameters =>
      cases inside
      simp [Position.rule, visit, ownName]
    | parameter =>
      simp only at inside
      split at inside
      · cases inside
      · next read =>
        cases inside
        have other : tag.kind ≠ "type_identifier" := by
          intro same
          rw [same] at passes
          exact passes (by decide)
        simp only [Position.rule, visit, beq_iff_eq, other, if_false, read]
        simp [ownName]
    | _ => cases inside

/-! ### Modules in place -/

mutual

/-- Whether modules at and below a node at a position stand only where items are read, below nodes whose children are
read one by one and below the bodies of modules. -/
def Node.modulesInPlace (position : Position) : Node → Bool
  | ⟨tag, children⟩ =>
    if position == .item && tag.kind == "mod_item" then Node.modulesInBody children
    else match position.inside tag.kind with
      | some positionOf => Node.modulesAmong positionOf children
      | none => tag.kind != "mod_item" && Node.moduleFreeIn children
termination_by structural n => n

/-- Whether modules at and below siblings stand only where items are read. -/
def Node.modulesAmong (positionOf : Tag → Option Position) : List Node → Bool
  | [] => true
  | n :: rest =>
    (match positionOf n.toTag with
      | some position => n.modulesInPlace position
      | none => !n.named || n.moduleFree) && Node.modulesAmong positionOf rest
termination_by structural l => l

/-- Whether modules below the parts of a module stand only in its body, where items are read. -/
def Node.modulesInBody : List Node → Bool
  | [] => true
  | n :: rest =>
    if n.fills "body" then n.modulesBelow && Node.moduleFreeIn rest
    else n.moduleFree && Node.modulesInBody rest
termination_by structural l => l

/-- Whether modules below a body stand only where items are read. -/
def Node.modulesBelow : Node → Bool
  | ⟨tag, children⟩ => Node.modulesAmong (childPosition tag.kind) children
termination_by structural n => n

end

/-! ### Sites -/

/-- A place in a tree: the module it is in, the modules around it other than the crate root, the innermost first, and
whether it is in a node that is not looked into. -/
structure Spot where
  module : ModulePath
  around : List ModulePath := []
  sealed : Bool := false

/-- A module node with the named siblings before it, the path of the module, and where the node stands. -/
structure Site where
  placed : Placed
  path : ModulePath
  spot : Spot

/-- A place in the given module at a place. -/
def Spot.enter (s : Spot) (path : ModulePath) : Spot := { s with module := path, around := path :: s.around }

/-- A place in a node at a place, if nodes of the given kinds are not looked into. -/
def Spot.into (s : Spot) (kinds : List String) (kind : String) : Spot := { s with sealed := s.sealed || kinds.contains kind }

namespace SourceUnit

/-- The path of a module node in the module `outer`. -/
def entered (u : SourceUnit) (outer : ModulePath) (children : List Node) : ModulePath :=
  match u.nameOf (children.find? (·.fills "name")) with
  | .ok name => outer.enter name
  | .error _ => outer

mutual

/-- The modules at and below a node, given the named siblings before it. -/
def sitesAt (u : SourceUnit) (kinds : List String) (spot : Spot) (earlier : List Node) : Node → List Site
  | ⟨tag, children⟩ =>
    if !tag.named then []
    else if tag.kind == "mod_item" then
      let path := u.entered spot.module children
      ⟨⟨⟨tag, children⟩, earlier⟩, path, spot⟩ :: u.sitesInBody kinds (spot.enter path) children
    else u.sitesIn kinds (spot.into kinds tag.kind) [] children
termination_by structural n => n

/-- The modules at and below siblings, given the named siblings before them. -/
def sitesIn (u : SourceUnit) (kinds : List String) (spot : Spot) (earlier : List Node) : List Node → List Site
  | [] => []
  | n :: rest => u.sitesAt kinds spot earlier n ++ u.sitesIn kinds spot (n.after earlier) rest
termination_by structural l => l

/-- The modules below the first sibling that is a body. -/
def sitesInBody (u : SourceUnit) (kinds : List String) (spot : Spot) : List Node → List Site
  | [] => []
  | n :: rest => if n.fills "body" then u.sitesBelow kinds spot n else u.sitesInBody kinds spot rest
termination_by structural l => l

/-- The modules below a node. -/
def sitesBelow (u : SourceUnit) (kinds : List String) (spot : Spot) : Node → List Site
  | ⟨_, children⟩ => u.sitesIn kinds spot [] children
termination_by structural n => n

end

/-- The modules of a unit, in source order, a module before those in it; nodes of the given kinds are not
looked into by another walk. -/
def sites (u : SourceUnit) (kinds : List String) : List Site := u.sitesBelow kinds ⟨.crate, [], false⟩ u.root

/-- Whether a module node has a name. -/
def isNamed (u : SourceUnit) (site : Site) : Bool :=
  match u.nameOf (site.placed.node.child? "name") with
  | .ok name => ModulePath.isModuleName name
  | .error _ => false

/-- The scope of the body of a module node, empty if there is none. -/
def bodyScope (u : SourceUnit) (n : Node) : Except Fault Scope :=
  u.visitIn (fieldPosition "body" .body) .first n.children .empty

/-- What is filed for a module: its body under its path. -/
def filing (u : SourceUnit) (site : Site) : Except Fault (ModulePath × Scope) := do
  return (site.path, ← u.bodyScope site.placed.node)

/-! ### Reading the modules of a tree -/

mutual

theorem sitesAt_of_moduleFree (u : SourceUnit) (kinds : List String) : ∀ (n : Node) (spot : Spot) (earlier : List Node),
    n.moduleFree = true → u.sitesAt kinds spot earlier n = []
  | ⟨tag, children⟩, spot, earlier, free => by
    simp only [Node.moduleFree, Bool.and_eq_true, bne_iff_ne] at free
    cases named : tag.named with
    | false => simp [sitesAt, named]
    | true => simp [sitesAt, named, free.1, sitesIn_of_moduleFree u kinds children _ [] free.2]
termination_by structural n => n

theorem sitesIn_of_moduleFree (u : SourceUnit) (kinds : List String) : ∀ (nodes : List Node) (spot : Spot)
    (earlier : List Node), Node.moduleFreeIn nodes = true → u.sitesIn kinds spot earlier nodes = []
  | [], _, _, _ => rfl
  | n :: rest, spot, earlier, free => by
    simp only [Node.moduleFreeIn, Bool.and_eq_true] at free
    rw [sitesIn, sitesAt_of_moduleFree u kinds n spot earlier free.1, sitesIn_of_moduleFree u kinds rest spot _ free.2]
    rfl
termination_by structural l => l

end

/-- What is read of the modules of `sites` in the module `path`: the modules of the scope are filed under the paths of
the sites, in order, and have names if the sites have. -/
structure Yields (u : SourceUnit) (path : ModulePath) (sites : List Site) (s : Scope) : Prop where
  filed : sites.mapM u.filing = .ok (ModuleMap.filings path s)
  named : (∀ site ∈ sites, u.isNamed site = true) → Scope.everywhere Scope.wellNamed s = true

variable {u : SourceUnit} {path : ModulePath} {sites more : List Site} {s t : Scope}

theorem yields_empty : u.Yields path [] .empty := ⟨rfl, fun _ => rfl⟩

/-- A node without a module in it yields what has no module in it. -/
theorem yields_of_extends (built : Scope.Extends false .empty s) : u.Yields path [] s := by
  refine ⟨?_, fun _ => built.wellNamed rfl⟩
  obtain ⟨added, items, nothing⟩ := built.moduleFree
  have same : s.items = added := by simpa [Scope.empty] using items
  rw [ModuleMap.filings_eq, same, nothing]
  rfl

theorem Yields.absorb (one : u.Yields path sites s) (two : u.Yields path more t) :
    u.Yields path (sites ++ more) (s.absorb t) := by
  have first := one.filed
  have second := two.filed
  refine ⟨?_, fun names => ?_⟩
  · simp only [ModuleMap.filings_eq] at first second ⊢
    simp [List.mapM_append, first, second, ModuleMap.filingsIn_append, Scope.absorb]
  · obtain ⟨here, deeper⟩ := Scope.everywhere_iff.mp (one.named fun site member => names site (by simp [member]))
    obtain ⟨later, further⟩ := Scope.everywhere_iff.mp (two.named fun site member => names site (by simp [member]))
    simp only [Scope.wellNamed] at here later
    refine Scope.everywhere_iff.mpr ⟨?_, ?_⟩
    · simp [Scope.wellNamed, Scope.absorb, here, later]
    · simp [Scope.absorb, Scope.everywhereIn_append, deeper, further]

/-- A scope without a name holds the modules of its parts. -/
theorem Yields.shell (rule : Rule) (name : Option String) (body : u.Yields path sites s) :
    u.Yields path sites (rule.shell name s) := by
  have filings : ModuleMap.filings path (rule.shell name s) = ModuleMap.filings path s := by
    cases rule <;> simp [Rule.shell, ModuleMap.filings, ModuleMap.filingsIn, ModuleMap.filingsAt]
  have named : Scope.everywhere Scope.wellNamed (rule.shell name s) = Scope.everywhere Scope.wellNamed s := by
    cases rule <;>
      simp [Rule.shell, Scope.everywhere, Scope.everywhereIn, Scope.everywhereAt, Scope.wellNamed, Item.isNamed]
  refine ⟨?_, ?_⟩
  · rw [filings]
    exact body.filed
  · rw [named]
    exact body.named

/-- A module is filed under its own path, before the modules of its body. -/
theorem Yields.module {n : Node} {earlier : List Node} {spot : Spot} {name : String}
    (text : u.nameOf (n.child? "name") = .ok name) (read : u.bodyScope n = .ok s)
    (body : u.Yields (path.enter name) sites s) :
    u.Yields path (⟨⟨n, earlier⟩, path.enter name, spot⟩ :: sites) (Scope.empty.addItem (.module name s)) := by
  refine ⟨?_, fun names => ?_⟩
  · have inner := body.filed
    simp [ModuleMap.filings, ModuleMap.filingsIn, ModuleMap.filingsAt, Scope.addItem, Scope.empty, filing, read, inner]
  · have here : ModulePath.isModuleName name = true := by
      simpa [isNamed, text] using names _ (List.mem_cons_self ..)
    have deeper := body.named fun site member => names site (by simp [member])
    simp [Scope.everywhere, Scope.everywhereIn, Scope.everywhereAt, Scope.wellNamed, Item.isNamed, Scope.addItem,
      Scope.empty, here, deeper]

mutual

/-- Reading a node finds the modules at and below it. -/
theorem visit_yields (kinds : List String) : ∀ (n : Node) (position : Position) (spot : Spot) (earlier : List Node)
    (s : Scope), n.modulesInPlace position = true → n.named = true → u.visit position n .empty = .ok s →
      u.Yields spot.module (u.sitesAt kinds spot earlier n) s
  | ⟨tag, children⟩, position, spot, earlier, s, place, named, run => by
    have isNamed : tag.named = true := named
    simp only [Node.modulesInPlace] at place
    split at place
    · next module =>
      simp only [Bool.and_eq_true, beq_iff_eq] at module
      obtain ⟨rfl, module⟩ := module
      simp only [visit, ruleOfKind_eq_module.mpr module] at run
      obtain ⟨name, text, run⟩ := bind_eq_ok.mp run
      obtain ⟨body, read, run⟩ := bind_eq_ok.mp run
      cases run
      have path : u.entered spot.module children = spot.module.enter name := by simp only [entered, text]
      have inner := visitBody_yields kinds children (spot.enter (spot.module.enter name)) body place read
      simp only [sitesAt, isNamed, module, path, Bool.not_true, Bool.false_eq_true, if_false, beq_self_eq_true, if_true]
      exact Yields.module text read inner
    · split at place
      · next positionOf inside =>
        obtain ⟨-, other, namedOnly⟩ := inside_eq_some inside
        rw [u.visit_inside tag children inside] at run
        obtain ⟨name, -, run⟩ := bind_eq_ok.mp run
        obtain ⟨body, read, rfl⟩ := map_eq_ok.mp run
        simp only [sitesAt, isNamed, other, Bool.not_true, Bool.false_eq_true, if_false, beq_iff_eq]
        exact (visitIn_yields kinds children positionOf namedOnly (spot.into kinds tag.kind) [] body place read).shell _ name
      · have free : (⟨tag, children⟩ : Node).moduleFree = true := place
        rw [sitesAt_of_moduleFree u kinds _ spot earlier free]
        exact yields_of_extends (visit_extends _ position .empty s (fun _ => free) run)
termination_by structural n => n

theorem visitIn_yields (kinds : List String) : ∀ (nodes : List Node) (positionOf : Tag → Option Position),
    NamedOnly positionOf → ∀ (spot : Spot) (earlier : List Node) (s : Scope),
      Node.modulesAmong positionOf nodes = true → u.visitIn positionOf .all nodes .empty = .ok s →
        u.Yields spot.module (u.sitesIn kinds spot earlier nodes) s
  | [], _, _, _, _, _, _, run => by
    cases run
    exact yields_empty
  | n :: rest, positionOf, namedOnly, spot, earlier, s, place, run => by
    simp only [Node.modulesAmong, Bool.and_eq_true] at place
    have later := fun s => visitIn_yields kinds rest positionOf namedOnly spot (n.after earlier) s place.2
    rw [sitesIn]
    rw [visitIn_cons] at run
    cases found : positionOf n.toTag with
    | none =>
      simp only [found, Bool.or_eq_true, Bool.not_eq_true'] at place run
      have none : u.sitesAt kinds spot earlier n = [] := by
        rcases place.1 with unnamed | free
        · cases n
          simp_all [sitesAt]
        · exact sitesAt_of_moduleFree u kinds n spot earlier free
      rw [none]
      exact later s run
    | some position =>
      simp only [found] at place run
      obtain ⟨first, here, run⟩ := bind_eq_ok.mp run
      obtain ⟨others, after, rfl⟩ := map_eq_ok.mp run
      exact (visit_yields kinds n position spot earlier first place.1 (namedOnly _ _ found) here).absorb (later others after)
termination_by structural l => l

theorem visitBody_yields (kinds : List String) : ∀ (nodes : List Node) (spot : Spot) (body : Scope),
    Node.modulesInBody nodes = true → u.visitIn (fieldPosition "body" .body) .first nodes .empty = .ok body →
      u.Yields spot.module (u.sitesInBody kinds spot nodes) body
  | [], _, _, _, run => by
    cases run
    exact yields_empty
  | n :: rest, spot, body, place, run => by
    rw [visitIn] at run
    cases fills : n.toTag.fills "body" with
    | true =>
      simp only [Node.modulesInBody, fills, if_true, Bool.and_eq_true] at place
      simp only [fieldPosition, fills, if_true] at run
      obtain ⟨next, first, run⟩ := bind_eq_ok.mp run
      cases run
      simp only [sitesInBody, fills, if_true]
      exact visitBelow_yields kinds n spot body place.1 first
    | false =>
      simp only [Node.modulesInBody, fills, Bool.false_eq_true, if_false, Bool.and_eq_true] at place
      simp only [fieldPosition, fills, Bool.false_eq_true, if_false] at run
      simp only [sitesInBody, fills, Bool.false_eq_true, if_false]
      exact visitBody_yields kinds rest spot body place.2 run
termination_by structural l => l

theorem visitBelow_yields (kinds : List String) : ∀ (n : Node) (spot : Spot) (s : Scope), n.modulesBelow = true →
    u.visit .body n .empty = .ok s → u.Yields spot.module (u.sitesBelow kinds spot n) s
  | ⟨tag, children⟩, spot, s, place, run =>
    visitIn_yields kinds children _ (namedOnly_childPosition tag.kind) spot [] s place run
termination_by structural n => n

end

/-- The bodies of the scope tree of a unit are those of its sites, under the same paths and in the same order;
if the sites have names, all modules of the tree have. -/
theorem filing_sites (kinds : List String) (place : u.root.modulesBelow = true) (built : u.scope = .ok s) :
    (u.sites kinds).mapM u.filing = .ok (ModuleMap.filings .crate s) ∧
      ((∀ site ∈ u.sites kinds, u.isNamed site = true) → Scope.everywhere Scope.wellNamed s = true) := by
  have yields := visitBelow_yields kinds u.root ⟨.crate, [], false⟩ s place built
  exact ⟨yields.filed, yields.named⟩

end SourceUnit

end CrateFold
