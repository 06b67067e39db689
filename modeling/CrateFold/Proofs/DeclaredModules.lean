import CrateFold.Proofs.Grafting
import CrateFold.Proofs.Pruning
import CrateFold.Proofs.Ranges

/-!
The modules that a unit declares. They are the modules without a body that are found from the top of the
tree through named nodes in which declarations can stand, and through the bodies of modules
(`mem_declaredModules`). If all modules have names, the declarations read are those of these modules, in
order (`declarations_eq`); if the ranges of the tree are ordered and nested, so are their semicolons
(`run_gaps`).
-/
namespace CrateFold

/-! ### Modules found -/

/-- Whether a module has no body and stands where declarations are looked for. -/
def Site.declared (site : Site) : Bool :=
  !site.spot.sealed && !site.placed.node.children.any (·.fills "body")

namespace SourceUnit

/-- The modules that the unit declares as the body of `module`, in source order. -/
def declaredModules (u : SourceUnit) (module : ModulePath) : List Site :=
  (u.sitesBelow undeclaringKinds ⟨module, [], false⟩ u.root).filter Site.declared

/-- A module without a body is found at or below siblings in the module `outer`, with its path: among them, below a
named one that is no module and in which declarations can stand, or in the body of a module among them. -/
inductive Finds (u : SourceUnit) (p : Placed) (path : ModulePath) : ModulePath → List Node → List Node → Prop where
  | here {outer : ModulePath} {earlier rest : List Node} (named : p.node.named = true) (module : p.node.kind = "mod_item")
      (bodiless : p.node.child? "body" = none) (same : p.earlier = earlier)
      (entered : u.entered outer p.node.children = path) : Finds u p path outer earlier (p.node :: rest)
  | next {outer : ModulePath} {n : Node} {earlier rest : List Node} (later : Finds u p path outer (n.after earlier) rest) :
      Finds u p path outer earlier (n :: rest)
  | down {outer : ModulePath} {n : Node} {earlier rest : List Node} (named : n.named = true) (other : n.kind ≠ "mod_item")
      (looked : n.kind ∉ undeclaringKinds) (below : Finds u p path outer [] n.children) :
      Finds u p path outer earlier (n :: rest)
  | inside {outer : ModulePath} {n body : Node} {earlier rest : List Node} (named : n.named = true)
      (module : n.kind = "mod_item") (there : n.child? "body" = some body)
      (below : Finds u p path (u.entered outer n.children) [] body.children) : Finds u p path outer earlier (n :: rest)

variable {u v : SourceUnit} {kinds : List String} {p : Placed} {path outer : ModulePath} {earlier nodes : List Node}

theorem any_body_iff {children : List Node} : children.any (·.fills "body") = false ↔
    children.find? (·.fills "body") = none := by
  rw [List.find?_eq_none, List.any_eq_false]

mutual

theorem finds_of_sitesAt : ∀ (n : Node) (spot : Spot) (earlier rest : List Node), spot.sealed = false →
    ∀ site ∈ u.sitesAt undeclaringKinds spot earlier n, site.declared = true →
      u.Finds site.placed site.path spot.module earlier (n :: rest)
  | ⟨tag, children⟩, spot, earlier, rest, looked, site, member, declared => by
    rw [sitesAt] at member
    by_cases named : tag.named = true
    · by_cases module : tag.kind = "mod_item"
      · simp only [named, module, Bool.not_true, Bool.false_eq_true, if_false, beq_self_eq_true, if_true] at member
        rcases List.mem_cons.mp member with rfl | inner
        · simp only [Site.declared, Bool.and_eq_true, Bool.not_eq_true'] at declared
          exact .here named module (any_body_iff.mp declared.2) rfl rfl
        · obtain ⟨body, there, below⟩ := finds_of_sitesInBody children _ (by exact looked) site inner declared
          exact .inside named module there below
      · simp only [named, module, Bool.not_true, Bool.false_eq_true, if_false, beq_iff_eq] at member
        by_cases undeclaring : tag.kind ∈ undeclaringKinds
        · have closed := sealed_sitesIn children (spot.into undeclaringKinds tag.kind) []
            (by simp [Spot.into, undeclaring]) site member
          simp [Site.declared, closed] at declared
        · refine .down named module undeclaring ?_
          exact finds_of_sitesIn children (spot.into undeclaringKinds tag.kind) [] (by simp [Spot.into, looked, undeclaring])
            site member declared
    · simp [named] at member
termination_by structural n => n

theorem finds_of_sitesIn : ∀ (nodes : List Node) (spot : Spot) (earlier : List Node), spot.sealed = false →
    ∀ site ∈ u.sitesIn undeclaringKinds spot earlier nodes, site.declared = true →
      u.Finds site.placed site.path spot.module earlier nodes
  | [], _, _, _, _, member, _ => by cases member
  | n :: rest, spot, earlier, looked, site, member, declared => by
    rcases List.mem_append.mp member with here | later
    · exact finds_of_sitesAt n spot earlier rest looked site here declared
    · exact .next (finds_of_sitesIn rest spot _ looked site later declared)
termination_by structural l => l

theorem finds_of_sitesInBody : ∀ (nodes : List Node) (spot : Spot), spot.sealed = false →
    ∀ site ∈ u.sitesInBody undeclaringKinds spot nodes, site.declared = true →
      ∃ body, nodes.find? (·.fills "body") = some body ∧ u.Finds site.placed site.path spot.module [] body.children
  | [], _, _, _, member, _ => by cases member
  | n :: rest, spot, looked, site, member, declared => by
    rw [sitesInBody] at member
    by_cases fills : n.fills "body" = true
    · simp only [fills, if_true] at member
      exact ⟨n, by simp [fills], finds_of_sitesBelow n spot looked site member declared⟩
    · simp only [fills, Bool.false_eq_true, if_false] at member
      obtain ⟨body, there, below⟩ := finds_of_sitesInBody rest spot looked site member declared
      exact ⟨body, by simpa [fills] using there, below⟩
termination_by structural l => l

theorem finds_of_sitesBelow : ∀ (n : Node) (spot : Spot), spot.sealed = false →
    ∀ site ∈ u.sitesBelow undeclaringKinds spot n, site.declared = true →
      u.Finds site.placed site.path spot.module [] n.children
  | ⟨_, children⟩, spot, looked, site, member, declared => finds_of_sitesIn children spot [] looked site member declared
termination_by structural n => n

end

theorem Finds.mem_sitesIn (finds : u.Finds p path outer earlier nodes) : ∀ spot : Spot, spot.module = outer →
    spot.sealed = false → ∃ site ∈ u.sitesIn undeclaringKinds spot earlier nodes,
      site.declared = true ∧ site.placed = p ∧ site.path = path := by
  induction finds with
  | @here outer earlier rest named module bodiless same entered =>
    rintro spot rfl looked
    obtain ⟨⟨tag, children⟩, before⟩ := p
    cases same
    cases entered
    have bare : children.any (·.fills "body") = false := any_body_iff.mpr bodiless
    refine ⟨⟨⟨⟨tag, children⟩, before⟩, u.entered spot.module children, spot⟩, ?_, ?_, rfl, rfl⟩
    · simp only at named module
      simp [sitesIn, sitesAt, named, module]
    · simp [Site.declared, looked, bare]
  | next _ ih =>
    intro spot module looked
    obtain ⟨site, member, known⟩ := ih spot module looked
    exact ⟨site, List.mem_append_right _ member, known⟩
  | @down outer n earlier rest named other undeclaring _ ih =>
    intro spot module looked
    obtain ⟨site, member, known⟩ := ih (spot.into undeclaringKinds n.kind) module (by simp [Spot.into, looked, undeclaring])
    refine ⟨site, List.mem_append_left _ ?_, known⟩
    cases n
    simp_all [sitesAt]
  | @inside outer n body earlier rest named module there _ ih =>
    rintro spot rfl looked
    obtain ⟨site, member, known⟩ := ih (spot.enter (u.entered spot.module n.children)) rfl looked
    refine ⟨site, List.mem_append_left _ ?_, known⟩
    rw [← sitesInBody_of_find? n.children there] at member
    cases n
    simp_all [sitesAt]

/-- The modules declared are those found from the top of the tree. -/
theorem mem_declaredModules {module : ModulePath} : (∃ site ∈ u.declaredModules module, site.placed = p ∧ site.path = path) ↔
    u.Finds p path module [] u.root.children := by
  constructor
  · rintro ⟨site, member, rfl, rfl⟩
    obtain ⟨listed, declared⟩ := List.mem_filter.mp member
    exact finds_of_sitesBelow u.root ⟨module, [], false⟩ rfl site listed declared
  · intro finds
    obtain ⟨site, member, declared, known⟩ := finds.mem_sitesIn ⟨module, [], false⟩ rfl rfl
    obtain ⟨_, _, _, _⟩ := u
    exact ⟨site, List.mem_filter.mpr ⟨member, declared⟩, known⟩

/-! ### Tidy units -/

/-- Whether the name of a module node is a single segment other than `crate`. -/
def names (u : SourceUnit) (n : Node) : Bool :=
  match u.nameOf (n.child? "name") with
  | .ok name => ModulePath.isModuleName name
  | .error _ => false

/-- What is asked of a file: the ranges of its tree are ordered and nested, and its modules have names. -/
structure Tidy (u : SourceUnit) : Prop where
  ordered : u.root.ordered = true
  names : ∀ p ∈ u.root.placed [], p.node.kind = "mod_item" → u.names p.node = true

instance : Decidable u.Tidy :=
  decidable_of_iff (u.root.ordered = true ∧ ∀ p ∈ u.root.placed [], p.node.kind = "mod_item" → u.names p.node = true)
    ⟨fun ⟨ordered, names⟩ => ⟨ordered, names⟩, fun ⟨ordered, names⟩ => ⟨ordered, names⟩⟩

theorem modulePath_of_names {n : Node} (named : u.names n = true) (outer : ModulePath) :
    u.modulePath outer n.children = .ok (u.entered outer n.children) := by
  unfold names Node.child? at named
  split at named
  · next name text =>
    simp only [modulePath, entered, text, ok_bind]
    exact ModulePath.joinText_eq_enter named outer
  · cases named

/-- The declaration of a module that is declared. -/
def declarationAt (u : SourceUnit) (site : Site) : Except Fault Declaration := u.declaration site.path site.placed

/-- The declarations of the modules among sites that are declared. -/
def declarationsOf (u : SourceUnit) (sites : List Site) : List (Except Fault Declaration) :=
  (sites.filter Site.declared).map u.declarationAt

theorem declarationsOf_append (first rest : List Site) :
    u.declarationsOf (first ++ rest) = u.declarationsOf first ++ u.declarationsOf rest := by
  simp [declarationsOf]

theorem declarationsOf_sealed {sites : List Site} (closed : ∀ site ∈ sites, site.spot.sealed = true) :
    u.declarationsOf sites = [] := by
  have none : sites.filter Site.declared = [] := by
    rw [List.filter_eq_nil_iff]
    intro site member
    simp [Site.declared, closed site member]
  rw [declarationsOf, none]
  rfl

mutual

/-- The declarations read at a node are those of the modules declared there. -/
theorem declarationsAt_eq : ∀ (n : Node) (spot : Spot) (earlier : List Node), spot.sealed = false →
    (∀ p ∈ n.placed earlier, p.node.kind = "mod_item" → u.names p.node = true) →
      u.declarationsAt spot.module earlier n = u.declarationsOf (u.sitesAt undeclaringKinds spot earlier n)
  | ⟨tag, children⟩, spot, earlier, looked, names => by
    rw [declarationsAt, sitesAt]
    have inner := fun p member => names p (List.mem_cons_of_mem _ member)
    by_cases named : tag.named = true
    · by_cases module : tag.kind = "mod_item"
      · have path := modulePath_of_names (names _ (List.mem_cons_self ..) module) spot.module
        simp only [named, module, path, Bool.not_true, Bool.false_eq_true, if_false, beq_self_eq_true, if_true]
        cases given : children.any (·.fills "body") with
        | true =>
          have stays : u.declarationsOf [⟨⟨⟨tag, children⟩, earlier⟩, u.entered spot.module children, spot⟩] = [] := by
            simp [declarationsOf, Site.declared, given]
          rw [if_pos rfl, ← List.singleton_append, declarationsOf_append, stays, List.nil_append]
          exact declarationsInBody_eq children (spot.enter (u.entered spot.module children)) [] (by exact looked) inner
        | false =>
          rw [sitesInBody_eq_nil given]
          simp [declarationsOf, Site.declared, given, looked, declarationAt]
      · simp only [named, module, Bool.not_true, Bool.false_eq_true, if_false, beq_iff_eq]
        by_cases undeclaring : tag.kind ∈ undeclaringKinds
        · rw [if_pos (List.contains_iff_mem.mpr undeclaring)]
          refine (declarationsOf_sealed ?_).symm
          intro site member
          exact sealed_sitesIn children _ [] (by simp [Spot.into, undeclaring]) site member
        · rw [if_neg (fun listed => undeclaring (List.contains_iff_mem.mp listed))]
          exact declarationsIn_eq children (spot.into undeclaringKinds tag.kind) []
            (by simp [Spot.into, looked, undeclaring]) inner
    · simp [named, declarationsOf]
termination_by structural n => n

theorem declarationsIn_eq : ∀ (nodes : List Node) (spot : Spot) (earlier : List Node), spot.sealed = false →
    (∀ p ∈ Node.placedIn earlier nodes, p.node.kind = "mod_item" → u.names p.node = true) →
      u.declarationsIn spot.module earlier nodes = u.declarationsOf (u.sitesIn undeclaringKinds spot earlier nodes)
  | [], _, _, _, _ => rfl
  | n :: rest, spot, earlier, looked, names => by
    rw [declarationsIn, sitesIn, declarationsOf_append,
      declarationsAt_eq n spot earlier looked fun p member => names p (List.mem_append_left _ member),
      declarationsIn_eq rest spot _ looked fun p member => names p (List.mem_append_right _ member)]
termination_by structural l => l

theorem declarationsInBody_eq : ∀ (nodes : List Node) (spot : Spot) (earlier : List Node), spot.sealed = false →
    (∀ p ∈ Node.placedIn earlier nodes, p.node.kind = "mod_item" → u.names p.node = true) →
      u.declarationsInBody spot.module nodes = u.declarationsOf (u.sitesInBody undeclaringKinds spot nodes)
  | [], _, _, _, _ => rfl
  | n :: rest, spot, earlier, looked, names => by
    rw [declarationsInBody, sitesInBody]
    split
    · exact declarationsBelow_eq n spot earlier looked fun p member => names p (List.mem_append_left _ member)
    · exact declarationsInBody_eq rest spot _ looked fun p member => names p (List.mem_append_right _ member)
termination_by structural l => l

theorem declarationsBelow_eq : ∀ (n : Node) (spot : Spot) (earlier : List Node), spot.sealed = false →
    (∀ p ∈ n.placed earlier, p.node.kind = "mod_item" → u.names p.node = true) →
      u.declarationsBelow spot.module n = u.declarationsOf (u.sitesBelow undeclaringKinds spot n)
  | ⟨_, children⟩, spot, _, looked, names =>
    declarationsIn_eq children spot [] looked fun p member => names p (List.mem_cons_of_mem _ member)
termination_by structural n => n

end

/-- The declarations of a tidy unit are those of the modules that it declares, in order. -/
theorem Tidy.declarations_eq (tidy : u.Tidy) (module : ModulePath) :
    u.declarations module = (u.declaredModules module).map u.declarationAt :=
  declarationsBelow_eq u.root ⟨module, [], false⟩ [] rfl tidy.names

end SourceUnit

/-! ### Semicolons in order -/

/-- An edit with nothing put in place of what it cuts out. -/
def Edit.blank (edit : Edit) : Edit := { edit with replacement := [] }

/-- Whether edits are in order depends only on what they cut out. -/
theorem Edit.run_of_blank {low high : Nat} {edits : List Edit} (run : Edit.Run low high (edits.map Edit.blank)) :
    Edit.Run low high edits := by
  induction edits generalizing low with
  | nil => exact run
  | cons edit rest ih => exact ⟨run.1, run.2.1, ih run.2.2⟩

/-- The edit that cuts out a node. -/
def Tag.gap (t : Tag) : Edit := ⟨t.start, t.stop, []⟩

namespace Site

/-- The edits that cut out the semicolons of sites. -/
def gaps (sites : List Site) : List Edit := (sites.filterMap Site.semicolon?).map Tag.gap

theorem gaps_append (first rest : List Site) : gaps (first ++ rest) = gaps first ++ gaps rest := by
  simp [gaps]

theorem semicolon?_of_declared {site : Site} (declared : site.declared = true) :
    site.semicolon? = (Node.semicolon? site.placed.node.children).map Node.toTag := by
  simp only [Site.declared, Bool.and_eq_true, Bool.not_eq_true'] at declared
  simp [semicolon?, declared.1, declared.2]

theorem semicolon?_of_not_declared {site : Site} (stays : site.declared = false) : site.semicolon? = none := by
  have closed : (site.spot.sealed || site.placed.node.children.any (·.fills "body")) = true := by
    cases sealed : site.spot.sealed <;> simp_all [Site.declared]
  rw [semicolon?, if_pos closed]

/-- The modules that are not declared have no semicolon to be replaced. -/
theorem gaps_filter (sites : List Site) : gaps (sites.filter Site.declared) = gaps sites := by
  induction sites with
  | nil => rfl
  | cons site rest ih =>
    have first : gaps ([site].filter Site.declared) = gaps [site] := by
      cases declared : site.declared with
      | true => simp [declared]
      | false => simp [declared, gaps, semicolon?_of_not_declared declared]
    rw [← List.singleton_append, List.filter_append, gaps_append, gaps_append, first, ih]

end Site

namespace SourceUnit

variable {u : SourceUnit} {kinds : List String}

mutual

/-- The semicolons of the modules at a node with ordered and nested ranges are in order, within the node. -/
theorem run_gapsAt : ∀ (n : Node) (spot : Spot) (earlier : List Node), n.ordered = true →
    Edit.Run n.start n.stop (Site.gaps (u.sitesAt kinds spot earlier n))
  | ⟨tag, children⟩, spot, earlier, ordered => by
    obtain ⟨forward, below⟩ := Node.ordered_iff.mp ordered
    rw [sitesAt]
    by_cases named : tag.named = true
    · by_cases module : tag.kind = "mod_item"
      · -- a declaration has no modules in it, and any other module no semicolon
        simp only [named, module, Bool.not_true, Bool.false_eq_true, if_false, beq_self_eq_true, if_true]
        rw [← List.singleton_append, Site.gaps_append]
        cases found : Site.semicolon? ⟨⟨⟨tag, children⟩, earlier⟩, u.entered spot.module children, spot⟩ with
        | none =>
          simp only [Site.gaps, List.filterMap_cons, found, List.filterMap_nil, List.map_nil, List.nil_append]
          exact run_gapsInBody children _ tag.start tag.stop forward below
        | some semicolon =>
          obtain ⟨missing, n, last, rfl⟩ := Site.of_semicolon?_some found
          obtain ⟨above, back, fine⟩ := Node.ordered_of_mem below (Node.mem_of_semicolon? last).1
          rw [sitesInBody_eq_nil missing]
          simp only [Site.gaps, List.filterMap_cons, found, List.filterMap_nil, List.map_nil, List.map_cons, List.append_nil]
          exact ⟨above, Node.start_le_stop fine, back⟩
      · simp only [named, module, Bool.not_true, Bool.false_eq_true, if_false, beq_iff_eq]
        exact run_gapsIn children _ [] tag.start tag.stop forward below
    · simp only [named, Bool.not_false, if_true]
      exact forward
termination_by structural n => n

theorem run_gapsIn : ∀ (nodes : List Node) (spot : Spot) (earlier : List Node) (low high : Nat), low ≤ high →
    Node.orderedIn low high nodes = true → Edit.Run low high (Site.gaps (u.sitesIn kinds spot earlier nodes))
  | [], _, _, _, _, forward, _ => forward
  | n :: rest, spot, earlier, low, high, forward, ordered => by
    obtain ⟨above, back, here, later⟩ := Node.orderedIn_cons.mp ordered
    rw [sitesIn, Site.gaps_append]
    exact ((run_gapsAt n spot earlier here).mono above (Nat.le_refl _)).append (run_gapsIn rest spot _ n.stop high back later)
termination_by structural l => l

theorem run_gapsInBody : ∀ (nodes : List Node) (spot : Spot) (low high : Nat), low ≤ high →
    Node.orderedIn low high nodes = true → Edit.Run low high (Site.gaps (u.sitesInBody kinds spot nodes))
  | [], _, _, _, forward, _ => forward
  | n :: rest, spot, low, high, forward, ordered => by
    obtain ⟨above, back, here, later⟩ := Node.orderedIn_cons.mp ordered
    have range := Node.start_le_stop here
    rw [sitesInBody]
    split
    · exact (run_gapsBelow n spot here).mono above back
    · exact (run_gapsInBody rest spot n.stop high back later).mono (by omega) (Nat.le_refl _)
termination_by structural l => l

theorem run_gapsBelow : ∀ (n : Node) (spot : Spot), n.ordered = true →
    Edit.Run n.start n.stop (Site.gaps (u.sitesBelow kinds spot n))
  | ⟨tag, children⟩, spot, ordered => by
    obtain ⟨forward, below⟩ := Node.ordered_iff.mp ordered
    exact run_gapsIn children spot [] tag.start tag.stop forward below
termination_by structural n => n

end

/-- The semicolons of the modules that a tidy unit declares are in order. -/
theorem Tidy.run_gaps (tidy : u.Tidy) (module : ModulePath) :
    Edit.Run 0 u.root.stop (Site.gaps (u.declaredModules module)) := by
  rw [declaredModules, Site.gaps_filter]
  exact (run_gapsBelow u.root _ tidy.ordered).mono (Nat.zero_le _) (Nat.le_refl _)

end SourceUnit

end CrateFold
