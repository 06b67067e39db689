import CrateFold.Prune
import CrateFold.Proofs.ModuleSites
import CrateFold.Proofs.Runs

/-!
Pruning and the analysis agree on the modules of a unit. The walk that prunes pushes and pops the names of
modules on one path; the path with which it meets a module is that of the site (`Reached.site`), hence the
key under which flattening the scope tree files the body of that module. The walk removes the outermost
dead modules among the sites that it looks into (`deadBelow_outcome`), and a module in a removed one is dead
too, since the live modules are closed under lying in.
-/
namespace CrateFold

open ModuleMap

/-! ### Sites in sites -/

/-- A site is in a place: the modules around the place are around the site. -/
structure Spot.Encloses (spot : Spot) (site : Site) : Prop where
  around : ∀ p ∈ spot.around, p ∈ site.spot.around
  sealed : spot.sealed = true → site.spot.sealed = true
  within : (∀ p ∈ spot.around, spot.module.Within p) → ∀ p ∈ site.spot.around, site.path.Within p

theorem Spot.Encloses.of_into {spot : Spot} {kinds : List String} {kind : String} {site : Site}
    (inner : (spot.into kinds kind).Encloses site) : spot.Encloses site := by
  refine ⟨inner.around, fun closed => inner.sealed ?_, inner.within⟩
  simp [Spot.into, closed]

theorem within_enter_of_within {module p : ModulePath} {name : String} (fine : ModulePath.isModuleName name = true)
    (lies : module.Within p) : (module.enter name).Within p := by
  obtain ⟨segment, segments⟩ := ModulePath.enter_segments fine module
  exact ⟨lies.1, lies.2.trans ⟨[segment], segments.symm⟩⟩

theorem Spot.Encloses.of_enter {spot : Spot} {name : String} {site : Site} (fine : ModulePath.isModuleName name = true)
    (inner : (spot.enter (spot.module.enter name)).Encloses site) : spot.Encloses site := by
  refine ⟨fun p member => inner.around p (by simp [Spot.enter, member]), inner.sealed, fun outer => inner.within ?_⟩
  intro p member
  rcases List.mem_cons.mp member with rfl | further
  · obtain ⟨segment, segments⟩ := ModulePath.enter_segments fine spot.module
    exact ModulePath.within_refl (by simp [Spot.enter, segments])
  · exact within_enter_of_within fine (outer p further)

namespace SourceUnit

variable {u : SourceUnit} {kinds : List String} {live : Liveness}

/-- A module node with a name has the path that its name gives it. -/
theorem entered_of_isNamed {n : Node} {earlier : List Node} {path : ModulePath} {spot : Spot}
    (named : u.isNamed ⟨⟨n, earlier⟩, path, spot⟩ = true) (outer : ModulePath) :
    ∃ name, ModulePath.isModuleName name = true ∧ u.nameOf (n.children.find? (·.fills "name")) = .ok name ∧
      u.entered outer n.children = outer.enter name := by
  unfold isNamed at named
  split at named
  · next name text => exact ⟨name, named, text, by rw [entered]; simp only [Node.child?] at text; rw [text]⟩
  · cases named

mutual

theorem encloses_sitesAt : ∀ (n : Node) (spot : Spot) (earlier : List Node),
    (∀ site ∈ u.sitesAt kinds spot earlier n, u.isNamed site = true) →
      ∀ site ∈ u.sitesAt kinds spot earlier n, spot.Encloses site
  | ⟨tag, children⟩, spot, earlier, named, site, member => by
    simp only [sitesAt] at named member
    split at member
    · cases member
    · next isNamed =>
      simp only [isNamed] at named
      split at member
      · next module =>
        simp only [module, if_true] at named
        obtain ⟨name, fine, -, path⟩ := entered_of_isNamed (named _ (List.mem_cons_self ..)) spot.module
        have deeper := encloses_sitesInBody children _ fun site member => named site (List.mem_cons_of_mem _ member)
        simp only [path] at member deeper
        rcases List.mem_cons.mp member with rfl | inner
        · refine ⟨fun _ member => member, fun closed => closed, ?_⟩
          intro outer p member
          exact within_enter_of_within fine (outer p member)
        · exact (deeper site inner).of_enter fine
      · next other =>
        simp only [other, Bool.false_eq_true, if_false] at named
        exact (encloses_sitesIn children _ [] named site member).of_into
termination_by structural n => n

theorem encloses_sitesIn : ∀ (nodes : List Node) (spot : Spot) (earlier : List Node),
    (∀ site ∈ u.sitesIn kinds spot earlier nodes, u.isNamed site = true) →
      ∀ site ∈ u.sitesIn kinds spot earlier nodes, spot.Encloses site
  | [], _, _, _, _, member => by cases member
  | n :: rest, spot, earlier, named, site, member => by
    simp only [sitesIn, List.mem_append] at named member
    rcases member with first | later
    · exact encloses_sitesAt n spot earlier (fun site member => named site (.inl member)) site first
    · exact encloses_sitesIn rest spot _ (fun site member => named site (.inr member)) site later
termination_by structural l => l

theorem encloses_sitesInBody : ∀ (nodes : List Node) (spot : Spot),
    (∀ site ∈ u.sitesInBody kinds spot nodes, u.isNamed site = true) →
      ∀ site ∈ u.sitesInBody kinds spot nodes, spot.Encloses site
  | [], _, _, _, member => by cases member
  | n :: rest, spot, named, site, member => by
    simp only [sitesInBody] at named member
    split at member
    · next body =>
      simp only [body, if_true] at named
      exact encloses_sitesBelow n spot named site member
    · next other =>
      simp only [other, Bool.false_eq_true, if_false] at named
      exact encloses_sitesInBody rest spot named site member
termination_by structural l => l

theorem encloses_sitesBelow : ∀ (n : Node) (spot : Spot),
    (∀ site ∈ u.sitesBelow kinds spot n, u.isNamed site = true) →
      ∀ site ∈ u.sitesBelow kinds spot n, spot.Encloses site
  | ⟨_, children⟩, spot, named, site, member => encloses_sitesIn children spot [] named site member
termination_by structural n => n

end

/-! ### What is removed -/

/-- Whether a module is to be removed: it is dead, the modules around it are live, and it is looked at. -/
def isRemoved (live : Liveness) (site : Site) : Bool :=
  !site.spot.sealed && !live.isLive site.path && site.spot.around.all live.isLive

/-- The removal of a module with what goes with it. -/
def removal (u : SourceUnit) (site : Site) : Except Fault Edit := do
  return ⟨← u.removalStart site.placed.node.start site.placed.earlier, site.placed.node.stop, []⟩

/-- The removals of those of the given modules that are to be removed. -/
def removalsOf (u : SourceUnit) (live : Liveness) (sites : List Site) : Except Fault (List Edit) :=
  (sites.filter (isRemoved live)).mapM u.removal

/-- The removals of modules together with the path of the place. -/
def returning (u : SourceUnit) (live : Liveness) (sites : List Site) (path : ModulePath) :
    Except Fault (List Edit × ModulePath) := do
  return (← u.removalsOf live sites, path)

theorem returning_append (first rest : List Site) (path : ModulePath) :
    u.returning live (first ++ rest) path = u.returning live first path >>= fun found =>
      u.returning live rest path >>= fun more => .ok (found.1 ++ more.1, path) := by
  simp only [returning, removalsOf, List.filter_append, List.mapM_append]
  cases (first.filter (isRemoved live)).mapM u.removal with
  | error fault => rfl
  | ok edits => cases (rest.filter (isRemoved live)).mapM u.removal <;> rfl

/-- Nothing is removed from a place that is not looked into, or in a dead module. -/
theorem returning_of_enclosed {spot : Spot} {sites : List Site} (path : ModulePath)
    (enclosed : ∀ site ∈ sites, spot.Encloses site)
    (outside : spot.sealed = true ∨ ∃ p ∈ spot.around, live.isLive p = false) :
    u.returning live sites path = .ok ([], path) := by
  have none : sites.filter (isRemoved live) = [] := by
    apply List.filter_eq_nil_iff.mpr
    intro site member removed
    simp only [isRemoved, Bool.and_eq_true, Bool.not_eq_true', List.all_eq_true] at removed
    rcases outside with closed | ⟨p, around, dead⟩
    · rw [(enclosed site member).sealed closed] at removed
      cases removed.1.1
    · rw [removed.2 p ((enclosed site member).around p around)] at dead
      cases dead
  simp [returning, removalsOf, none]

/-- The walk at a place: it is looked into, all modules around it are live, and its module is a path. -/
structure Open (live : Liveness) (spot : Spot) : Prop where
  unsealed : spot.sealed = false
  around : ∀ p ∈ spot.around, live.isLive p = true
  nonempty : spot.module.segments ≠ []

theorem pop_enter {p : ModulePath} {name : String} (nonempty : p.segments ≠ [])
    (fine : ModulePath.isModuleName name = true) : (p.enter name).pop = p := by
  obtain ⟨segment, segments⟩ := ModulePath.enter_segments fine p
  have long : ¬ (p.enter name).length ≤ 1 := by
    have := List.length_pos_of_ne_nil nonempty
    simp only [ModulePath.length, segments, List.length_append, List.length_singleton]
    omega
  simp [ModulePath.pop, ModulePath.pop?, long, ModulePath.parent, segments]

/-- The path of a module that has a name is pushed. -/
theorem modulePath_of_isNamed {n : Node} {earlier : List Node} {path : ModulePath} {spot : Spot}
    (named : u.isNamed ⟨⟨n, earlier⟩, path, spot⟩ = true) (outer : ModulePath) :
    u.modulePath outer n.children = .ok (u.entered outer n.children) := by
  obtain ⟨name, fine, text, entered⟩ := entered_of_isNamed named outer
  simp [modulePath, text, ModulePath.joinText_eq_enter fine, entered]

mutual

/-- The walk at a node removes the sites to be removed and gives back the path that it was given. -/
theorem deadAt_outcome : ∀ (n : Node) (spot : Spot) (earlier : List Node), Open live spot →
    (∀ site ∈ u.sitesAt unprunedKinds spot earlier n, u.isNamed site = true) →
      (u.deadAt live earlier n spot.module).outcome =
        u.returning live (u.sitesAt unprunedKinds spot earlier n) spot.module
  | ⟨tag, children⟩, spot, earlier, looked, named => by
    cases isNamed : tag.named with
    | false => simp [deadAt, sitesAt, isNamed, returning, removalsOf]
    | true =>
      by_cases module : tag.kind = "mod_item"
      · simp only [sitesAt, isNamed, module, Bool.not_true, Bool.false_eq_true, if_false, beq_self_eq_true,
          if_true] at named ⊢
        obtain ⟨name, fine, text, path⟩ := entered_of_isNamed (named _ (List.mem_cons_self ..)) spot.module
        simp only [path] at named ⊢
        have inside := fun site member => named site (List.mem_cons_of_mem _ member)
        have pushed : spot.module.joinText name = .ok (spot.module.enter name) :=
          ModulePath.joinText_eq_enter fine spot.module
        have popped := pop_enter looked.nonempty fine
        cases alive : live.isLive (spot.module.enter name) with
        | true =>
          have within : Open live (spot.enter (spot.module.enter name)) := by
            refine ⟨looked.unsealed, ?_, ?_⟩
            · intro p member
              rcases List.mem_cons.mp member with rfl | further
              · exact alive
              · exact looked.around p further
            · obtain ⟨segment, segments⟩ := ModulePath.enter_segments fine spot.module
              simp [Spot.enter, segments]
          have body := deadInBody_outcome children _ within inside
          have kept : isRemoved live ⟨⟨⟨tag, children⟩, earlier⟩, spot.module.enter name, spot⟩ = false := by
            simp [isRemoved, alive]
          simp only [deadAt, isNamed, module, Bool.not_true, Bool.false_eq_true, if_false, bne_self_eq_false, text,
            Traced.lift_ok, pure_bind, pushed, alive, if_true, Traced.outcome_bind]
          change (u.deadInBody live children (spot.enter (spot.module.enter name)).module).outcome >>= _ = _
          rw [body, returning, returning, removalsOf, removalsOf, List.filter_cons_of_neg (by simp [kept])]
          cases (List.filter (isRemoved live) _).mapM u.removal with
          | error fault => rfl
          | ok edits => simp [Spot.enter, popped]
        | false =>
          have chosen : isRemoved live ⟨⟨⟨tag, children⟩, earlier⟩, spot.module.enter name, spot⟩ = true := by
            simp only [isRemoved, looked.unsealed, alive, Bool.not_false, Bool.true_and, List.all_eq_true]
            exact looked.around
          have nothing : u.returning live (u.sitesInBody unprunedKinds (spot.enter (spot.module.enter name)) children)
              spot.module = .ok ([], spot.module) :=
            returning_of_enclosed spot.module (encloses_sitesInBody children _ inside)
              (.inr ⟨_, List.mem_cons_self .., alive⟩)
          rw [← List.singleton_append, returning_append, nothing]
          simp only [deadAt, isNamed, module, Bool.not_true, Bool.false_eq_true, if_false, bne_self_eq_false, text,
            Traced.lift_ok, pure_bind, pushed, alive, Traced.outcome_bind, Traced.outcome_record, ok_bind,
            Traced.outcome_lift, Traced.outcome_pure, returning, removalsOf, List.filter_cons_of_pos chosen,
            List.filter_nil, List.mapM_cons, List.mapM_nil, removal, popped]
          cases u.removalStart tag.start earlier <;> rfl
      · simp only [sitesAt, isNamed, module, Bool.not_true, Bool.false_eq_true, if_false, beq_iff_eq] at named ⊢
        by_cases closed : tag.kind ∈ unprunedKinds
        · rw [returning_of_enclosed spot.module (encloses_sitesIn children _ [] named)
            (.inl (by simp [Spot.into, closed]))]
          simp [deadAt, isNamed, module, closed]
        · have within : Open live (spot.into unprunedKinds tag.kind) := by
            refine ⟨?_, looked.around, looked.nonempty⟩
            simp [Spot.into, looked.unsealed, closed]
          have below := deadIn_outcome children _ [] within named
          rw [show spot.module = (spot.into unprunedKinds tag.kind).module from rfl, ← below]
          simp [deadAt, isNamed, module, closed]
termination_by structural n => n

theorem deadIn_outcome : ∀ (nodes : List Node) (spot : Spot) (earlier : List Node), Open live spot →
    (∀ site ∈ u.sitesIn unprunedKinds spot earlier nodes, u.isNamed site = true) →
      (u.deadIn live earlier nodes spot.module).outcome =
        u.returning live (u.sitesIn unprunedKinds spot earlier nodes) spot.module
  | [], _, _, _, _ => rfl
  | n :: rest, spot, earlier, looked, named => by
    simp only [sitesIn, List.mem_append] at named
    have first := deadAt_outcome n spot earlier looked fun site member => named site (.inl member)
    have later := deadIn_outcome rest spot (n.after earlier) looked fun site member => named site (.inr member)
    rw [sitesIn, returning_append, deadIn, Traced.outcome_bind, first]
    cases found : u.removalsOf live (u.sitesAt unprunedKinds spot earlier n) with
    | error fault => simp [returning, found]
    | ok edits => simp [returning, found, later]
termination_by structural l => l

theorem deadInBody_outcome : ∀ (nodes : List Node) (spot : Spot), Open live spot →
    (∀ site ∈ u.sitesInBody unprunedKinds spot nodes, u.isNamed site = true) →
      (u.deadInBody live nodes spot.module).outcome =
        u.returning live (u.sitesInBody unprunedKinds spot nodes) spot.module
  | [], _, _, _ => rfl
  | n :: rest, spot, looked, named => by
    simp only [sitesInBody] at named ⊢
    rw [deadInBody]
    split
    · next body =>
      simp only [body, if_true] at named
      exact deadBelow_outcome n spot looked named
    · next other =>
      simp only [other, Bool.false_eq_true, if_false] at named
      exact deadInBody_outcome rest spot looked named
termination_by structural l => l

theorem deadBelow_outcome : ∀ (n : Node) (spot : Spot), Open live spot →
    (∀ site ∈ u.sitesBelow unprunedKinds spot n, u.isNamed site = true) →
      (u.deadBelow live n spot.module).outcome = u.returning live (u.sitesBelow unprunedKinds spot n) spot.module
  | ⟨_, children⟩, spot, looked, named => deadIn_outcome children spot [] looked named
termination_by structural n => n

end

/-! ### Calls of the walk -/

/-- The calls that the walk from the root makes: the siblings still to be looked at, the named ones before them,
and the path at the call. -/
inductive Reached (u : SourceUnit) (live : Liveness) : List Node → List Node → ModulePath → Prop where
  | root : Reached u live [] u.root.children .crate
  | next {earlier rest : List Node} {n : Node} {path after : ModulePath} {edits : List Edit}
      (call : Reached u live earlier (n :: rest) path)
      (done : (u.deadAt live earlier n path).outcome = .ok (edits, after)) : Reached u live (n.after earlier) rest after
  | down {earlier rest : List Node} {n : Node} {path : ModulePath} (call : Reached u live earlier (n :: rest) path)
      (named : n.named = true) (other : n.kind ≠ "mod_item") (looked : n.kind ∉ unprunedKinds) :
      Reached u live [] n.children path
  | enter {earlier rest : List Node} {n body : Node} {path inner : ModulePath}
      (call : Reached u live earlier (n :: rest) path) (named : n.named = true) (module : n.kind = "mod_item")
      (pushed : u.modulePath path n.children = .ok inner) (alive : live.isLive inner = true)
      (there : n.child? "body" = some body) : Reached u live [] body.children inner

/-- The walk meets a module node and looks at the module with the given path. -/
def Meets (u : SourceUnit) (live : Liveness) (p : Placed) (path : ModulePath) : Prop :=
  ∃ rest outer, u.Reached live p.earlier (p.node :: rest) outer ∧ p.node.named = true ∧ p.node.kind = "mod_item" ∧
    u.modulePath outer p.node.children = .ok path

theorem sitesInBody_of_find? {body : Node} {spot : Spot} (nodes : List Node)
    (there : nodes.find? (·.fills "body") = some body) :
    u.sitesInBody kinds spot nodes = u.sitesIn kinds spot [] body.children := by
  induction nodes with
  | nil => cases there
  | cons first rest ih =>
    rw [sitesInBody]
    rw [List.find?_cons] at there
    cases fills : first.toTag.fills "body" with
    | true =>
      simp only [fills, Option.some.injEq] at there
      subst there
      cases first
      rfl
    | false =>
      simp only [fills] at there
      exact ih there

/-- Every call of the walk is made at a place that is open to it, with the path of the module of that place. -/
theorem Reached.spot {earlier siblings : List Node} {path : ModulePath} (call : u.Reached live earlier siblings path)
    (named : ∀ site ∈ u.sites unprunedKinds, u.isNamed site = true) :
    ∃ spot, spot.module = path ∧ Open live spot ∧
      ∀ site ∈ u.sitesIn unprunedKinds spot earlier siblings, site ∈ u.sites unprunedKinds := by
  induction call with
  | root =>
    refine ⟨⟨.crate, [], false⟩, rfl, ⟨rfl, by simp, by simp [ModulePath.crate]⟩, ?_⟩
    intro site member
    rw [sites]
    cases root : u.root
    rw [root] at member
    exact member
  | @next earlier rest n path after edits _ done ih =>
    obtain ⟨spot, rfl, looked, listed⟩ := ih
    simp only [sitesIn, List.mem_append] at listed
    rw [deadAt_outcome n spot earlier looked fun site member => named site (listed site (.inl member)), returning] at done
    obtain ⟨found, -, done⟩ := bind_eq_ok.mp done
    cases done
    exact ⟨spot, rfl, looked, fun site member => listed site (.inr member)⟩
  | @down earlier rest n path _ isNamed other open_ ih =>
    obtain ⟨spot, rfl, looked, listed⟩ := ih
    refine ⟨spot.into unprunedKinds n.kind, rfl, ⟨?_, looked.around, looked.nonempty⟩, fun site member => ?_⟩
    · simp [Spot.into, looked.unsealed, open_]
    · refine listed site (List.mem_append_left _ ?_)
      obtain ⟨tag, children⟩ := n
      simp only at isNamed other
      simpa [sitesAt, isNamed, other] using member
  | @enter earlier rest n body path inner _ isNamed module pushed alive there ih =>
    obtain ⟨spot, rfl, looked, listed⟩ := ih
    obtain ⟨tag, children⟩ := n
    simp only at isNamed module
    have here : u.sitesAt unprunedKinds spot earlier ⟨tag, children⟩ = ⟨⟨⟨tag, children⟩, earlier⟩,
        u.entered spot.module children, spot⟩ ::
          u.sitesInBody unprunedKinds (spot.enter (u.entered spot.module children)) children := by
      simp [sitesAt, isNamed, module]
    simp only [sitesIn, here, List.cons_append, List.mem_cons, List.mem_append] at listed
    have first := named _ (listed _ (.inl rfl))
    obtain ⟨name, fine, -, entered⟩ := entered_of_isNamed first spot.module
    rw [modulePath_of_isNamed first] at pushed
    cases pushed
    refine ⟨spot.enter (u.entered spot.module children), rfl, ⟨looked.unsealed, ?_, ?_⟩, fun site member => ?_⟩
    · intro p member
      rcases List.mem_cons.mp member with rfl | further
      · exact alive
      · exact looked.around p further
    · obtain ⟨segment, segments⟩ := ModulePath.enter_segments fine spot.module
      simp only [Spot.enter]
      rw [entered, segments]
      simp
    · refine listed site (.inr (.inl ?_))
      rw [sitesInBody_of_find? children there]
      exact member

/-- The walk meets the sites of the unit, each with its own path. -/
theorem Meets.site {p : Placed} {path : ModulePath} (meets : u.Meets live p path)
    (named : ∀ site ∈ u.sites unprunedKinds, u.isNamed site = true) :
    ∃ site ∈ u.sites unprunedKinds, site.placed = p ∧ site.path = path := by
  obtain ⟨⟨tag, children⟩, earlier⟩ := p
  obtain ⟨rest, outer, call, isNamed, module, pushed⟩ := meets
  obtain ⟨spot, rfl, -, listed⟩ := call.spot named
  simp only at isNamed module
  have here : ⟨⟨⟨tag, children⟩, earlier⟩, u.entered spot.module children, spot⟩ ∈
      u.sitesAt unprunedKinds spot earlier ⟨tag, children⟩ := by
    simp [sitesAt, isNamed, module]
  have member := listed _ (List.mem_append_left _ here)
  rw [modulePath_of_isNamed (named _ member)] at pushed
  exact ⟨_, member, rfl, Except.ok.inj pushed⟩

/-- Every call of the walk gives back the path that it was made with. -/
theorem Reached.restores {earlier siblings : List Node} {path after : ModulePath} {edits : List Edit}
    (call : u.Reached live earlier siblings path) (named : ∀ site ∈ u.sites unprunedKinds, u.isNamed site = true)
    (done : (u.deadIn live earlier siblings path).outcome = .ok (edits, after)) : after = path := by
  obtain ⟨spot, rfl, looked, listed⟩ := call.spot named
  rw [deadIn_outcome siblings spot earlier looked fun site member => named site (listed site member), returning] at done
  obtain ⟨found, -, done⟩ := bind_eq_ok.mp done
  cases done
  rfl

theorem removals_outcome (named : ∀ site ∈ u.sites unprunedKinds, u.isNamed site = true) :
    (u.removals live).outcome = u.removalsOf live (u.sites unprunedKinds) := by
  have looked : Open live ⟨.crate, [], false⟩ := ⟨rfl, by simp, by simp [ModulePath.crate]⟩
  have walk := deadBelow_outcome u.root ⟨.crate, [], false⟩ looked named
  simp only [removals, Traced.outcome_bind, Traced.outcome_pure]
  change (u.deadBelow live u.root (Spot.mk .crate [] false).module).outcome >>= _ = _
  rw [walk, returning]
  change (u.removalsOf live (u.sites unprunedKinds) >>= _) >>= _ = _
  cases u.removalsOf live (u.sites unprunedKinds) <;> rfl

/-! ### Agreement -/

/-- How the modules of a unit are pruned: the walk meets modules with the paths of their sites, gives back the path
of every call, and removes the outermost dead modules, in which no module is live. -/
structure Agrees (u : SourceUnit) (live : Liveness) : Prop where
  met : ∀ p path, u.Meets live p path → ∃ site ∈ u.sites unprunedKinds, site.placed = p ∧ site.path = path
  restored : ∀ earlier siblings path edits after, u.Reached live earlier siblings path →
    (u.deadIn live earlier siblings path).outcome = .ok (edits, after) → after = path
  removed : (u.removals live).outcome = ((u.sites unprunedKinds).filter (isRemoved live)).mapM u.removal
  nested : ∀ site ∈ u.sites unprunedKinds, isRemoved live site = true →
    ∀ inner ∈ u.sites unprunedKinds, site.path ∈ inner.spot.around → live.isLive inner.path = false

/-- A module in a dead module is dead. -/
theorem dead_of_around {m : ModuleMap} (named : ∀ site ∈ u.sites kinds, u.isNamed site = true)
    (run : m.liveness.outcome = .ok live) {site : Site} (member : site ∈ u.sites kinds) {path : ModulePath}
    (around : path ∈ site.spot.around) (dead : live.isLive path = false) : live.isLive site.path = false := by
  have lies := (encloses_sitesBelow u.root _ named site member).within (by simp) path around
  have alive : ∀ p, live.isLive p = true ↔ p ∈ live.modules := fun _ => List.contains_iff_mem
  rw [← Bool.not_eq_true, alive] at dead ⊢
  exact fun inner => dead (liveness_rising run site.path inner path lies)

/-- Pruning and the analysis agree on the modules of a unit in which modules stand only where items are read and have
names. The scope tree files the bodies of the modules under the paths of their sites, in order; flattening succeeds and
gathers them under these keys, and the search for live modules succeeds if nothing empty is imported. Whatever it
finds, pruning agrees with it. -/
theorem agrees_of_scopeTree {tree : Item} (place : u.root.modulesBelow = true)
    (named : ∀ site ∈ u.sites unprunedKinds, u.isNamed site = true) (built : u.scopeTree.outcome = .ok tree) :
    ∃ scope m, tree = .file scope ∧ (u.sites unprunedKinds).mapM u.filing = .ok (filings .crate scope) ∧
      (ofTree tree).outcome = .ok m ∧ m = gather {} ((.crate, scope) :: filings .crate scope) ∧
      (Scope.everywhere Scope.targeted scope = true → ∃ live, m.liveness.outcome = .ok live) ∧
      ∀ live, m.liveness.outcome = .ok live → u.Agrees live := by
  simp only [scopeTree, Traced.outcome_bind, Traced.outcome_lift] at built
  obtain ⟨scope, read, built⟩ := bind_eq_ok.mp built
  cases built
  obtain ⟨filed, names⟩ := filing_sites unprunedKinds place read
  have known := scope_known read
  refine ⟨scope, _, rfl, filed, ofTree_outcome known (names named), rfl, ?_, ?_⟩
  · intro targeted
    obtain ⟨live, run, -⟩ := liveness_total (rooted_gather known (names named) targeted)
    exact ⟨live, run⟩
  · intro live run
    refine ⟨fun p path meets => meets.site named, ?_, removals_outcome named, ?_⟩
    · intro earlier siblings path edits after call done
      exact call.restores named done
    · intro site _ removed inner member around
      simp only [isRemoved, Bool.and_eq_true, Bool.not_eq_true'] at removed
      exact dead_of_around named run member around removed.1.2

/-- A unit with a module in a function of a module, of which only the outer one is referred to, and a module that is
declared without a body. -/
def nestedModules : SourceUnit where
  path := ⟨0, ["lib.rs"]⟩
  bytes := [97, 32, 98, 32, 99]
  root := ⟨{ kind := "source_file", named := true, stop := 5 }, [
    ⟨{ kind := "mod_item", named := true, start := 0, stop := 3 }, [
      ⟨{ kind := "identifier", named := true, start := 0, stop := 1, field := some "name" }, []⟩,
      ⟨{ kind := "declaration_list", named := true, start := 2, stop := 3, field := some "body" }, [
        ⟨{ kind := "function_item", named := true, start := 2, stop := 3 }, [
          ⟨{ kind := "identifier", named := true, start := 2, stop := 3, field := some "name" }, []⟩,
          ⟨{ kind := "block", named := true, start := 2, stop := 3, field := some "body" }, [
            ⟨{ kind := "mod_item", named := true, start := 2, stop := 3 }, [
              ⟨{ kind := "identifier", named := true, start := 2, stop := 3, field := some "name" }, []⟩]⟩]⟩]⟩]⟩]⟩,
    ⟨{ kind := "mod_item", named := true, start := 4, stop := 5 }, [
      ⟨{ kind := "identifier", named := true, start := 4, stop := 5, field := some "name" }, []⟩]⟩,
    ⟨{ kind := "identifier", named := true, start := 0, stop := 1 }, []⟩]⟩

theorem agrees_nestedModules : nestedModules.root.modulesBelow = true ∧
    (∀ site ∈ nestedModules.sites unprunedKinds, nestedModules.isNamed site = true) ∧
    ∃ tree m live, nestedModules.scopeTree.outcome = .ok tree ∧ (ofTree tree).outcome = .ok m ∧
      m.liveness.outcome = .ok live ∧ nestedModules.Agrees live ∧
        (nestedModules.removals live).outcome = .ok [⟨2, 3, []⟩, ⟨4, 5, []⟩] := by
  have place : nestedModules.root.modulesBelow = true := by decide
  have named : ∀ site ∈ nestedModules.sites unprunedKinds, nestedModules.isNamed site = true := by
    have all : ((nestedModules.sites unprunedKinds).all fun site => nestedModules.isNamed site) = true := by
      decide +kernel
    exact List.all_eq_true.mp all
  have built : nestedModules.scopeTree.outcome = .ok (.file
      { items := [
          .module "a" { items := [.generic (some "b") { items := [.block { items := [.module "b" {}] }] }] },
          .module "c" {}],
        accesses := [⟨["a"]⟩] }) := by rfl
  have found : (ModuleMap.mk [
      (⟨["crate"]⟩, { accesses := [⟨["a"]⟩] }),
      (⟨["crate", "a"]⟩, { items := [.generic (some "b") { items := [.block {}] }] }),
      (⟨["crate", "a", "b"]⟩, {}), (⟨["crate", "c"]⟩, {})]).liveness.outcome =
        .ok ⟨[⟨["crate"]⟩, ⟨["crate", "a"]⟩], []⟩ := by decide +kernel
  obtain ⟨_, m, -, -, flat, -, -, agrees⟩ := agrees_of_scopeTree place named built
  cases flat
  exact ⟨place, named, _, _, _, built, rfl, found, agrees _ found, by decide +kernel⟩

end SourceUnit

end CrateFold
