import CrateFold.Proofs.Grafting

/-!
Reading a tree with bodies in place. Nodes without a body in place are read as before, at their new positions
(`visit_copied`); a declaration has the scope of the body that is put in place of its semicolon
(`visitIn_replaceSemicolon`). So the scope of a unit with bodies in place is that of the unit, in which the
modules of the declarations are replaced by modules with the scopes of the bodies (`graft_scope`).
-/
namespace CrateFold

/-! ### Positions -/

theorem inside_blind {position : Position} {kind : String} {positionOf : Tag → Option Position}
    (inside : position.inside kind = some positionOf) : Blind positionOf := by
  simp only [Position.inside] at inside
  split at inside
  · cases inside
  · split at inside
    · cases inside
      split <;> exact fun _ _ _ => rfl
    · cases inside
      exact fun _ _ _ => rfl
    · cases inside
      exact fun _ _ _ => rfl
    · cases inside
      exact fun _ _ _ => rfl
    · split at inside
      · cases inside
      · cases inside
        exact fun _ _ _ => rfl
    · cases inside

/-- Where a node needs its name, the child with the name is not read. -/
theorem inside_name {position : Position} {kind : String} {positionOf : Tag → Option Position}
    (inside : position.inside kind = some positionOf)
    (needed : position.rule kind = .function ∨ position.rule kind = .trait) (t : Tag) (name : t.fills "name" = true) :
    positionOf t = none := by
  cases position with
  | item =>
    simp only [Position.rule, beq_self_eq_true, if_true] at needed
    have owner : positionOf = ownerPosition := by
      rcases needed with rule | rule <;> simpa [Position.inside, rule, Rule.passes] using inside.symm
    rw [owner]
    cases named : t.named <;> simp [ownerPosition, Tag.ifNamed, named, name]
  | _ => simp [Position.rule] at needed

theorem length_of_mapM {α β : Type} {f : α → Except Fault β} {l : List α} {found : List β} (run : l.mapM f = .ok found) :
    found.length = l.length := by
  induction l generalizing found with
  | nil =>
    cases run
    rfl
  | cons a rest ih =>
    rw [List.mapM_cons] at run
    obtain ⟨b, -, run⟩ := bind_eq_ok.mp run
    obtain ⟨more, others, run⟩ := bind_eq_ok.mp run
    cases run
    simp [ih others]

namespace Node

/-- A node that is copied keeps all but its offsets. -/
theorem graftAt_toTag (n : Node) (p : Progress) :
    ∃ start stop, (n.graftAt p).1.toTag = { n.toTag with start := start, stop := stop } := by
  obtain ⟨tag, children⟩ := n
  simp only [graftAt]
  split
  · exact ⟨_, _, rfl⟩
  · split
    · split
      · exact ⟨_, _, rfl⟩
      · split <;> exact ⟨_, _, rfl⟩
    · split <;> exact ⟨_, _, rfl⟩

mutual

/-- A node without modules is copied as it is. -/
theorem graftAt_of_moduleFree : ∀ (n : Node) (p : Progress), n.moduleFree = true → n.graftAt p = (n.moved p.move, p)
  | ⟨tag, children⟩, p, free => by
    simp only [moduleFree, Bool.and_eq_true, bne_iff_ne] at free
    simp only [graftAt, beq_iff_eq, free.1, if_false, graftIn_of_moduleFree children p free.2]
    split
    · rfl
    · split <;> rfl
termination_by structural n => n

theorem graftIn_of_moduleFree : ∀ (nodes : List Node) (p : Progress), moduleFreeIn nodes = true →
    graftIn nodes p = (movedIn p.move nodes, p)
  | [], _, _ => rfl
  | n :: rest, p, free => by
    simp only [moduleFreeIn, Bool.and_eq_true] at free
    simp only [graftIn, graftAt_of_moduleFree n p free.1, graftIn_of_moduleFree rest p free.2, movedIn]
termination_by structural l => l

end

theorem graftAt_of_unnamed {n : Node} (unnamed : n.named = false) (p : Progress) : n.graftAt p = (n.moved p.move, p) := by
  obtain ⟨tag, children⟩ := n
  simp only at unnamed
  simp [graftAt, unnamed]

end Node

namespace SourceUnit

variable {u v : SourceUnit}

/-- A node that is copied as it is yields what it did. -/
theorem visit_copied {f : Nat → Nat} {low high : Nat} {n : Node} {position : Position} {s : Scope} {bodies : List Body}
    (copied : Copied u v f low high) (within : n.within low high = true) (place : n.modulesInPlace position = true)
    (named : n.named = true) (run : u.visit position n .empty = .ok s) (spot : Spot) (earlier : List Node)
    (stays : ∀ site ∈ u.sitesAt undeclaringKinds spot earlier n, site.semicolon? = none ∨ bodies = []) :
    v.visit position (n.moved f) .empty = .ok s ∧
      Scope.Fills (Site.slots (u.sitesAt undeclaringKinds spot earlier n) bodies) s s := by
  refine ⟨(visit_moved copied n position .empty within).eq_ok run, ?_⟩
  have yields := visit_yields undeclaringKinds n position spot earlier s place named run
  rw [(Site.of_semicolon?_none stays).2.1, ← length_of_mapM yields.filed]
  refine ⟨rfl, rfl, ?_⟩
  intro more
  rw [ModuleMap.filings_eq]
  exact Scope.fillIn_none s.items spot.module more

end SourceUnit

namespace SourceUnit

variable {u v : SourceUnit} {p : Progress} {later : List Edit} {low high : Nat}

/-- The name among siblings is found with the same text if it is copied as it is. -/
theorem nameOf_cons {n m : Node} {nodes others : List Node} (field : m.fills "name" = n.fills "name")
    (text : n.fills "name" = true → v.textOf m.toTag = u.textOf n.toTag)
    (later : n.fills "name" = false →
      v.nameOf (others.find? (·.fills "name")) = u.nameOf (nodes.find? (·.fills "name"))) :
    v.nameOf ((m :: others).find? (·.fills "name")) = u.nameOf ((n :: nodes).find? (·.fills "name")) := by
  cases name : n.fills "name" with
  | true =>
    rw [List.find?_cons, List.find?_cons, field, name]
    exact text name
  | false =>
    rw [List.find?_cons, List.find?_cons, field, name]
    exact later name

theorem nameOf_graftIn : ∀ (nodes : List Node) (spot : Spot) (earlier : List Node) (p : Progress) (low high : Nat),
    spot.sealed = false → Node.regularIn low high nodes = true →
      Ready u v p (Site.edits (u.sitesIn undeclaringKinds spot earlier nodes) p.bodies) later low high →
        (∀ n ∈ nodes, n.fills "name" = true → n.named = false ∨ n.moduleFree = true) →
          v.nameOf ((Node.graftIn nodes p).1.find? (·.fills "name")) = u.nameOf (nodes.find? (·.fills "name"))
  | [], _, _, _, _, _, _, _, _, _ => rfl
  | n :: rest, spot, earlier, p, low, high, looked, regular, ready, free => by
    simp only [Node.regularIn, Bool.and_eq_true] at regular
    have range := Node.regular_range regular.1
    have whole := Node.regular_stop regular.1
    have here := ready.before (edits_runIn rest spot _ _ n.stop high range.2.2 regular.2)
    have first := graftAt_done n spot earlier p _ low n.stop looked whole here
    obtain ⟨start, stop, same⟩ := n.graftAt_toTag p
    refine nameOf_cons (by rw [same]; rfl) (fun name => ?_) fun _ =>
      nameOf_graftIn rest spot _ _ n.stop high looked regular.2 (ready.next first)
        fun m member => free m (by simp [member])
    have copy : n.graftAt p = (n.moved p.move, p) ∧ u.sitesAt undeclaringKinds spot earlier n = [] := by
      rcases free n (by simp) name with unnamed | free
      · refine ⟨Node.graftAt_of_unnamed unnamed p, ?_⟩
        cases n
        simp_all [sitesAt]
      · exact ⟨Node.graftAt_of_moduleFree n p free, sitesAt_of_moduleFree u _ n spot earlier free⟩
    rw [copy.2] at here
    rw [copy.1, Node.moved_toTag]
    exact textOf_moved (here.copied (Nat.le_refl _) (by simp [Site.edits]))
      (Node.within_toTag (Node.within_of_regular whole))

theorem nameOf_graftInBody : ∀ (nodes : List Node) (spot : Spot) (p : Progress) (low high : Nat),
    spot.sealed = false → Node.regularIn low high nodes = true →
      Ready u v p (Site.edits (u.sitesInBody undeclaringKinds spot nodes) p.bodies) later low high →
        v.nameOf ((Node.graftInBody nodes p).1.find? (·.fills "name")) = u.nameOf (nodes.find? (·.fills "name"))
  | [], _, _, _, _, _, _, _ => rfl
  | n :: rest, spot, p, low, high, looked, regular, ready => by
    simp only [Node.regularIn, Bool.and_eq_true] at regular
    have range := Node.regular_range regular.1
    have whole := Node.regular_stop regular.1
    have within := Node.within_of_regular whole
    simp only [Node.graftInBody, sitesInBody] at ready ⊢
    split at ready
    · next fills =>
      simp only [fills, if_true]
      have first := graftBelow_done n spot p later low n.stop looked whole (ready.shrink (Nat.le_refl _) range.2.2)
      have after : Ready u v (n.graftBelow p).2 (Site.edits [] (n.graftBelow p).2.bodies) later n.stop high :=
        ready.next first
      have other : n.fills "name" = false := by
        simp only [Tag.fills, beq_iff_eq] at fills ⊢
        simp [fills]
      have field : (n.graftBelow p).1.fills "name" = n.fills "name" := by
        cases n
        rfl
      refine nameOf_cons field (fun name => absurd name (by simp [other])) fun _ => ?_
      exact nameOf_moved (after.copied (Nat.le_refl _) (by simp [Site.edits]))
        (Node.withinIn_of_regularIn regular.2) "name"
    · next fills =>
      simp only [fills]
      have run : Edit.Run n.stop high (Site.edits (u.sitesInBody undeclaringKinds spot rest) p.bodies) :=
        edits_runBody rest spot p.bodies n.stop high range.2.2 regular.2
      have tag := Node.moved_toTag p.move n
      refine nameOf_cons (by rw [tag]; rfl) (fun _ => ?_) fun _ => ?_
      · rw [tag]
        exact textOf_moved (ready.copied range.2.2 run.start) (Node.within_toTag within)
      · exact nameOf_graftInBody rest spot p n.stop high looked regular.2
          (ready.shrink (by omega) (Nat.le_refl _))

end SourceUnit

namespace SourceUnit

variable {u v : SourceUnit} {p : Progress} {later : List Edit} {low high : Nat}

theorem nameOf_moved_append {f : Nat → Nat} {before nodes others : List Node} (copied : Copied u v f low high)
    (inside : Node.withinIn low high before = true)
    (rest : v.nameOf (others.find? (·.fills "name")) = u.nameOf (nodes.find? (·.fills "name"))) :
    v.nameOf ((Node.movedIn f before ++ others).find? (·.fills "name")) =
      u.nameOf ((before ++ nodes).find? (·.fills "name")) := by
  induction before with
  | nil => exact rest
  | cons n more ih =>
    simp only [Node.withinIn, Bool.and_eq_true] at inside
    have tag := Node.moved_toTag f n
    refine nameOf_cons (by rw [tag]; rfl) (fun _ => ?_) fun _ => ih inside.2
    rw [tag]
    exact textOf_moved copied (Node.within_toTag inside.1)

/-- A declaration keeps its name when a body is put in place. -/
theorem nameOf_replaceSemicolon {semicolon : Node} {body : Body} {rest : List Body} {children : List Node}
    (ready : Ready u v p [body.edit semicolon.toTag] later low high) (next : p.bodies = body :: rest)
    (ordered : low ≤ high) (regular : Node.regularIn low high children = true)
    (found : Node.semicolon? children = some semicolon) :
    v.nameOf ((Node.replaceSemicolon p (p.pass semicolon.toTag body rest) (body.node (p.move semicolon.start))
      children).find? (·.fills "name")) = u.nameOf (children.find? (·.fills "name")) := by
  obtain ⟨before, after, rfl, kind, last⟩ := Node.semicolon?_eq_some found
  obtain ⟨middle, above, below, front, back⟩ := Node.regularIn_append ordered regular
  simp only [Node.regularIn, Bool.and_eq_true] at back
  have range := Node.regular_range back.1
  have behind : Ready u v (p.pass semicolon.toTag body rest) [] later semicolon.stop high :=
    ready.pass next range.2.2 range.2.1
  have unnamed : semicolon.fills "name" = false := by
    cases semicolon
    exact (Node.regular_iff.mp back.1).2.1 kind
  rw [Node.replaceSemicolon_append p _ _ kind last]
  refine nameOf_moved_append (ready.copied below (by simpa using range.1))
    (Node.withinIn_of_regularIn front) ?_
  refine nameOf_cons (by rw [unnamed]; rfl) (fun name => absurd name (by simp [unnamed])) fun _ => ?_
  exact nameOf_moved (behind.copied (Nat.le_refl _) (by simp))
    (Node.withinIn_of_regularIn back.2) "name"

theorem visitIn_first_append {before : List Node} (none : before.any (·.fills "body") = false) (others : List Node) :
    v.visitIn (fieldPosition "body" .body) .first (before ++ others) .empty =
      v.visitIn (fieldPosition "body" .body) .first others .empty := by
  induction before with
  | nil => rfl
  | cons n rest ih =>
    simp only [List.any_cons, Bool.or_eq_false_iff] at none
    rw [List.cons_append, visitIn]
    simp only [fieldPosition, none.1, Bool.false_eq_true, if_false]
    exact ih none.2

theorem visitIn_append_unread {positionOf : Tag → Option Position} {n : Node} (unread : positionOf n.toTag = none)
    (nodes : List Node) (s : Scope) : v.visitIn positionOf .all (nodes ++ [n]) s = v.visitIn positionOf .all nodes s := by
  induction nodes generalizing s with
  | nil => simp only [List.nil_append, visitIn, unread]
  | cons first rest ih =>
    rw [List.cons_append, visitIn, visitIn]
    cases positionOf first.toTag with
    | none => exact ih s
    | some position => simp only [ih]

theorem visit_body (n : Node) (s : Scope) : u.visit .body n s = u.visitIn (childPosition n.kind) .all n.children s := by
  cases n
  rfl

/-- A body that is put in place has the scope of its unit. -/
theorem visit_bodyNode {body : Body} (fine : body.Fine) {offset : Nat}
    (copied : Copied body.unit v (offset + 3 + ·) 0 body.unit.bytes.length) :
    v.visit .body (body.node offset) .empty = .ok body.scope := by
  have same : childPosition "declaration_list" = childPosition body.unit.root.kind := by
    funext t
    have other : (body.unit.root.kind != "struct_expression") = true := bne_iff_ne.mpr fine.kind
    simp [childPosition, other]
  have scope := fine.scope
  rw [SourceUnit.scope, visit_body] at scope
  have moved := visitIn_moved copied body.unit.root.children (childPosition body.unit.root.kind) .all .empty
    (fun _ _ _ => rfl) fine.within
  simp only [Body.node, visit]
  -- the braces are not named, so only what stands between them is read
  rw [visitIn, same]
  have braces : ∀ t : Tag, t.named = false → childPosition body.unit.root.kind t = none := by
    intro t unnamed
    simp [childPosition, Tag.ifNamed, unnamed]
  rw [braces _ rfl, visitIn_append_unread (braces _ rfl)]
  exact moved.eq_ok scope

/-- A declaration has the scope of the body that is put in place of its semicolon. -/
theorem visitIn_replaceSemicolon {semicolon : Node} {body : Body} {rest : List Body} {children : List Node}
    (ready : Ready u v p [body.edit semicolon.toTag] later low high) (next : p.bodies = body :: rest)
    (inside : semicolon.start ≤ u.bytes.length) (missing : children.any (·.fills "body") = false)
    (found : Node.semicolon? children = some semicolon) :
    v.visitIn (fieldPosition "body" .body) .first (Node.replaceSemicolon p (p.pass semicolon.toTag body rest)
      (body.node (p.move semicolon.start)) children) .empty = .ok body.scope := by
  obtain ⟨before, after, rfl, kind, last⟩ := Node.semicolon?_eq_some found
  simp only [List.any_append, Bool.or_eq_false_iff] at missing
  have none : (Node.movedIn p.move before).any (·.fills "body") = false := by
    rw [any_movedIn (p := (·.fills "body")) (fun _ _ _ => rfl)]
    exact missing.1
  rw [Node.replaceSemicolon_append p _ _ kind last, visitIn_first_append none, visitIn]
  have read := visit_bodyNode (ready.fine body (by simp [next])) (ready.aligned.body inside)
  have position : fieldPosition "body" .body (body.node (p.move semicolon.start)).toTag = some .body := rfl
  rw [position]
  simp only [read, ok_bind, pure_eq_ok]

end SourceUnit

theorem Node.modulesInPlace_cases {position : Position} {tag : Tag} {children : List Node}
    (place : Node.modulesInPlace position ⟨tag, children⟩ = true) :
    (position = .item ∧ tag.kind = "mod_item" ∧ Node.modulesInBody children = true) ∨
    (∃ positionOf, position.inside tag.kind = some positionOf ∧ Node.modulesAmong positionOf children = true) ∨
    (⟨tag, children⟩ : Node).moduleFree = true := by
  simp only [Node.modulesInPlace] at place
  split at place
  · next module =>
    simp only [Bool.and_eq_true, beq_iff_eq] at module
    exact .inl ⟨module.1, module.2, place⟩
  · split at place
    · next positionOf inside => exact .inr (.inl ⟨positionOf, inside, place⟩)
    · exact .inr (.inr place)

theorem Node.unread_of_modulesAmong {positionOf : Tag → Option Position} {nodes : List Node} {n : Node}
    (among : Node.modulesAmong positionOf nodes = true) (member : n ∈ nodes) (unread : positionOf n.toTag = none) :
    n.named = false ∨ n.moduleFree = true := by
  induction nodes with
  | nil => cases member
  | cons first rest ih =>
    simp only [Node.modulesAmong, Bool.and_eq_true] at among
    rcases List.mem_cons.mp member with rfl | later
    · simpa [unread] using among.1
    · exact ih among.2 later

/-- A scope that is made of parts takes what the parts take. -/
theorem Scope.Fills.shell {slots : List (Option Scope)} {s t : Scope} (filled : Fills slots s t) (rule : Rule)
    (name : Option String) : Fills slots (rule.shell name s) (rule.shell name t) := by
  have type : Takes [] [.type (name.getD "")] [.type (name.getD "")] := fun _ => rfl
  cases rule with
  | block => exact ⟨rfl, rfl, filled.block⟩
  | function => exact ⟨rfl, rfl, filled.generic name⟩
  | implementation => exact ⟨rfl, rfl, filled.generic name⟩
  | trait => exact ⟨rfl, rfl, type.append (filled.generic name)⟩
  | _ => exact filled

namespace SourceUnit

variable {u v : SourceUnit}

theorem ownName_congr {rule : Rule} {nodes others : List Node} (names : rule = .function ∨ rule = .trait →
    v.nameOf (others.find? (·.fills "name")) = u.nameOf (nodes.find? (·.fills "name"))) :
    v.ownName rule others = u.ownName rule nodes := by
  cases rule with
  | function => rw [ownName, ownName, names (.inl rfl)]
  | trait => rw [ownName, ownName, names (.inr rfl)]
  | _ => rfl

/-- What is read of a module where an item stands. -/
theorem visit_module {tag : Tag} {children : List Node} {s : Scope} (module : tag.kind = "mod_item")
    (run : u.visit .item ⟨tag, children⟩ .empty = .ok s) : ∃ name body,
      u.nameOf (children.find? (·.fills "name")) = .ok name ∧
      u.visitIn (fieldPosition "body" .body) .first children .empty = .ok body ∧
      Scope.empty.addItem (.module name body) = s := by
  simp only [visit, ruleOfKind_eq_module.mpr module] at run
  obtain ⟨name, text, run⟩ := bind_eq_ok.mp run
  obtain ⟨body, read, run⟩ := bind_eq_ok.mp run
  cases run
  exact ⟨name, body, text, read, rfl⟩

theorem visit_of_module {tag : Tag} {children : List Node} {name : String} {body : Scope} (module : tag.kind = "mod_item")
    (text : u.nameOf (children.find? (·.fills "name")) = .ok name)
    (read : u.visitIn (fieldPosition "body" .body) .first children .empty = .ok body) :
    u.visit .item ⟨tag, children⟩ .empty = .ok (Scope.empty.addItem (.module name body)) := by
  simp only [visit, ruleOfKind_eq_module.mpr module, text, read, ok_bind, pure_eq_ok]

mutual

/-- A tree with bodies in place is read as the tree without them, with the scopes of the bodies in place. -/
theorem visit_graft : ∀ (n : Node) (position : Position) (spot : Spot) (earlier : List Node) (p : Progress)
    (later : List Edit) (low high : Nat) (s : Scope), spot.sealed = false →
      n.regular low high = true →
      Ready u v p (Site.edits (u.sitesAt undeclaringKinds spot earlier n) p.bodies) later low high →
      n.modulesInPlace position = true → n.named = true → u.visit position n .empty = .ok s →
        ∃ t, v.visit position (n.graftAt p).1 .empty = .ok t ∧
          Scope.Fills (Site.slots (u.sitesAt undeclaringKinds spot earlier n) p.bodies) s t
  | ⟨tag, children⟩, position, spot, earlier, p, later, low, high, s, looked, regular, ready, place, named, run => by
    obtain ⟨range, field, inner⟩ := Node.regular_iff.mp regular
    have within := Node.within_of_regular regular
    have unchanged : (∀ site ∈ u.sitesAt undeclaringKinds spot earlier ⟨tag, children⟩,
        site.semicolon? = none ∨ p.bodies = []) → v.visit position (Node.moved p.move ⟨tag, children⟩) .empty = .ok s ∧
          Scope.Fills (Site.slots (u.sitesAt undeclaringKinds spot earlier ⟨tag, children⟩) p.bodies) s s := by
      intro stays
      refine visit_copied (ready.copied (Nat.le_refl _) ?_) within place named run spot earlier stays
      rw [(Site.of_semicolon?_none stays).1]
      simp
    -- what holds no module may stand where the builder reads no items: it is copied, whatever it is
    by_cases free : (⟨tag, children⟩ : Node).moduleFree = true
    · have none := sitesAt_of_moduleFree u undeclaringKinds _ spot earlier free
      rw [Node.graftAt_of_moduleFree _ p free]
      exact ⟨s, unchanged (by simp [none])⟩
    replace ready := ready.shrink range.1 range.2.2
    have cases := u.grafted looked tag children earlier p
    generalize u.sitesAt undeclaringKinds spot earlier ⟨tag, children⟩ = sites at cases ready unchanged ⊢
    generalize Node.graftAt ⟨tag, children⟩ p = copy at cases ⊢
    rcases Node.modulesInPlace_cases place with ⟨rfl, module, inBody⟩ | ⟨positionOf, inside, among⟩ | other
    · cases cases with
      | copied stays => exact ⟨s, unchanged stays⟩
      | @opened site _ stays =>
        obtain ⟨name, body, text, read, rfl⟩ := visit_module module run
        rw [Site.edits_of_none stays] at ready
        obtain ⟨t, reads, filled⟩ := visitBody_graft children (spot.enter (u.entered spot.module children)) p later
          tag.start tag.stop body looked inner ready inBody read
        have same := nameOf_graftInBody children (spot.enter (u.entered spot.module children)) p tag.start tag.stop looked
          inner ready
        refine ⟨_, visit_of_module module (same.trans text) reads, ?_⟩
        rw [Site.slots_of_none stays]
        exact ⟨rfl, rfl, filled.module name⟩
      | @declared site semicolon body rest _ missing found next declares =>
        obtain ⟨name, _, text, read, rfl⟩ := visit_module module run
        have place := Node.regular_range (Node.regular_of_mem inner (Node.mem_of_semicolon? found).1)
        have slots : Site.slots [site] p.bodies = [some body.scope] := by simp [Site.slots, declares, next]
        rw [Site.edits_of_some declares next] at ready
        have same : v.nameOf ((Node.replaceSemicolon p (p.pass semicolon.toTag body rest)
            (body.node (p.move semicolon.start)) children).find? (·.fills "name")) = .ok name :=
          (nameOf_replaceSemicolon ready next range.2.1 inner found).trans text
        have inside := ready.inside
        refine ⟨_, visit_of_module module same (visitIn_replaceSemicolon ready next (by omega) missing found), ?_⟩
        rw [slots]
        exact ⟨rfl, rfl, Scope.takes_body name _ body.scope⟩
      | split other => exact absurd module other
    · obtain ⟨-, other, namedOnly⟩ := inside_eq_some inside
      cases cases with
      | copied stays => exact ⟨s, unchanged stays⟩
      | opened module _ => exact absurd module other
      | declared module _ _ _ _ => exact absurd module other
      | split _ =>
        rw [u.visit_inside tag children inside] at run
        obtain ⟨name, text, run⟩ := bind_eq_ok.mp run
        obtain ⟨body, read, rfl⟩ := map_eq_ok.mp run
        obtain ⟨t, reads, filled⟩ := visitIn_graft children positionOf spot [] p later tag.start tag.stop body namedOnly
          (inside_blind inside) looked inner ready among read
        have same : v.ownName (position.rule tag.kind) (Node.graftIn children p).1 = .ok name := by
          refine (ownName_congr ?_).trans text
          intro needed
          exact nameOf_graftIn children spot [] p tag.start tag.stop looked inner ready fun n member name =>
            Node.unread_of_modulesAmong among member (inside_name inside needed n.toTag name)
        refine ⟨(position.rule tag.kind).shell name t, ?_, filled.shell _ name⟩
        rw [v.visit_inside (tag.around p (Node.graftIn children p).2) (Node.graftIn children p).1 inside]
        simp only [Tag.around, same, reads, ok_bind, map_ok]
    · exact absurd other free
termination_by structural n => n

theorem visitIn_graft : ∀ (nodes : List Node) (positionOf : Tag → Option Position) (spot : Spot) (earlier : List Node)
    (p : Progress) (later : List Edit) (low high : Nat) (s : Scope), NamedOnly positionOf → Blind positionOf →
      spot.sealed = false → Node.regularIn low high nodes = true →
      Ready u v p (Site.edits (u.sitesIn undeclaringKinds spot earlier nodes) p.bodies) later low high →
      Node.modulesAmong positionOf nodes = true → u.visitIn positionOf .all nodes .empty = .ok s →
        ∃ t, v.visitIn positionOf .all (Node.graftIn nodes p).1 .empty = .ok t ∧
          Scope.Fills (Site.slots (u.sitesIn undeclaringKinds spot earlier nodes) p.bodies) s t
  | [], _, _, _, _, _, _, _, _, _, _, _, _, _, _, run => by
    cases run
    exact ⟨_, rfl, Scope.fills_empty⟩
  | n :: rest, positionOf, spot, earlier, p, later, low, high, s, namedOnly, blind, looked, regular, ready,
      place, run => by
    simp only [Node.regularIn, Bool.and_eq_true] at regular
    simp only [Node.modulesAmong, Bool.and_eq_true] at place
    have range := Node.regular_range regular.1
    have whole := Node.regular_stop regular.1
    have here := ready.before (edits_runIn rest spot _ _ n.stop high range.2.2 regular.2)
    have first := graftAt_done n spot earlier p _ low n.stop looked whole here
    have further := fun s => visitIn_graft rest positionOf spot (n.after earlier) (n.graftAt p).2 later n.stop high s
      namedOnly blind looked regular.2 (ready.next first) place.2
    have position : positionOf (n.graftAt p).1.toTag = positionOf n.toTag := by
      obtain ⟨start, stop, same⟩ := n.graftAt_toTag p
      rw [same, blind]
    rw [Node.graftIn, sitesIn, Site.slots_append, ← first.bodies]
    rw [visitIn_cons] at run ⊢
    simp only [position]
    cases found : positionOf n.toTag with
    | none =>
      simp only [found, Bool.or_eq_true, Bool.not_eq_true'] at place run ⊢
      have none : u.sitesAt undeclaringKinds spot earlier n = [] := by
        rcases place.1 with unnamed | free
        · cases n
          simp_all [sitesAt]
        · exact sitesAt_of_moduleFree u _ n spot earlier free
      rw [none]
      exact further s run
    | some position =>
      simp only [found] at place run ⊢
      obtain ⟨one, start, run⟩ := bind_eq_ok.mp run
      obtain ⟨two, after, rfl⟩ := map_eq_ok.mp run
      obtain ⟨t, read, filled⟩ := visit_graft n position spot earlier p _ low n.stop one looked whole here place.1
        (namedOnly _ _ found) start
      obtain ⟨r, reads, fills⟩ := further two after
      exact ⟨t.absorb r, by simp only [read, reads, ok_bind, map_ok], filled.absorb fills⟩
termination_by structural l => l

theorem visitBody_graft : ∀ (nodes : List Node) (spot : Spot) (p : Progress) (later : List Edit) (low high : Nat)
    (s : Scope), spot.sealed = false →
      Node.regularIn low high nodes = true →
      Ready u v p (Site.edits (u.sitesInBody undeclaringKinds spot nodes) p.bodies) later low high →
      Node.modulesInBody nodes = true → u.visitIn (fieldPosition "body" .body) .first nodes .empty = .ok s →
        ∃ t, v.visitIn (fieldPosition "body" .body) .first (Node.graftInBody nodes p).1 .empty = .ok t ∧
          Scope.Fills (Site.slots (u.sitesInBody undeclaringKinds spot nodes) p.bodies) s t
  | [], _, _, _, _, _, _, _, _, _, _, run => by
    cases run
    exact ⟨_, rfl, Scope.fills_empty⟩
  | n :: rest, spot, p, later, low, high, s, looked, regular, ready, place, run => by
    simp only [Node.regularIn, Bool.and_eq_true] at regular
    have range := Node.regular_range regular.1
    rw [visitIn] at run
    cases fills : n.toTag.fills "body" with
    | true =>
      simp only [Node.modulesInBody, fills, if_true, Bool.and_eq_true] at place
      simp only [fieldPosition, fills, if_true] at run
      obtain ⟨body, read, run⟩ := bind_eq_ok.mp run
      cases run
      simp only [sitesInBody, fills, if_true] at ready ⊢
      obtain ⟨t, reads, filled⟩ := visitBelow_graft n spot p later low high s looked regular.1 ready place.1 read
      refine ⟨t, ?_, filled⟩
      have position : (n.graftBelow p).1.fills "body" = true := by
        cases n
        exact fills
      simp only [Node.graftInBody, fills, if_true, visitIn, fieldPosition, position, reads, ok_bind, pure_eq_ok]
    | false =>
      simp only [Node.modulesInBody, fills, Bool.false_eq_true, if_false, Bool.and_eq_true] at place
      simp only [fieldPosition, fills, Bool.false_eq_true, if_false] at run
      simp only [sitesInBody, fills, Bool.false_eq_true, if_false] at ready ⊢
      obtain ⟨t, reads, filled⟩ := visitBody_graft rest spot p later n.stop high s looked regular.2
        (ready.shrink (by omega) (Nat.le_refl _)) place.2 run
      refine ⟨t, ?_, filled⟩
      have position : (n.moved p.move).fills "body" = false := by
        rw [Node.moved_toTag]
        exact fills
      simp only [Node.graftInBody, fills, Bool.false_eq_true, if_false, visitIn, fieldPosition, position]
      exact reads
termination_by structural l => l

theorem visitBelow_graft : ∀ (n : Node) (spot : Spot) (p : Progress) (later : List Edit) (low high : Nat) (s : Scope),
    spot.sealed = false → n.regular low high = true →
      Ready u v p (Site.edits (u.sitesBelow undeclaringKinds spot n) p.bodies) later low high →
      n.modulesBelow = true → u.visit .body n .empty = .ok s →
        ∃ t, v.visit .body (n.graftBelow p).1 .empty = .ok t ∧
          Scope.Fills (Site.slots (u.sitesBelow undeclaringKinds spot n) p.bodies) s t
  | ⟨tag, children⟩, spot, p, later, low, high, s, looked, regular, ready, place, run => by
    obtain ⟨range, -, inner⟩ := Node.regular_iff.mp regular
    exact visitIn_graft children (childPosition tag.kind) spot [] p later tag.start tag.stop s
      (namedOnly_childPosition _) (fun _ _ _ => rfl) looked inner (ready.shrink range.1 range.2.2) place run
termination_by structural n => n

end

end SourceUnit

/-! ### Units with bodies in place -/

namespace SourceUnit

variable {u : SourceUnit} {bodies : List Body} {s : Scope}

/-- The text and the tree of a unit with bodies in place are made in step. -/
theorem ready_graft (fine : ∀ body ∈ bodies, body.Fine) :
    Ready u (u.graft bodies) { bodies := bodies } (Site.edits (u.sites undeclaringKinds) bodies) [] 0 u.bytes.length := by
  refine ⟨⟨Nat.zero_le _, ?_⟩, Nat.le_refl _, Nat.le_refl _, by simp, fine⟩
  rw [List.append_nil]
  rfl

/-- The scope of a unit with bodies in place is that of the unit with the scopes of the bodies in place. -/
theorem graft_scope (regular : u.root.regular 0 u.bytes.length = true) (place : u.root.modulesBelow = true)
    (fine : ∀ body ∈ bodies, body.Fine) (built : u.scope = .ok s) :
    (u.graft bodies).scope = .ok (Scope.fill (Site.slots (u.sites undeclaringKinds) bodies) s).1 := by
  obtain ⟨t, read, filled⟩ := visitBelow_graft u.root ⟨.crate, [], false⟩ { bodies := bodies } [] 0 u.bytes.length s rfl
    regular (ready_graft fine) place built
  have whole := filled.fill []
  rw [List.append_nil] at whole
  rw [sites, whole]
  exact read

/-- A unit with bodies in place is a body. -/
theorem fine_graft (regular : u.root.regular 0 u.bytes.length = true) (place : u.root.modulesBelow = true)
    (kind : u.root.kind ≠ "struct_expression") (fine : ∀ body ∈ bodies, body.Fine) (built : u.scope = .ok s) :
    Body.Fine ⟨u.graft bodies, (Scope.fill (Site.slots (u.sites undeclaringKinds) bodies) s).1⟩ := by
  refine ⟨graft_scope regular place fine built, ?_, ?_⟩
  · have done := graftBelow_done u.root ⟨.crate, [], false⟩ { bodies := bodies } [] 0 u.bytes.length rfl regular
      (ready_graft fine)
    have within := done.within
    simp only [Node.withinIn, Bool.and_true] at within
    change Node.withinIn 0 _ (u.root.graftBelow { bodies := bodies }).1.children = true
    generalize (u.root.graftBelow { bodies := bodies }).1 = copy at within ⊢
    cases copy
    simp only [Node.within, Bool.and_eq_true] at within
    exact within.2
  · intro same
    refine kind (Eq.trans ?_ same)
    change _ = (u.root.graftBelow { bodies := bodies }).1.kind
    cases u.root
    rfl

end SourceUnit

end CrateFold
