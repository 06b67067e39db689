import CrateFold.Inline.Load
import CrateFold.Proofs.Filling
import CrateFold.Proofs.ModuleSites
import CrateFold.Proofs.Splicing

/-!
Putting the bodies of declared modules in place, in the text and in the tree. In the text the semicolon of a
declaration is replaced by the text of the body in braces (`Site.edits`); in the tree it is replaced by a body
node with the children of the root of the body, and all offsets are moved to the new positions (`graft`).
Both are made in step: before every part of the tree what is left of the text is the text of what is left of the
tree (`Ready`), and so it is behind the part (`Done`). For a regular tree this holds from its root on
(`graftBelow_done`).
-/
namespace CrateFold

/-! ### Declarations and their bodies -/

/-- What is put in place of the semicolon of a declaration: a unit, and the scope of it. -/
structure Body where
  unit : SourceUnit
  scope : Scope

/-- What a body has to be: its unit has the scope, and the parts of its root stand in its source and are read like
those of a list of declarations. -/
structure Body.Fine (b : Body) : Prop where
  scope : b.unit.scope = .ok b.scope
  within : Node.withinIn 0 b.unit.bytes.length b.unit.root.children = true
  kind : b.unit.root.kind ≠ "struct_expression"

/-- The edit that puts a body in place of a semicolon. -/
def Body.edit (semicolon : Tag) (body : Body) : Edit :=
  ⟨semicolon.start, semicolon.stop, Workspace.braced body.unit.bytes⟩

@[simp] theorem Body.edit_start (semicolon : Tag) (body : Body) : (body.edit semicolon).start = semicolon.start := rfl

@[simp] theorem Body.spliced_edit (source : Bytes) (low : Nat) (semicolon : Tag) (body : Body) (edits : List Edit) :
    Edit.spliced source low (body.edit semicolon :: edits) = source.slice low semicolon.start ++
      (Workspace.braced body.unit.bytes ++ Edit.spliced source semicolon.stop edits) := by
  rw [Edit.spliced, List.append_assoc]
  rfl

/-- The last semicolon among siblings. -/
def Node.semicolon? (nodes : List Node) : Option Node := nodes.reverse.find? (·.kind == ";")

namespace Site

/-- The semicolon of a module that is declared without a body where declarations are looked for. -/
def semicolon? (site : Site) : Option Tag :=
  if site.spot.sealed || site.placed.node.children.any (·.fills "body") then none
  else (Node.semicolon? site.placed.node.children).map Node.toTag

/-- The edits that put bodies in place, the first body at the first declaration. -/
def edits : List Site → List Body → List Edit
  | [], _ => []
  | site :: rest, bodies =>
    match site.semicolon?, bodies with
    | some semicolon, body :: more => body.edit semicolon :: edits rest more
    | _, _ => edits rest bodies

/-- For each module the scope of the body that is put in place, none if it stays as it is. -/
def slots : List Site → List Body → List (Option Scope)
  | [], _ => []
  | site :: rest, bodies =>
    match site.semicolon?, bodies with
    | some _, body :: more => some body.scope :: slots rest more
    | _, _ => none :: slots rest bodies

/-- The bodies that are left when those of the given modules are in place. -/
def left : List Site → List Body → List Body
  | [], bodies => bodies
  | site :: rest, bodies =>
    match site.semicolon?, bodies with
    | some _, _ :: more => left rest more
    | _, _ => left rest bodies

section

variable {site : Site} {semicolon : Tag}

theorem edits_of_none (stays : site.semicolon? = none) (rest : List Site) (bodies : List Body) :
    edits (site :: rest) bodies = edits rest bodies := by
  simp [edits, stays]

theorem slots_of_none (stays : site.semicolon? = none) (rest : List Site) (bodies : List Body) :
    slots (site :: rest) bodies = none :: slots rest bodies := by
  simp [slots, stays]

theorem left_of_none (stays : site.semicolon? = none) (rest : List Site) (bodies : List Body) :
    left (site :: rest) bodies = left rest bodies := by
  simp [left, stays]

theorem edits_of_some (declares : site.semicolon? = some semicolon) {body : Body} {more bodies : List Body}
    (next : bodies = body :: more) : edits [site] bodies = [body.edit semicolon] := by
  simp [edits, declares, next]

end

theorem edits_append (first rest : List Site) (bodies : List Body) :
    edits (first ++ rest) bodies = edits first bodies ++ edits rest (left first bodies) := by
  induction first generalizing bodies with
  | nil => rfl
  | cons site more ih =>
    cases found : site.semicolon? with
    | none => simp [edits, left, found, ih]
    | some semicolon => cases bodies <;> simp [edits, left, found, ih]

theorem slots_append (first rest : List Site) (bodies : List Body) :
    slots (first ++ rest) bodies = slots first bodies ++ slots rest (left first bodies) := by
  induction first generalizing bodies with
  | nil => rfl
  | cons site more ih =>
    cases found : site.semicolon? with
    | none => simp [slots, left, found, ih]
    | some semicolon => cases bodies <;> simp [slots, left, found, ih]

theorem left_append (first rest : List Site) (bodies : List Body) :
    left (first ++ rest) bodies = left rest (left first bodies) := by
  induction first generalizing bodies with
  | nil => rfl
  | cons site more ih =>
    cases found : site.semicolon? with
    | none => simp [left, found, ih]
    | some semicolon => cases bodies <;> simp [left, found, ih]

/-- The semicolon of a declaration is its last, and there is no body. -/
theorem of_semicolon?_some {site : Site} {semicolon : Tag} (declares : site.semicolon? = some semicolon) :
    site.placed.node.children.any (·.fills "body") = false ∧
      ∃ n, Node.semicolon? site.placed.node.children = some n ∧ n.toTag = semicolon := by
  simp only [semicolon?] at declares
  split at declares
  · cases declares
  · next looked =>
    rw [Bool.or_eq_true, not_or, Bool.not_eq_true, Bool.not_eq_true] at looked
    exact ⟨looked.2, Option.map_eq_some_iff.mp declares⟩

theorem mem_left {sites : List Site} {bodies : List Body} {b : Body} (member : b ∈ left sites bodies) : b ∈ bodies := by
  induction sites generalizing bodies with
  | nil => exact member
  | cons site rest ih =>
    simp only [left] at member
    split at member
    · exact List.mem_cons_of_mem _ (ih member)
    · exact ih member

/-- Modules that stay as they are need no body. -/
theorem of_semicolon?_none {sites : List Site} {bodies : List Body}
    (stays : ∀ site ∈ sites, site.semicolon? = none ∨ bodies = []) :
    edits sites bodies = [] ∧ slots sites bodies = List.replicate sites.length none ∧ left sites bodies = bodies := by
  induction sites with
  | nil => exact ⟨rfl, rfl, rfl⟩
  | cons site rest ih =>
    obtain ⟨one, two, three⟩ := ih fun other later => stays other (by simp [later])
    rcases stays site (by simp) with free | empty
    · refine ⟨?_, ?_, ?_⟩
      · simpa [edits, free] using one
      · simpa [slots, free, List.replicate_succ] using two
      · simpa [left, free] using three
    · subst empty
      refine ⟨?_, ?_, ?_⟩
      · simpa [edits] using one
      · simpa [slots, List.replicate_succ] using two
      · simpa [left] using three

end Site

/-! ### Trees with bodies in place -/

/-- How far a source has been copied with bodies in place: `cut` is the offset behind the last semicolon replaced,
`out` that behind what replaced it; `bodies` are left. -/
structure Progress where
  cut : Nat := 0
  out : Nat := 0
  bodies : List Body

namespace Progress

/-- Where an offset behind the last semicolon replaced is moved to. -/
def move (p : Progress) (offset : Nat) : Nat := p.out + (offset - p.cut)

/-- The progress when a semicolon has been replaced by a body. -/
def pass (p : Progress) (semicolon : Tag) (body : Body) (rest : List Body) : Progress where
  cut := semicolon.stop
  out := p.move semicolon.start + (Workspace.braced body.unit.bytes).length
  bodies := rest

end Progress

/-- A node around parts that have been copied: it starts where it is moved to before and ends where it is moved to
after them. -/
def Tag.around (t : Tag) (before after : Progress) : Tag := { t with start := before.move t.start, stop := after.move t.stop }

/-- The node that replaces a semicolon at an offset: the children of the root of the body in braces. -/
def Body.node (body : Body) (offset : Nat) : Node :=
  let stop := offset + (Workspace.braced body.unit.bytes).length
  ⟨{ kind := "declaration_list", named := true, start := offset + 1, stop := stop, field := some "body" },
    ⟨{ kind := "\x7b", start := offset + 1, stop := offset + 2 }, []⟩ ::
      (Node.movedIn (offset + 3 + ·) body.unit.root.children ++ [⟨{ kind := "\x7d", start := stop - 1, stop := stop }, []⟩])⟩

/-- Siblings with the last semicolon replaced by a node. -/
def Node.replaceSemicolon (before after : Progress) (replacement : Node) : List Node → List Node
  | [] => []
  | n :: rest =>
    if n.kind == ";" && !rest.any (·.kind == ";") then replacement :: Node.movedIn after.move rest
    else n.moved before.move :: Node.replaceSemicolon before after replacement rest

mutual

/-- A node with bodies in place, and the progress behind it. -/
def Node.graftAt : Node → Progress → Node × Progress
  | ⟨tag, children⟩, p =>
    if !tag.named then (Node.moved p.move ⟨tag, children⟩, p)
    else if tag.kind == "mod_item" then
      if children.any (·.fills "body") then
        let body := Node.graftInBody children p
        (⟨tag.around p body.2, body.1⟩, body.2)
      else match Node.semicolon? children, p.bodies with
        | some semicolon, body :: rest =>
          let after := p.pass semicolon.toTag body rest
          (⟨tag.around p after, Node.replaceSemicolon p after (body.node (p.move semicolon.start)) children⟩, after)
        | _, _ => (Node.moved p.move ⟨tag, children⟩, p)
    else if SourceUnit.undeclaringKinds.contains tag.kind then (Node.moved p.move ⟨tag, children⟩, p)
    else
      let below := Node.graftIn children p
      (⟨tag.around p below.2, below.1⟩, below.2)
termination_by structural n => n

/-- Siblings with bodies in place, and the progress behind them. -/
def Node.graftIn : List Node → Progress → List Node × Progress
  | [], p => ([], p)
  | n :: rest, p =>
    let first := n.graftAt p
    let others := Node.graftIn rest first.2
    (first.1 :: others.1, others.2)
termination_by structural l => l

/-- Siblings with bodies in place below the first of them that is a body. -/
def Node.graftInBody : List Node → Progress → List Node × Progress
  | [], p => ([], p)
  | n :: rest, p =>
    if n.fills "body" then
      let first := n.graftBelow p
      (first.1 :: Node.movedIn first.2.move rest, first.2)
    else
      let others := Node.graftInBody rest p
      (n.moved p.move :: others.1, others.2)
termination_by structural l => l

/-- A node with bodies in place below it. -/
def Node.graftBelow : Node → Progress → Node × Progress
  | ⟨tag, children⟩, p =>
    let below := Node.graftIn children p
    (⟨tag.around p below.2, below.1⟩, below.2)
termination_by structural n => n

end

namespace SourceUnit

/-- The unit with bodies in place of the semicolons of its declarations, in the text and in the tree. -/
def graft (u : SourceUnit) (bodies : List Body) : SourceUnit where
  path := u.path
  bytes := Edit.spliced u.bytes 0 (Site.edits (u.sites undeclaringKinds) bodies)
  root := (u.root.graftBelow { bodies := bodies }).1

end SourceUnit

namespace Node

variable {low high : Nat} {n : Node} {nodes : List Node}

theorem mem_of_semicolon? (found : semicolon? nodes = some n) : n ∈ nodes ∧ n.kind = ";" := by
  have member := List.mem_of_find?_eq_some found
  have kind := List.find?_some found
  exact ⟨List.mem_reverse.mp member, by simpa using kind⟩

/-- The last semicolon stands between siblings, with none behind it. -/
theorem semicolon?_eq_some (found : semicolon? nodes = some n) : ∃ before after, nodes = before ++ n :: after ∧
    n.kind = ";" ∧ after.any (·.kind == ";") = false := by
  obtain ⟨kind, rest, first, split, none⟩ := List.find?_eq_some_iff_append.mp found
  refine ⟨first.reverse, rest.reverse, ?_, by simpa using kind, ?_⟩
  · simpa using congrArg List.reverse split
  · simpa using none

theorem replaceSemicolon_append (p q : Progress) (replacement : Node) {before after : List Node} (kind : n.kind = ";")
    (last : after.any (·.kind == ";") = false) :
    replaceSemicolon p q replacement (before ++ n :: after) =
      movedIn p.move before ++ replacement :: movedIn q.move after := by
  induction before with
  | nil => simp [replaceSemicolon, movedIn, kind, last]
  | cons first rest ih =>
    have other : (rest ++ n :: after).any (·.kind == ";") = true := by simp [kind]
    rw [List.cons_append, replaceSemicolon, other, Bool.not_true, Bool.and_false, if_neg Bool.false_ne_true, ih]
    rfl

end Node

/-! ### The edits of a regular tree -/

namespace SourceUnit

variable {u v : SourceUnit} {kinds : List String}

theorem sitesInBody_eq_nil {nodes : List Node} (none : nodes.any (·.fills "body") = false) (spot : Spot) :
    u.sitesInBody kinds spot nodes = [] := by
  induction nodes with
  | nil => rfl
  | cons n rest ih =>
    simp only [List.any_cons, Bool.or_eq_false_iff] at none
    simp only [sitesInBody, none.1, Bool.false_eq_true, if_false]
    exact ih none.2

/-- The site of a module node with a body stays as it is; that of one without is declared by its semicolon. -/
theorem semicolon?_of_open {tag : Tag} {children earlier : List Node} {path : ModulePath} {spot : Spot}
    (looked : spot.sealed = false) :
    Site.semicolon? ⟨⟨⟨tag, children⟩, earlier⟩, path, spot⟩ =
      if children.any (·.fills "body") then none else (Node.semicolon? children).map Node.toTag := by
  simp [Site.semicolon?, looked]

mutual

/-- What stands in a node that is not looked into stands in it at every depth. -/
theorem sealed_sitesAt : ∀ (n : Node) (spot : Spot) (earlier : List Node), spot.sealed = true →
    ∀ site ∈ u.sitesAt kinds spot earlier n, site.spot.sealed = true
  | ⟨tag, children⟩, spot, earlier, closed, site, member => by
    simp only [sitesAt] at member
    split at member
    · cases member
    · split at member
      · rcases List.mem_cons.mp member with rfl | deeper
        · exact closed
        · exact sealed_sitesInBody children _ (by exact closed) site deeper
      · exact sealed_sitesIn children _ [] (by simp [Spot.into, closed]) site member
termination_by structural n => n

theorem sealed_sitesIn : ∀ (nodes : List Node) (spot : Spot) (earlier : List Node), spot.sealed = true →
    ∀ site ∈ u.sitesIn kinds spot earlier nodes, site.spot.sealed = true
  | [], _, _, _, _, member => by cases member
  | n :: rest, spot, earlier, closed, site, member => by
    rcases List.mem_append.mp member with here | later
    · exact sealed_sitesAt n spot earlier closed site here
    · exact sealed_sitesIn rest spot _ closed site later
termination_by structural l => l

theorem sealed_sitesInBody : ∀ (nodes : List Node) (spot : Spot), spot.sealed = true →
    ∀ site ∈ u.sitesInBody kinds spot nodes, site.spot.sealed = true
  | [], _, _, _, member => by cases member
  | n :: rest, spot, closed, site, member => by
    simp only [sitesInBody] at member
    split at member
    · exact sealed_sitesBelow n spot closed site member
    · exact sealed_sitesInBody rest spot closed site member
termination_by structural l => l

theorem sealed_sitesBelow : ∀ (n : Node) (spot : Spot), spot.sealed = true →
    ∀ site ∈ u.sitesBelow kinds spot n, site.spot.sealed = true
  | ⟨_, children⟩, spot, closed, site, member => sealed_sitesIn children spot [] closed site member
termination_by structural n => n

end

mutual

/-- The edits of a regular tree are in order. -/
theorem edits_run : ∀ (n : Node) (spot : Spot) (earlier : List Node) (bodies : List Body) (low high : Nat),
    n.regular low high = true → Edit.Run low high (Site.edits (u.sitesAt kinds spot earlier n) bodies)
  | ⟨tag, children⟩, spot, earlier, bodies, low, high, fine => by
    obtain ⟨range, -, inner⟩ := Node.regular_iff.mp fine
    have empty : Edit.Run low high [] := by change low ≤ high; omega
    simp only [sitesAt]
    split
    · exact empty
    · split
      · -- a declaration has no modules in it, and any other module no semicolon
        rw [← List.singleton_append, Site.edits_append]
        have body := fun bodies => edits_runBody children (spot.enter (u.entered spot.module children)) bodies
          tag.start tag.stop range.2.1 inner
        cases found : Site.semicolon? ⟨⟨⟨tag, children⟩, earlier⟩, u.entered spot.module children, spot⟩ with
        | none =>
          rw [Site.edits_of_none found]
          exact (body _).mono range.1 range.2.2
        | some semicolon =>
          obtain ⟨missing, n, last, rfl⟩ := Site.of_semicolon?_some found
          have place := Node.regular_range (Node.regular_of_mem inner (Node.mem_of_semicolon? last).1)
          rw [sitesInBody_eq_nil missing]
          cases bodies with
          | nil =>
            simp only [Site.edits, found, List.append_nil]
            exact empty
          | cons body rest =>
            rw [Site.edits_of_some found rfl]
            refine ⟨?_, place.2.1, ?_⟩
            · change low ≤ n.start
              omega
            · change n.stop ≤ high
              omega
      · exact (edits_runIn children _ [] bodies tag.start tag.stop range.2.1 inner).mono range.1 range.2.2
termination_by structural n => n

theorem edits_runIn : ∀ (nodes : List Node) (spot : Spot) (earlier : List Node) (bodies : List Body) (low high : Nat),
    low ≤ high → Node.regularIn low high nodes = true →
      Edit.Run low high (Site.edits (u.sitesIn kinds spot earlier nodes) bodies)
  | [], _, _, _, _, _, ordered, _ => ordered
  | n :: rest, spot, earlier, bodies, low, high, ordered, fine => by
    simp only [Node.regularIn, Bool.and_eq_true] at fine
    have range := Node.regular_range fine.1
    rw [sitesIn, Site.edits_append]
    exact (edits_run n spot earlier bodies low n.stop (Node.regular_stop fine.1)).append
      (edits_runIn rest spot _ _ n.stop high range.2.2 fine.2)
termination_by structural l => l

theorem edits_runBody : ∀ (nodes : List Node) (spot : Spot) (bodies : List Body) (low high : Nat), low ≤ high →
    Node.regularIn low high nodes = true → Edit.Run low high (Site.edits (u.sitesInBody kinds spot nodes) bodies)
  | [], _, _, _, _, ordered, _ => ordered
  | n :: rest, spot, bodies, low, high, ordered, fine => by
    simp only [Node.regularIn, Bool.and_eq_true] at fine
    have range := Node.regular_range fine.1
    simp only [sitesInBody]
    split
    · exact edits_runBelow n spot bodies low high fine.1
    · exact (edits_runBody rest spot bodies n.stop high range.2.2 fine.2).mono (by omega) (Nat.le_refl _)
termination_by structural l => l

theorem edits_runBelow : ∀ (n : Node) (spot : Spot) (bodies : List Body) (low high : Nat), n.regular low high = true →
    Edit.Run low high (Site.edits (u.sitesBelow kinds spot n) bodies)
  | ⟨tag, children⟩, spot, bodies, low, high, fine => by
    obtain ⟨range, -, inner⟩ := Node.regular_iff.mp fine
    exact (edits_runIn children spot [] bodies tag.start tag.stop range.2.1 inner).mono range.1 range.2.2
termination_by structural n => n

end

end SourceUnit

/-! ### The text with bodies in place -/

/-- From the progress on, the source of `v` is that of `u` with edits applied. -/
structure Aligned (u v : SourceUnit) (p : Progress) (edits : List Edit) : Prop where
  out : p.out ≤ v.bytes.length
  rest : v.bytes.drop p.out = Edit.spliced u.bytes p.cut edits

namespace Aligned

variable {u v : SourceUnit} {p : Progress} {edits : List Edit} {low high : Nat}

/-- There is room for what comes before the next edit. -/
theorem room (aligned : Aligned u v p edits) (inside : high ≤ u.bytes.length)
    (later : ∀ edit ∈ edits, high ≤ edit.start) : p.move high ≤ v.bytes.length := by
  have out := aligned.out
  have length := congrArg List.length aligned.rest
  have enough : high - p.cut ≤ (Edit.spliced u.bytes p.cut edits).length := Edit.length_spliced inside later
  rw [List.length_drop] at length
  unfold Progress.move
  omega

/-- What comes before the next edit is copied. -/
theorem copied (aligned : Aligned u v p edits) (cut : p.cut ≤ low) (inside : high ≤ u.bytes.length)
    (later : ∀ edit ∈ edits, high ≤ edit.start) : Copied u v p.move low high := by
  intro a b lowA highA lowB highB
  have start : p.cut + (a - p.cut) = a := by omega
  have stop : p.cut + (b - p.cut) = b := by omega
  rw [Progress.move, Progress.move, ← Bytes.slice_drop, aligned.rest]
  cases edits with
  | nil => rw [Edit.spliced, Bytes.slice_drop, start, stop]
  | cons edit rest =>
    have ahead := later edit (by simp)
    have width : b - p.cut ≤ (u.bytes.slice p.cut edit.start).length := by
      rw [Bytes.slice, List.length_take, List.length_drop]
      omega
    have whole : p.cut + (edit.start - p.cut) = edit.start := by omega
    rw [Edit.spliced, List.append_assoc, Bytes.slice_append_left width]
    have part := Bytes.slice_slice (b := b - p.cut) (c := edit.start - p.cut) (by omega) u.bytes p.cut (a - p.cut)
    rw [whole, start, stop] at part
    exact part

/-- Behind an edit the rest is aligned. -/
theorem pass {semicolon : Tag} {body : Body} {rest : List Body}
    (aligned : Aligned u v p (body.edit semicolon :: edits))
    (inside : semicolon.start ≤ u.bytes.length) : Aligned u v (p.pass semicolon body rest) edits := by
  have whole := aligned.rest
  have out := aligned.out
  rw [Body.spliced_edit] at whole
  have before : (u.bytes.slice p.cut semicolon.start).length = semicolon.start - p.cut := Bytes.length_slice inside
  have length := congrArg List.length whole
  rw [List.length_drop, List.length_append, List.length_append, before] at length
  refine ⟨?_, ?_⟩
  · simp only [Progress.pass, Progress.move]
    omega
  · simp only [Progress.pass, Progress.move]
    rw [Nat.add_assoc, ← List.drop_drop, whole, ← before, ← List.length_append, ← List.append_assoc, List.drop_left]

/-- Where a semicolon is replaced, the text of the body is copied behind the brace that opens it. -/
theorem body {semicolon : Tag} {body : Body}
    (aligned : Aligned u v p (body.edit semicolon :: edits))
    (inside : semicolon.start ≤ u.bytes.length) :
    Copied body.unit v (p.move semicolon.start + 3 + ·) 0 body.unit.bytes.length := by
  intro a b _ _ _ stop
  have before : (u.bytes.slice p.cut semicolon.start).length = semicolon.start - p.cut := Bytes.length_slice inside
  have opening : (Utf8.encode " \x7b\n").length = 3 := by decide
  have parts : ∃ tail, Workspace.braced body.unit.bytes = Utf8.encode " \x7b\n" ++ (body.unit.bytes ++ tail) := by
    unfold Workspace.braced
    simp only
    split
    · exact ⟨_, by rw [List.append_assoc]⟩
    · exact ⟨[Bytes.newline] ++ Utf8.encode "\x7d", by simp only [List.append_assoc]⟩
  obtain ⟨tail, split⟩ := parts
  have offset : ∀ c, p.move semicolon.start + 3 + c =
      p.out + ((u.bytes.slice p.cut semicolon.start ++ Utf8.encode " \x7b\n").length + c) := by
    intro c
    rw [List.length_append, before, opening, Progress.move]
    omega
  simp only [offset]
  rw [← Bytes.slice_drop, aligned.rest, Body.spliced_edit, split, List.append_assoc, ← List.append_assoc,
    Bytes.slice_append_right, List.append_assoc, Bytes.slice_append_left stop]

end Aligned

/-! ### Copying with bodies in place -/

/-- The copying is before a part of the tree between two offsets, of which the given edits are, and of what comes behind
it the edits `later`. -/
structure Ready (u v : SourceUnit) (p : Progress) (edits later : List Edit) (low high : Nat) : Prop where
  aligned : Aligned u v p (edits ++ later)
  cut : p.cut ≤ low
  inside : high ≤ u.bytes.length
  behind : ∀ edit ∈ later, high ≤ edit.start
  fine : ∀ body ∈ p.bodies, body.Fine

/-- The copying is behind a part of the tree with the given modules that ends at an offset; `nodes` are its copy. -/
structure Done (u v : SourceUnit) (p q : Progress) (sites : List Site) (later : List Edit) (stop : Nat)
    (nodes : List Node) : Prop where
  aligned : Aligned u v q later
  cut : q.cut ≤ stop
  bodies : q.bodies = Site.left sites p.bodies
  within : Node.withinIn 0 v.bytes.length nodes = true

section

variable {u v : SourceUnit} {p q r : Progress} {edits later : List Edit} {low high middle : Nat}
  {sites front rest : List Site} {nodes others : List Node}

/-- What comes before the edits is copied. -/
theorem Ready.copied (ready : Ready u v p edits later low high) {stop : Nat} (shorter : stop ≤ high)
    (ahead : ∀ edit ∈ edits, stop ≤ edit.start) : Copied u v p.move low stop := by
  have inside := ready.inside
  apply ready.aligned.copied ready.cut (by omega)
  intro edit member
  rcases List.mem_append.mp member with here | further
  · exact ahead edit here
  · have := ready.behind edit further
    omega

theorem Ready.room (ready : Ready u v p edits later low high) {stop : Nat} (shorter : stop ≤ high)
    (ahead : ∀ edit ∈ edits, stop ≤ edit.start) : p.move stop ≤ v.bytes.length := by
  have inside := ready.inside
  apply ready.aligned.room (by omega)
  intro edit member
  rcases List.mem_append.mp member with here | further
  · exact ahead edit here
  · have := ready.behind edit further
    omega

theorem Ready.withinIn_moved (ready : Ready u v p edits later low high) {stop : Nat} (shorter : stop ≤ high)
    (ahead : ∀ edit ∈ edits, stop ≤ edit.start) {nodes : List Node} {start : Nat}
    (fine : Node.regularIn start stop nodes = true) :
    Node.withinIn 0 v.bytes.length (Node.movedIn p.move nodes) = true := by
  have room := ready.room shorter ahead
  refine Node.withinIn_moved (fun a _ below => ⟨Nat.zero_le _, ?_⟩) nodes
    (Node.withinIn_of_regularIn fine)
  unfold Progress.move at room ⊢
  omega

/-- Before the first of two parts. -/
theorem Ready.before (ready : Ready u v p (Site.edits (front ++ rest) p.bodies) later low high)
    (run : Edit.Run middle high (Site.edits rest (Site.left front p.bodies))) :
    Ready u v p (Site.edits front p.bodies) (Site.edits rest (Site.left front p.bodies) ++ later) low middle := by
  have aligned := ready.aligned
  have inside := ready.inside
  have ordered := run.le
  rw [Site.edits_append, List.append_assoc] at aligned
  refine ⟨aligned, ready.cut, by omega, ?_, ready.fine⟩
  intro edit member
  rcases List.mem_append.mp member with next | further
  · exact run.start edit next
  · have := ready.behind edit further
    omega

/-- Between two parts. -/
theorem Ready.next (ready : Ready u v p edits later low high)
    (done : Done u v p q front (Site.edits rest (Site.left front p.bodies) ++ later) middle nodes) :
    Ready u v q (Site.edits rest q.bodies) later middle high := by
  refine ⟨?_, done.cut, ready.inside, ready.behind, fun body member => ?_⟩
  · rw [done.bodies]
    exact done.aligned
  · rw [done.bodies] at member
    exact ready.fine body (Site.mem_left member)

theorem Done.append (one : Done u v p q front edits middle nodes) (two : Done u v q r rest later high others) :
    Done u v p r (front ++ rest) later high (nodes ++ others) := by
  refine ⟨two.aligned, two.cut, ?_, ?_⟩
  · rw [two.bodies, one.bodies, Site.left_append]
  · rw [Node.withinIn_append, one.within, two.within]
    rfl

/-- Parts in which no body is put in place are copied. -/
theorem Ready.done (ready : Ready u v p (Site.edits sites p.bodies) later low high)
    (stays : ∀ site ∈ sites, site.semicolon? = none ∨ p.bodies = []) (ordered : low ≤ high)
    (nodes : List Node) (fine : Node.regularIn low high nodes = true) :
    Done u v p p sites later high (Node.movedIn p.move nodes) := by
  obtain ⟨edits, -, left⟩ := Site.of_semicolon?_none stays
  rw [edits] at ready
  have cut := ready.cut
  exact ⟨ready.aligned, by omega, left.symm, ready.withinIn_moved (Nat.le_refl _) (by simp) fine⟩

/-- A node around parts that are copied. -/
theorem Done.around {tag : Tag} {children : List Node} (ready : Ready u v p (Site.edits sites p.bodies) later low high)
    (run : Edit.Run tag.start tag.stop (Site.edits sites p.bodies)) (within : tag.stop ≤ high)
    (done : Done u v p q sites later tag.stop children) :
    Done u v p q sites later tag.stop [⟨tag.around p q, children⟩] := by
  refine ⟨done.aligned, done.cut, done.bodies, ?_⟩
  have ordered := run.le
  have start := ready.room (by omega : tag.start ≤ high) run.start
  have inside := ready.inside
  have stop : q.move tag.stop ≤ v.bytes.length := by
    apply done.aligned.room (by omega)
    intro edit member
    have := ready.behind edit member
    omega
  simp [Node.withinIn, Node.within, Tag.within, Tag.around, start, stop, done.within]

end

theorem Workspace.length_braced (bytes : Bytes) : bytes.length + 4 ≤ (braced bytes).length := by
  have opening : (Utf8.encode " \x7b\n").length = 3 := by decide
  have closing : (Utf8.encode "\x7d").length = 1 := by decide
  unfold braced
  simp only [List.length_append, opening, closing]
  split
  · omega
  · simp only [List.length_append, List.length_singleton]
    omega

theorem Body.within_node {b : Body} (fine : b.Fine) {offset most : Nat}
    (room : offset + (Workspace.braced b.unit.bytes).length ≤ most) : (b.node offset).within 0 most = true := by
  have long := Workspace.length_braced b.unit.bytes
  have inner : Node.withinIn 0 most (Node.movedIn (offset + 3 + ·) b.unit.root.children) = true :=
    Node.withinIn_moved (fun a _ below => ⟨Nat.zero_le _, by omega⟩) _ fine.within
  simp only [Body.node, Node.within, Node.withinIn, Node.withinIn_append, Tag.within, inner, Bool.and_eq_true,
    decide_eq_true_eq, Bool.and_true, true_and]
  omega

section

variable {u v : SourceUnit} {p : Progress} {later : List Edit} {low high : Nat} {children : List Node}

theorem Ready.shrink {edits : List Edit} (ready : Ready u v p edits later low high) {start stop : Nat} (below : low ≤ start)
    (above : stop ≤ high) : Ready u v p edits later start stop := by
  obtain ⟨aligned, cut, inside, behind, fine⟩ := ready
  refine ⟨aligned, by omega, by omega, ?_, fine⟩
  intro edit member
  have := behind edit member
  omega

/-- Where a semicolon is replaced by a body, the parts before and behind it are copied. -/
theorem Ready.pass {semicolon : Tag} {body : Body} {rest : List Body}
    (ready : Ready u v p [body.edit semicolon] later low high) (next : p.bodies = body :: rest)
    (stop : semicolon.stop ≤ high) (ordered : semicolon.start ≤ semicolon.stop) :
    Ready u v (p.pass semicolon body rest) [] later semicolon.stop high := by
  have inside := ready.inside
  refine ⟨ready.aligned.pass (by omega), Nat.le_refl _, inside, ready.behind, ?_⟩
  intro other member
  exact ready.fine other (next ▸ List.mem_cons_of_mem body member)

theorem Ready.replace {semicolon : Node} {body : Body} {rest : List Body}
    (ready : Ready u v p [body.edit semicolon.toTag] later low high) (next : p.bodies = body :: rest)
    (ordered : low ≤ high) (regular : Node.regularIn low high children = true)
    (found : Node.semicolon? children = some semicolon) :
    Node.withinIn 0 v.bytes.length (Node.replaceSemicolon p (p.pass semicolon.toTag body rest)
      (body.node (p.move semicolon.start)) children) = true := by
  obtain ⟨before, after, rfl, kind, last⟩ := Node.semicolon?_eq_some found
  obtain ⟨middle, above, below, front, back⟩ := Node.regularIn_append ordered regular
  simp only [Node.regularIn, Bool.and_eq_true] at back
  have range := Node.regular_range back.1
  have behind : Ready u v (p.pass semicolon.toTag body rest) [] later semicolon.stop high :=
    ready.pass next range.2.2 range.2.1
  have room := behind.aligned.out
  have fine : body.Fine := ready.fine body (by simp [next])
  rw [Node.replaceSemicolon_append p _ _ kind last, Node.withinIn_append, Node.withinIn,
    ready.withinIn_moved below (by simpa using range.1) front, Body.within_node fine room,
    behind.withinIn_moved (Nat.le_refl _) (by simp) back.2]
  rfl

end

namespace SourceUnit

variable {u v : SourceUnit} {later : List Edit}

/-- How a node is copied with bodies in place, given its modules: as it is, when no body is put in place in it; below
the body of a module that has one; with the body of a declaration in place; any other node child by child. -/
inductive Grafted (u : SourceUnit) (spot : Spot) (p : Progress) (tag : Tag) (children : List Node) :
    List Site → Node × Progress → Prop where
  | copied {sites : List Site} (stays : ∀ site ∈ sites, site.semicolon? = none ∨ p.bodies = []) :
      Grafted u spot p tag children sites (Node.moved p.move ⟨tag, children⟩, p)
  | opened {site : Site} (module : tag.kind = "mod_item") (stays : site.semicolon? = none) :
      Grafted u spot p tag children
        (site :: u.sitesInBody undeclaringKinds (spot.enter (u.entered spot.module children)) children)
        (⟨tag.around p (Node.graftInBody children p).2, (Node.graftInBody children p).1⟩, (Node.graftInBody children p).2)
  | declared {site : Site} {semicolon : Node} {body : Body} {rest : List Body} (module : tag.kind = "mod_item")
      (missing : children.any (·.fills "body") = false) (found : Node.semicolon? children = some semicolon)
      (next : p.bodies = body :: rest) (declares : site.semicolon? = some semicolon.toTag) :
      Grafted u spot p tag children [site]
        (⟨tag.around p (p.pass semicolon.toTag body rest), Node.replaceSemicolon p (p.pass semicolon.toTag body rest)
          (body.node (p.move semicolon.start)) children⟩, p.pass semicolon.toTag body rest)
  | split (other : tag.kind ≠ "mod_item") :
      Grafted u spot p tag children (u.sitesIn undeclaringKinds spot [] children)
        (⟨tag.around p (Node.graftIn children p).2, (Node.graftIn children p).1⟩, (Node.graftIn children p).2)

theorem grafted {spot : Spot} (looked : spot.sealed = false) (tag : Tag) (children earlier : List Node) (p : Progress) :
    Grafted u spot p tag children (u.sitesAt undeclaringKinds spot earlier ⟨tag, children⟩)
      (Node.graftAt ⟨tag, children⟩ p) := by
  simp only [Node.graftAt, sitesAt]
  split
  · exact .copied (by simp)
  · split
    · next module =>
      have module : tag.kind = "mod_item" := by simpa using module
      split
      · next given => exact .opened module (by simp [Site.semicolon?, given])
      · next missing =>
        have missing : children.any (·.fills "body") = false := by simpa using missing
        have declares : ∀ path, Site.semicolon? ⟨⟨⟨tag, children⟩, earlier⟩, path, spot⟩ =
            (Node.semicolon? children).map Node.toTag := by
          intro path
          rw [semicolon?_of_open looked, missing]
          rfl
        rw [sitesInBody_eq_nil missing]
        split
        · next semicolon body rest found next =>
          exact .declared module missing found next (by rw [declares, found]; rfl)
        · next none =>
          refine .copied ?_
          intro site member
          rw [List.mem_singleton.mp member, declares]
          cases found : Node.semicolon? children with
          | none => exact .inl rfl
          | some semicolon =>
            cases left : p.bodies with
            | nil => exact .inr rfl
            | cons body rest => exact absurd left (none semicolon body rest found)
    · next other =>
      have other : tag.kind ≠ "mod_item" := by simpa using other
      split
      · next undeclaring =>
        exact .copied fun site member => .inl (by
          have closed := sealed_sitesIn children _ [] (by rw [Spot.into, undeclaring, Bool.or_true]) site member
          simp [Site.semicolon?, closed])
      · next declaring =>
        have same : spot.into undeclaringKinds tag.kind = spot := by
          simp only [Spot.into, Bool.not_eq_true] at declaring ⊢
          rw [declaring, Bool.or_false]
        rw [same]
        exact .split other

mutual

/-- A node of a regular tree is copied with bodies in place. -/
theorem graftAt_done : ∀ (n : Node) (spot : Spot) (earlier : List Node) (p : Progress) (later : List Edit) (low high : Nat),
    spot.sealed = false → n.regular low high = true →
      Ready u v p (Site.edits (u.sitesAt undeclaringKinds spot earlier n) p.bodies) later low high →
        Done u v p (n.graftAt p).2 (u.sitesAt undeclaringKinds spot earlier n) later n.stop [(n.graftAt p).1]
  | ⟨tag, children⟩, spot, earlier, p, later, low, high, looked, regular, ready => by
    obtain ⟨range, field, inner⟩ := Node.regular_iff.mp regular
    have whole : Node.regularIn tag.start tag.stop [⟨tag, children⟩] = true := by
      simpa [Node.regularIn] using Node.regular_iff.mpr ⟨by omega, field, inner⟩
    have ready := ready.shrink range.1 range.2.2
    have run : Edit.Run tag.start tag.stop (Site.edits (u.sitesAt undeclaringKinds spot earlier ⟨tag, children⟩) p.bodies) :=
      edits_run _ spot earlier p.bodies _ _ (Node.regular_iff.mpr ⟨by omega, field, inner⟩)
    have cases := u.grafted looked tag children earlier p
    change Done u v p _ _ later tag.stop _
    revert ready run
    generalize u.sitesAt undeclaringKinds spot earlier ⟨tag, children⟩ = sites at cases ⊢
    generalize Node.graftAt ⟨tag, children⟩ p = copy at cases ⊢
    intro ready run
    cases cases with
    | copied stays => exact ready.done stays range.2.1 [⟨tag, children⟩] whole
    | @opened site module stays =>
      have inBody := ready
      rw [Site.edits_of_none stays] at inBody
      have body := graftInBody_done children (spot.enter (u.entered spot.module children)) p later tag.start tag.stop looked
        range.2.1 inner inBody
      refine Done.around ready run (Nat.le_refl _) ⟨body.aligned, body.cut, ?_, body.within⟩
      rw [Site.left_of_none stays]
      exact body.bodies
    | @declared site semicolon body rest module missing found next declares =>
      have place := Node.regular_range (Node.regular_of_mem inner (Node.mem_of_semicolon? found).1)
      have here := ready
      rw [Site.edits_of_some declares next] at here
      have behind : Ready u v (p.pass semicolon.toTag body rest) [] later semicolon.stop tag.stop :=
        here.pass next place.2.2 place.2.1
      refine Done.around ready run (Nat.le_refl _) ⟨behind.aligned, place.2.2, ?_, ?_⟩
      · simp [Site.left, declares, next, Progress.pass]
      · exact here.replace next range.2.1 inner found
    | split other =>
      exact Done.around ready run (Nat.le_refl _)
        (graftIn_done children spot [] p later tag.start tag.stop looked range.2.1 inner ready)
termination_by structural n => n

theorem graftIn_done : ∀ (nodes : List Node) (spot : Spot) (earlier : List Node) (p : Progress) (later : List Edit)
    (low high : Nat), spot.sealed = false → low ≤ high →
      Node.regularIn low high nodes = true →
        Ready u v p (Site.edits (u.sitesIn undeclaringKinds spot earlier nodes) p.bodies) later low high →
          Done u v p (Node.graftIn nodes p).2 (u.sitesIn undeclaringKinds spot earlier nodes) later high
            (Node.graftIn nodes p).1
  | [], _, _, _, _, _, _, _, ordered, _, ready => ready.done (by simp [sitesIn]) ordered [] rfl
  | n :: rest, spot, earlier, p, later, low, high, looked, ordered, regular, ready => by
    simp only [Node.regularIn, Bool.and_eq_true] at regular
    have range := Node.regular_range regular.1
    have first := graftAt_done n spot earlier p _ low n.stop looked (Node.regular_stop regular.1)
      (ready.before (edits_runIn rest spot _ _ n.stop high range.2.2 regular.2))
    exact first.append (graftIn_done rest spot _ _ later n.stop high looked range.2.2 regular.2 (ready.next first))
termination_by structural l => l

theorem graftInBody_done : ∀ (nodes : List Node) (spot : Spot) (p : Progress) (later : List Edit) (low high : Nat),
    spot.sealed = false → low ≤ high → Node.regularIn low high nodes = true →
      Ready u v p (Site.edits (u.sitesInBody undeclaringKinds spot nodes) p.bodies) later low high →
        Done u v p (Node.graftInBody nodes p).2 (u.sitesInBody undeclaringKinds spot nodes) later high
          (Node.graftInBody nodes p).1
  | [], _, _, _, _, _, _, ordered, _, ready => ready.done (by simp [sitesInBody]) ordered [] rfl
  | n :: rest, spot, p, later, low, high, looked, ordered, regular, ready => by
    simp only [Node.regularIn, Bool.and_eq_true] at regular
    have range := Node.regular_range regular.1
    have whole : Node.regularIn low n.stop [n] = true := by
      simpa [Node.regularIn] using Node.regular_stop regular.1
    simp only [Node.graftInBody, sitesInBody] at ready ⊢
    split at ready
    · next fills =>
      simp only [fills, if_true]
      have first := graftBelow_done n spot p later low n.stop looked
        (Node.regular_stop regular.1) (ready.shrink (Nat.le_refl _) range.2.2)
      have after : Ready u v (n.graftBelow p).2 (Site.edits [] (n.graftBelow p).2.bodies) later n.stop high :=
        ready.next first
      simpa using first.append (after.done (by simp) range.2.2 rest regular.2)
    · next fills =>
      simp only [fills]
      have ahead : Ready u v p (Site.edits [] p.bodies)
          (Site.edits (u.sitesInBody undeclaringKinds spot rest) (Site.left [] p.bodies) ++ later) low n.stop :=
        Ready.before ready (edits_runBody rest spot p.bodies n.stop high range.2.2 regular.2)
      have first := ahead.done (by simp) (by omega) [n] whole
      exact first.append (graftInBody_done rest spot p later n.stop high looked range.2.2 regular.2 (ready.next first))
termination_by structural l => l

theorem graftBelow_done : ∀ (n : Node) (spot : Spot) (p : Progress) (later : List Edit) (low high : Nat),
    spot.sealed = false → n.regular low high = true →
      Ready u v p (Site.edits (u.sitesBelow undeclaringKinds spot n) p.bodies) later low high →
        Done u v p (n.graftBelow p).2 (u.sitesBelow undeclaringKinds spot n) later n.stop [(n.graftBelow p).1]
  | ⟨tag, children⟩, spot, p, later, low, high, looked, regular, ready => by
    obtain ⟨range, -, inner⟩ := Node.regular_iff.mp regular
    have ready := ready.shrink range.1 range.2.2
    exact Done.around ready (edits_runIn children spot [] _ _ _ range.2.1 inner) (Nat.le_refl _)
      (graftIn_done children spot [] p later tag.start tag.stop looked range.2.1 inner ready)
termination_by structural n => n

end

end SourceUnit
end CrateFold
