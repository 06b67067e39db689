import CrateFold.Proofs.PathNodes

/-!
Use trees. `UseTree` is what a `use` declaration is written with, and `UseTree.leaves` lists the names in it, each with
the whole path that leads to it. `SourceUnit.Writes` says which nodes stand for a use tree. Reading them gives one import
for each leaf, in source order, unless some path starts with `::` (`useTree_imports`); a path behind another one is
appended to it, as `crate` stands nowhere but at the start of a whole path (`Settles.extend`).
-/
namespace CrateFold

/-- A use tree. -/
inductive UseTree where
  | path (path : SourcePath)
  /-- A path under another name. -/
  | renamed (path : SourcePath) (name : String)
  /-- All names of a path, which may be left out. -/
  | glob (path : SourcePath)
  /-- Trees in braces behind a path, which may be left out. -/
  | group (path : SourcePath) (trees : List UseTree)

/-- The name that a leaf of a use tree gets. -/
inductive LeafName where
  /-- The last segment of what it imports. -/
  | last
  | given (name : String)
  | glob
deriving DecidableEq, Repr

/-- A leaf of a use tree. -/
structure UseLeaf where
  /-- The paths of the groups around it and its own one. -/
  path : List String
  name : LeafName
deriving DecidableEq, Repr

namespace UseLeaf

/-- A leaf in a group. -/
def below (front : List String) (l : UseLeaf) : UseLeaf := { l with path := front ++ l.path }

/-- The path of what a leaf imports: a `self` at the end stands for what is before it, a glob ends in `*`. -/
def target (l : UseLeaf) : ModulePath :=
  match l.name with
  | .glob => ⟨l.path ++ ["*"]⟩
  | _ => if l.path.getLast? = some "self" ∧ l.path ≠ ["self"] then ⟨l.path.dropLast⟩ else ⟨l.path⟩

/-- What a leaf imports, and under which name. -/
def toImport (l : UseLeaf) : Import where
  target := l.target
  name := match l.name with
    | .last => l.target.segments.getLast?
    | .given name => some name
    | .glob => some "*"

theorem below_append (front next : List String) (l : UseLeaf) : l.below (front ++ next) = (l.below next).below front := by
  simp [below]

end UseLeaf

namespace UseTree

mutual

/-- The leaves of a use tree, in source order. -/
def leaves : UseTree → List UseLeaf
  | .path p => [⟨p.segments, .last⟩]
  | .renamed p name => [⟨p.segments, .given name⟩]
  | .glob p => [⟨p.segments, .glob⟩]
  | .group p trees => (leavesIn trees).map (.below p.segments)
termination_by structural tree => tree

/-- The leaves of several use trees. -/
def leavesIn : List UseTree → List UseLeaf
  | [] => []
  | tree :: rest => tree.leaves ++ leavesIn rest
termination_by structural trees => trees

end

mutual

/-- The paths in a use tree. -/
def paths : UseTree → List SourcePath
  | .path p | .renamed p _ | .glob p => [p]
  | .group p trees => p :: pathsIn trees
termination_by structural tree => tree

/-- The paths in several use trees. -/
def pathsIn : List UseTree → List SourcePath
  | [] => []
  | tree :: rest => tree.paths ++ pathsIn rest
termination_by structural trees => trees

end

end UseTree

namespace SourceUnit

/-- The path before a glob or a list in braces. Where it is left out, a `::` may stand all the same. -/
inductive Opens (u : SourceUnit) (n : Node) : Option Node → SourcePath → Prop where
  | path {front : Node} {p : SourcePath} (spells : u.Spells front p) : Opens u n (some front) p
  | bare {text : String} (read : u.textOf n.toTag = .ok text) : Opens u n none ⟨n.startsWithSeparator, []⟩

mutual

/-- The use tree that a node stands for. -/
inductive Writes (u : SourceUnit) : Node → UseTree → Prop where
  | path {n : Node} {p : SourcePath} (shape : UseShape.ofKind n.kind = .leaf) (spells : u.Spells n p) :
      Writes u n (.path p)
  | renamed {n front other : Node} {p : SourcePath} {name : String} (shape : UseShape.ofKind n.kind = .renamed)
      (path : n.child? "path" = some front) (spells : u.Spells front p) (given : n.child? "alias" = some other)
      (read : u.textOf other.toTag = .ok name) : Writes u n (.renamed p name)
  | glob {n : Node} {p : SourcePath} (shape : UseShape.ofKind n.kind = .glob) (opens : u.Opens n n.firstNamed? p) :
      Writes u n (.glob p)
  | list {n : Node} {trees : List UseTree} (shape : UseShape.ofKind n.kind = .list)
      (parts : WritesIn u n.namedChildren trees) : Writes u n (.group ⟨false, []⟩ trees)
  | group {n braces : Node} {p : SourcePath} {trees : List UseTree} (shape : UseShape.ofKind n.kind = .scopedList)
      (opens : u.Opens n (n.child? "path") p) (list : n.child? "list" = some braces)
      (inner : UseShape.ofKind braces.kind = .list) (parts : WritesIn u braces.namedChildren trees) :
      Writes u n (.group p trees)

/-- The use trees that nodes stand for, one by one. -/
inductive WritesIn (u : SourceUnit) : List Node → List UseTree → Prop where
  | nil : WritesIn u [] []
  | cons {n : Node} {tree : UseTree} {rest : List Node} {trees : List UseTree} (first : Writes u n tree)
      (later : WritesIn u rest trees) : WritesIn u (n :: rest) (tree :: trees)

end

variable {u : SourceUnit} {n : Node} {p : SourcePath} {base : ModulePath} {s : Scope}

/-! ### Reading with a base -/

/-- What reading use trees behind a base comes to, given their paths and leaves: a path with a leading `::` is refused;
without one there is an import for each leaf, behind the base, as long as no `crate` follows anything. -/
def Settles (u : SourceUnit) (paths : List SourcePath) (leaves : List UseLeaf) (base : List String) (s : Scope)
    (outcome : Except Fault (Scope × List Import)) : Prop :=
  ((∃ p ∈ paths, p.leading = true) ∧ u.Refused outcome) ∨
    (∀ p ∈ paths, p.leading = false) ∧ ∃ list, outcome = .ok (s, list) ∧
      ((∀ l ∈ leaves, "crate" ∉ (l.below base).path.tail) → list = leaves.map fun l => (l.below base).toImport)

theorem mem_tail_append {α : Type} {front rest : List α} {a : α} (member : a ∈ front.tail) : a ∈ (front ++ rest).tail := by
  cases front with
  | nil => cases member
  | cons => exact List.mem_append_left _ member

/-- Behind a base that goes on without `crate`, a path is appended to it. -/
theorem join_of_tail {base : ModulePath} {path : List String} (tail : "crate" ∉ (base.segments ++ path).tail) :
    base.join ⟨path⟩ = ⟨base.segments ++ path⟩ := by
  rcases base with ⟨_ | ⟨first, rest⟩⟩
  · simp [ModulePath.join]
  · refine ModulePath.join_plain _ ?_
    rintro _ found rfl
    have member : "crate" ∈ path := List.mem_of_head? found
    exact tail (by simp [member])

/-- A path before trees: they are read behind the base that it extends. -/
theorem Settles.extend (base : ModulePath) {paths : List SourcePath} {leaves : List UseLeaf}
    {extended : Except Fault ModulePath} {next : ModulePath → Except Fault (Scope × List Import)}
    (refused : p.leading = true → u.Refused extended) (plain : p.leading = false → extended = .ok (base.join ⟨p.segments⟩))
    (settles : ∀ base : ModulePath, u.Settles paths leaves base.segments s (next base)) :
    u.Settles (p :: paths) (leaves.map (.below p.segments)) base.segments s (extended >>= next) := by
  cases start : p.leading with
  | true => exact .inl ⟨⟨p, by simp, start⟩, (refused start).bind next⟩
  | false =>
    rw [plain start, ok_bind]
    rcases settles (base.join ⟨p.segments⟩) with ⟨⟨q, member, leading⟩, stopped⟩ | ⟨all, list, read, same⟩
    · exact .inl ⟨⟨q, by simp [member], leading⟩, stopped⟩
    · refine .inr ⟨by simpa [start] using all, list, read, ?_⟩
      intro crates
      -- without a leaf the base does not matter; with one, nothing was reset at `crate`
      cases leaves with
      | nil => exact same (by simp)
      | cons leaf rest =>
        have tail : "crate" ∉ (base.segments ++ p.segments).tail := by
          have whole := crates (leaf.below p.segments) (by simp)
          rw [← UseLeaf.below_append] at whole
          exact fun member => whole (mem_tail_append member)
        rw [join_of_tail tail] at same
        simp only [UseLeaf.below_append] at same
        rw [List.map_map]
        exact same fun l member => crates _ (List.mem_map_of_mem member)

/-- Trees one after another. -/
theorem Settles.append {paths more : List SourcePath} {leaves others : List UseLeaf}
    {outcome : Except Fault (Scope × List Import)} {next : Scope → Except Fault (Scope × List Import)}
    (first : u.Settles paths leaves base.segments s outcome) (later : u.Settles more others base.segments s (next s)) :
    u.Settles (paths ++ more) (leaves ++ others) base.segments s
      (outcome >>= fun found => next found.1 >>= fun rest => .ok (rest.1, found.2 ++ rest.2)) := by
  rcases first with ⟨⟨p, member, leading⟩, refused⟩ | ⟨plain, here, read, same⟩
  · exact .inl ⟨⟨p, by simp [member], leading⟩, refused.bind _⟩
  · rw [read, ok_bind]
    rcases later with ⟨⟨p, member, leading⟩, refused⟩ | ⟨others, list, rest, alike⟩
    · exact .inl ⟨⟨p, by simp [member], leading⟩, refused.bind _⟩
    · refine .inr ⟨?_, here ++ list, by rw [rest, ok_bind], ?_⟩
      · intro p member
        exact (List.mem_append.mp member).elim (plain p) (others p)
      · intro crates
        rw [List.map_append, same fun l member => crates l (by simp [member]),
          alike fun l member => crates l (by simp [member])]

/-! ### Reading use trees -/

theorem Opens.extendBase_refused {part : Option Node} (opens : u.Opens n part p) (leading : p.leading = true) :
    u.Refused (u.extendBase base n.toTag n.children part) := by
  cases opens with
  | path spells => exact (spells.usePath_refused leading).bind _
  | bare read => exact (refuseLeadingSeparator_refused leading read).bind _

theorem Opens.extendBase {part : Option Node} (opens : u.Opens n part p) (valid : p.IsValid) (plain : p.leading = false) :
    u.extendBase base n.toTag n.children part = .ok (base.join ⟨p.segments⟩) := by
  cases opens with
  | path spells => simp only [SourceUnit.extendBase, spells.usePath valid plain, ok_bind, pure_eq_ok]
  | bare read =>
    simp only [Node.startsWithSeparator] at plain
    simp [SourceUnit.extendBase, refuseLeadingSeparator, plain, ModulePath.join_empty]

theorem Opens.visit_path {part : Option Node} (opens : u.Opens n part p) :
    (part.elim (.ok s) fun front => u.visit .path front s) = .ok s := by
  cases opens with
  | path spells => exact spells.visit_path s
  | bare => rfl

theorem importTarget_eq (path : ModulePath) : importTarget path =
    if path.segments.getLast? = some "self" ∧ path.segments ≠ ["self"] then ⟨path.segments.dropLast⟩ else ⟨path.segments⟩ := by
  rcases path with ⟨segments⟩
  have long : segments.getLast? = some "self" → (1 < segments.length ↔ segments ≠ ["self"]) := by
    intro last
    match segments with
    | [] => cases last
    | [segment] => simp_all
    | first :: second :: rest => simp
  by_cases last : segments.getLast? = some "self"
  · simp [importTarget, ModulePath.last?, ModulePath.length, ModulePath.parent, last, long last]
  · simp [importTarget, ModulePath.last?, last]

theorem importsIn_named (base : ModulePath) (nodes : List Node) (s : Scope) :
    u.importsIn base (·.named) .all nodes s = u.importsIn base (fun _ => true) .all (nodes.filter (·.named)) s := by
  induction nodes generalizing s with
  | nil => rfl
  | cons n rest ih =>
    rw [importsIn_cons, List.filter_cons]
    cases n.named with
    | true =>
      rw [if_pos rfl, importsIn_cons]
      simp only [ih]
    | false => simpa using ih s

theorem importsAt_leaf (shape : UseShape.ofKind n.kind = .leaf) (spells : u.Spells n p) :
    u.importsAt base n s = u.extendBase base n.toTag n.children (some n) >>= fun path =>
      .ok (s, [⟨(importTarget path).last?, importTarget path⟩]) := by
  simp only [importsAt, shape, BEq.rfl, if_true, spells.visit_path, importLeaf, extendBase]
  cases u.usePath n <;> rfl

theorem importsAt_renamed {front other : Node} {name : String} (shape : UseShape.ofKind n.kind = .renamed)
    (path : n.child? "path" = some front) (spells : u.Spells front p) (given : n.child? "alias" = some other)
    (read : u.textOf other.toTag = .ok name) :
    u.importsAt base n s = u.extendBase base n.toTag n.children (some front) >>= fun path =>
      .ok (s, [⟨some name, importTarget path⟩]) := by
  rcases n with ⟨tag, children⟩
  simp only [Node.child?] at path given
  have way : u.visitIn (fieldPosition "path" .path) .first children s = .ok s := by
    refine (visitIn_first u (·.fills "path") .path children s).trans ?_
    rw [path]
    exact spells.visit_path s
  simp only [importsAt, shape, imports, path, way, given, nameOf, read, extendBase]
  cases u.usePath front <;> rfl

theorem importsAt_glob (shape : UseShape.ofKind n.kind = .glob) (opens : u.Opens n n.firstNamed? p) :
    u.importsAt base n s = u.extendBase base n.toTag n.children n.firstNamed? >>= fun path =>
      .ok (s, [⟨some "*", path.join ⟨["*"]⟩⟩]) := by
  rcases n with ⟨tag, children⟩
  have way : u.visitIn (namedPosition .path) .first children s = .ok s :=
    (visitIn_first u (·.named) .path children s).trans opens.visit_path
  simp only [importsAt, shape, imports, way]
  rfl

theorem importsAt_list (shape : UseShape.ofKind n.kind = .list) :
    u.importsAt base n s = u.importsIn base (fun _ => true) .all n.namedChildren s := by
  rcases n with ⟨tag, children⟩
  simp only [importsAt, shape, imports]
  exact importsIn_named base children s

theorem importsAt_group {braces : Node} (shape : UseShape.ofKind n.kind = .scopedList)
    (opens : u.Opens n (n.child? "path") p) (list : n.child? "list" = some braces) :
    u.importsAt base n s = u.extendBase base n.toTag n.children (n.child? "path") >>= fun path =>
      u.importsAt path braces s := by
  rcases n with ⟨tag, children⟩
  have way : u.visitIn (fieldPosition "path" .path) .first children s = .ok s :=
    (visitIn_first u (·.fills "path") .path children s).trans opens.visit_path
  simp only [Node.child?] at list
  simp only [importsAt, shape, imports, way, importsIn_first, list]
  rfl

/-- A path by itself comes to a leaf of the given name. -/
theorem settles_path {part : Option Node} {name : LeafName} {import? : ModulePath → Import} (opens : u.Opens n part p)
    (valid : p.IsValid) (same : ∀ base : ModulePath, import? base = (UseLeaf.mk base.segments name).toImport) :
    u.Settles [p] [⟨p.segments, name⟩] base.segments s
      (u.extendBase base n.toTag n.children part >>= fun path => .ok (s, [import? path])) := by
  have settles : ∀ base : ModulePath, u.Settles [] [⟨[], name⟩] base.segments s (.ok (s, [import? base])) := by
    intro base
    refine .inr ⟨by simp, _, rfl, fun _ => ?_⟩
    rw [same]
    simp [UseLeaf.below]
  have whole := Settles.extend base opens.extendBase_refused (opens.extendBase valid) settles
  simpa [UseLeaf.below] using whole

mutual

theorem importsAt_settles : ∀ (tree : UseTree) (n : Node) (base : ModulePath) (s : Scope), u.Writes n tree →
    (∀ p ∈ tree.paths, p.IsValid) → u.Settles tree.paths tree.leaves base.segments s (u.importsAt base n s)
  | .path p, n, base, s, .path shape spells, valid => by
    rw [importsAt_leaf shape spells]
    refine settles_path (.path spells) (valid p (by simp [UseTree.paths])) ?_
    intro base
    simp only [UseLeaf.toImport, UseLeaf.target, importTarget_eq, ModulePath.last?]
  | .renamed p name, n, base, s, .renamed shape path spells given read, valid => by
    rw [importsAt_renamed shape path spells given read]
    refine settles_path (.path spells) (valid p (by simp [UseTree.paths])) ?_
    intro base
    simp only [UseLeaf.toImport, UseLeaf.target, importTarget_eq]
  | .glob p, n, base, s, .glob shape opens, valid => by
    rw [importsAt_glob shape opens]
    exact settles_path opens (valid p (by simp [UseTree.paths])) fun base => rfl
  | .group _ trees, n, base, s, .list shape parts, valid => by
    obtain ⟨-, below⟩ := List.forall_mem_cons.mp valid
    rw [importsAt_list shape]
    have bare : (.ok base : Except Fault ModulePath) = .ok (base.join ⟨[]⟩) := by rw [ModulePath.join_empty]
    have whole := Settles.extend base (p := ⟨false, []⟩) (by simp) (fun _ => bare)
      fun base => importsIn_settles trees _ base s parts below
    exact whole
  | .group p trees, n, base, s, .group shape opens list inner parts, valid => by
    obtain ⟨here, below⟩ := List.forall_mem_cons.mp valid
    rw [importsAt_group shape opens list]
    refine Settles.extend base opens.extendBase_refused (opens.extendBase here) ?_
    intro base
    rw [importsAt_list inner]
    exact importsIn_settles trees _ base s parts below
termination_by structural tree => tree

theorem importsIn_settles : ∀ (trees : List UseTree) (nodes : List Node) (base : ModulePath) (s : Scope),
    u.WritesIn nodes trees → (∀ p ∈ UseTree.pathsIn trees, p.IsValid) →
    u.Settles (UseTree.pathsIn trees) (UseTree.leavesIn trees) base.segments s
      (u.importsIn base (fun _ => true) .all nodes s)
  | [], _, base, s, .nil, _ => .inr ⟨by simp [UseTree.pathsIn], [], rfl, fun _ => rfl⟩
  | tree :: trees, _, base, s, .cons first later, valid => by
    obtain ⟨here, rest⟩ := List.forall_mem_append.mp valid
    rw [importsIn_cons]
    exact (importsAt_settles tree _ base s first here).append (importsIn_settles trees _ base s later rest)
termination_by structural trees => trees

end

theorem visit_use {d : Node} (kind : d.kind = "use_declaration") (argument : d.child? "argument" = some n) (s : Scope) :
    u.visit .item d s = (fun found => found.1.addItem (.imports found.2)) <$> u.importsAt .empty n s := by
  rcases d with ⟨tag, children⟩
  have rule : Rule.ofKind tag.kind = .use := by rw [kind]; rfl
  rw [Node.child?] at argument
  have fills := List.find?_some argument
  have there : children.any (·.fills "argument") = true :=
    List.any_eq_true.mpr ⟨n, List.mem_of_find?_eq_some argument, fills⟩
  simp only [visit, rule, there, if_true, importsIn_first, argument, Option.elim_some]
  cases u.importsAt .empty n s <;> rfl

/-- What a `use` declaration imports. Reading a use tree with segments that can be read and `crate` only at the start of a
leaf's whole path ends in an error for an unsupported construct exactly if some path in it starts with `::`; otherwise it
gives one import for each leaf, in source order, and the declaration adds them as one item. -/
theorem useTree_imports (u : SourceUnit) {tree : UseTree} {n : Node} (writes : u.Writes n tree)
    (valid : ∀ p ∈ tree.paths, p.IsValid) (crates : ∀ l ∈ tree.leaves, "crate" ∉ l.path.tail) (s : Scope) :
    ((∃ error, u.importsAt .empty n s = .error (.bundle error) ∧ error.problem = .unsupported) ↔
      ∃ p ∈ tree.paths, p.leading = true) ∧
    ((¬ ∃ p ∈ tree.paths, p.leading = true) →
      u.importsAt .empty n s = .ok (s, tree.leaves.map UseLeaf.toImport)) ∧
    ∀ d : Node, d.kind = "use_declaration" → d.child? "argument" = some n →
      u.visit .item d s = (fun found => found.1.addItem (.imports found.2)) <$> u.importsAt .empty n s := by
  refine ⟨?_, ?_, fun d kind argument => visit_use kind argument s⟩
  all_goals
    rcases importsAt_settles tree n .empty s writes valid with ⟨leading, t, text, refused⟩ | ⟨plain, list, read, same⟩
  · exact ⟨fun _ => leading, fun _ => ⟨_, refused, rfl⟩⟩
  · constructor
    · rintro ⟨error, stopped, -⟩
      rw [read] at stopped
      cases stopped
    · rintro ⟨p, member, leading⟩
      rw [plain p member] at leading
      cases leading
  · exact fun none => absurd leading none
  · intro
    rw [read, same crates]
    rfl

/-- The tree `a::{b, c::d as e, self, f::*}`, from offset 4 on. -/
def groupedUse : Node :=
  ⟨{ kind := "scoped_use_list", named := true, start := 4, stop := 33, field := some "argument" }, [
    ⟨{ kind := "identifier", named := true, start := 4, stop := 5, field := some "path" }, []⟩,
    ⟨{ kind := "::", start := 5, stop := 7 }, []⟩,
    ⟨{ kind := "use_list", named := true, start := 7, stop := 33, field := some "list" }, [
      ⟨{ kind := "identifier", named := true, start := 8, stop := 9 }, []⟩,
      ⟨{ kind := "use_as_clause", named := true, start := 11, stop := 20 }, [
        ⟨{ kind := "scoped_identifier", named := true, start := 11, stop := 15, field := some "path" }, [
          ⟨{ kind := "identifier", named := true, start := 11, stop := 12, field := some "path" }, []⟩,
          ⟨{ kind := "identifier", named := true, start := 14, stop := 15, field := some "name" }, []⟩]⟩,
        ⟨{ kind := "identifier", named := true, start := 19, stop := 20, field := some "alias" }, []⟩]⟩,
      ⟨{ kind := "self", named := true, start := 22, stop := 26 }, []⟩,
      ⟨{ kind := "use_wildcard", named := true, start := 28, stop := 32 }, [
        ⟨{ kind := "identifier", named := true, start := 28, stop := 29 }, []⟩,
        ⟨{ kind := "::", start := 29, stop := 31 }, []⟩,
        ⟨{ kind := "*", start := 31, stop := 32 }, []⟩]⟩]⟩]⟩

/-- The tree `{g, ::h::i}`, from offset 39 on. -/
def leadingUse : Node :=
  ⟨{ kind := "use_list", named := true, start := 39, stop := 50, field := some "argument" }, [
    ⟨{ kind := "identifier", named := true, start := 40, stop := 41 }, []⟩,
    ⟨{ kind := "scoped_identifier", named := true, start := 43, stop := 49 }, [
      ⟨{ kind := "scoped_identifier", named := true, start := 43, stop := 46, field := some "path" }, [
        ⟨{ kind := "::", start := 43, stop := 45 }, []⟩,
        ⟨{ kind := "identifier", named := true, start := 45, stop := 46, field := some "name" }, []⟩]⟩,
      ⟨{ kind := "::", start := 46, stop := 48 }, []⟩,
      ⟨{ kind := "identifier", named := true, start := 48, stop := 49, field := some "name" }, []⟩]⟩]⟩

/-- The source `use a::{b, c::d as e, self, f::*}; use {g, ::h::i};`. -/
def twoUses : SourceUnit where
  path := ⟨0, ["lib.rs"]⟩
  bytes := Utf8.encode "use a::\x7bb, c::d as e, self, f::*\x7d; use \x7bg, ::h::i\x7d;"
  root := ⟨{ kind := "source_file", named := true, stop := 51 }, [
    ⟨{ kind := "use_declaration", named := true, start := 0, stop := 34 }, [groupedUse]⟩,
    ⟨{ kind := "use_declaration", named := true, start := 35, stop := 51 }, [leadingUse]⟩]⟩

theorem useTree_imports_twoUses :
    twoUses.importsAt .empty groupedUse .empty = .ok (.empty, [⟨some "b", ⟨["a", "b"]⟩⟩, ⟨some "e", ⟨["a", "c", "d"]⟩⟩,
      ⟨some "a", ⟨["a"]⟩⟩, ⟨some "*", ⟨["a", "f", "*"]⟩⟩]) ∧
    ∃ error, twoUses.importsAt .empty leadingUse .empty = .error (.bundle error) ∧ error.problem = .unsupported := by
  have grouped : twoUses.Writes groupedUse (.group ⟨false, ["a"]⟩ [.path ⟨false, ["b"]⟩, .renamed ⟨false, ["c", "d"]⟩ "e",
      .path ⟨false, ["self"]⟩, .glob ⟨false, ["f"]⟩]) :=
    .group rfl (.path (.segment rfl rfl)) rfl rfl (.cons (.path rfl (.segment rfl rfl)) (.cons
      (.renamed rfl rfl (.behind rfl rfl (.segment rfl rfl) rfl rfl) rfl rfl) (.cons (.path rfl (.segment rfl rfl)) (.cons
      (.glob rfl (.path (.segment rfl rfl))) .nil))))
  have leading : twoUses.Writes leadingUse (.group ⟨false, []⟩ [.path ⟨false, ["g"]⟩, .path ⟨true, ["h", "i"]⟩]) :=
    .list rfl (.cons (.path rfl (.segment rfl rfl)) (.cons
      (.path rfl (.behind rfl rfl (.leading rfl rfl rfl rfl rfl rfl) rfl rfl)) .nil))
  exact ⟨(useTree_imports twoUses grouped (by decide +kernel) (by decide) .empty).2.1 (by decide),
    (useTree_imports twoUses leading (by decide +kernel) (by decide) .empty).1.mpr (by decide)⟩

end SourceUnit

end CrateFold
