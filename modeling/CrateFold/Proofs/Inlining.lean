import CrateFold.Proofs.Rereading

/-!
Loading keeps what is read. Loading a crate goes through a tree of files (`Expands`): the crate root file, and
for each declaration in a file the file of the declared module. The unit that is loaded is made from the
bottom up, each file with the bundles of its parts put in place of their declarations (`FileTree.body`). If
the grammar reads the loaded text as the tree so made, the scope tree of the crate is that of the root file
in which every declared module is replaced by a module with the scope of its file, likewise made
(`scopeTree_of_load`).
-/
namespace CrateFold

/-! ### Trees of files -/

/-- A file of a crate with the files of the modules that it declares, in order. -/
inductive FileTree where
  | node (unit : SourceUnit) (parts : List FileTree)

/-- The scope of a unit, empty if it has none. -/
def SourceUnit.ownScope (u : SourceUnit) : Scope :=
  match u.scope with
  | .ok s => s
  | .error _ => .empty

namespace FileTree

mutual

/-- The bundle of a file: its text and its tree with the bundles of its parts in place, and its own scope with their
scopes in place. -/
def body : FileTree → Body
  | ⟨unit, parts⟩ => {
      unit := unit.graft (bodies parts)
      scope := (Scope.fill (Site.slots (unit.sites SourceUnit.undeclaringKinds) (bodies parts)) unit.ownScope).1 }
termination_by structural t => t

/-- The bundles of several files. -/
def bodies : List FileTree → List Body
  | [] => []
  | t :: rest => t.body :: bodies rest
termination_by structural l => l

end

mutual

/-- Whether something holds of a file and of all files below it. -/
def Everywhere (property : FileTree → Prop) : FileTree → Prop
  | ⟨unit, parts⟩ => property ⟨unit, parts⟩ ∧ EverywhereIn property parts
termination_by structural t => t

/-- Whether something holds of several files and of all files below them. -/
def EverywhereIn (property : FileTree → Prop) : List FileTree → Prop
  | [] => True
  | t :: rest => t.Everywhere property ∧ EverywhereIn property rest
termination_by structural l => l

end

/-- The unit of a file. -/
def unit : FileTree → SourceUnit
  | ⟨unit, _⟩ => unit

end FileTree

/-- What is asked of a file of a crate: the ranges of its tree are ordered and nested, modules stand where items are
read, and it has a scope tree of its own. -/
structure SourceUnit.Fit (u : SourceUnit) : Prop where
  regular : u.root.regular 0 u.bytes.length = true
  place : u.root.modulesBelow = true
  kind : u.root.kind ≠ "struct_expression"
  scope : ∃ s, u.scope = .ok s

namespace FileTree

mutual

/-- The scope that is put together from the files of a tree is that of the bundle, at every file. -/
theorem fine_body : ∀ tree : FileTree, tree.Everywhere (fun t => t.unit.Fit) →
    tree.body.Fine ∧ tree.Everywhere (fun t => t.body.unit.scope = .ok t.body.scope)
  | ⟨unit, parts⟩, ⟨fit, below⟩ => by
    obtain ⟨fine, others⟩ := fine_bodies parts below
    obtain ⟨s, built⟩ := fit.scope
    have own : unit.ownScope = s := by
      change SourceUnit.scope unit = .ok s at built
      simp only [SourceUnit.ownScope, built]
    have here : (FileTree.node unit parts).body.Fine := by
      rw [body, own]
      exact SourceUnit.fine_graft fit.regular fit.place fit.kind fine built
    exact ⟨here, here.scope, others⟩
termination_by structural t => t

theorem fine_bodies : ∀ trees : List FileTree, EverywhereIn (fun t => t.unit.Fit) trees →
    (∀ b ∈ bodies trees, b.Fine) ∧ EverywhereIn (fun t => t.body.unit.scope = .ok t.body.scope) trees
  | [], _ => ⟨by simp [bodies], trivial⟩
  | t :: rest, ⟨fit, others⟩ => by
    obtain ⟨here, deeper⟩ := fine_body t fit
    obtain ⟨later, further⟩ := fine_bodies rest others
    refine ⟨?_, deeper, further⟩
    intro b member
    simp only [bodies, List.mem_cons] at member
    rcases member with rfl | listed
    · exact here
    · exact later b listed
termination_by structural l => l

end

end FileTree

/-! ### Declarations and sites -/

/-- The semicolon of a declaration that could be read. -/
def declaredSemicolon? : Except Fault Declaration → Option Tag
  | .ok declaration => declaration.semicolon
  | .error _ => none

theorem Site.edits_eq_zipWith (sites : List Site) (bodies : List Body) :
    Site.edits sites bodies = List.zipWith Body.edit (sites.filterMap Site.semicolon?) bodies := by
  induction sites generalizing bodies with
  | nil => simp [Site.edits]
  | cons site rest ih =>
    cases found : site.semicolon? with
    | none => simp [Site.edits, found, ih]
    | some semicolon =>
      cases bodies with
      | nil => simp [Site.of_semicolon?_none]
      | cons body more => simp [Site.edits, found, ih]

namespace SourceUnit

variable {u : SourceUnit}

theorem filterMap_sealed {sites : List Site} (closed : ∀ site ∈ sites, site.spot.sealed = true) :
    sites.filterMap Site.semicolon? = [] := by
  rw [List.filterMap_eq_nil_iff]
  intro site member
  simp [Site.semicolon?, closed site member]

mutual

/-- The declarations are the modules without a body where declarations are looked for, in order, as far as they can
all be read. -/
theorem declarationsAt_sites : ∀ (n : Node) (outer : ModulePath) (spot : Spot) (earlier : List Node), spot.sealed = false →
    (∀ entry ∈ u.declarationsAt outer earlier n, ∃ declaration, entry = .ok declaration) →
      (u.declarationsAt outer earlier n).filterMap declaredSemicolon? =
        (u.sitesAt undeclaringKinds spot earlier n).filterMap Site.semicolon?
  | ⟨tag, children⟩, outer, spot, earlier, looked, read => by
    simp only [declarationsAt, sitesAt] at read ⊢
    split
    · rfl
    · next named =>
      simp only [named, Bool.false_eq_true, if_false] at read
      split
      · next module =>
        simp only [module, if_true] at read
        cases path : u.modulePath outer children with
        | error fault =>
          rw [path] at read
          obtain ⟨_, same⟩ := read (.error fault) (by simp)
          cases same
        | ok inner =>
          simp only [path] at read ⊢
          cases given : children.any (·.fills "body") with
          | true =>
            simp only [given, if_true] at read ⊢
            rw [List.filterMap_cons]
            simp only [Site.semicolon?, given, Bool.or_true, if_true]
            exact declarationsInBody_sites children inner _ looked read
          | false =>
            simp only [given, Bool.false_eq_true, if_false] at read ⊢
            rw [sitesInBody_eq_nil given]
            obtain ⟨declaration, ok⟩ := read _ (List.mem_singleton.mpr rfl)
            have semicolon : declaration.semicolon = (Node.semicolon? children).map Node.toTag := by
              unfold SourceUnit.declaration at ok
              obtain ⟨_, -, ok⟩ := bind_eq_ok.mp ok
              cases ok
              rfl
            have same : declaredSemicolon? (.ok declaration) =
                Site.semicolon? ⟨⟨⟨tag, children⟩, earlier⟩, u.entered spot.module children, spot⟩ := by
              rw [semicolon?_of_open looked, given]
              exact semicolon
            rw [ok, List.filterMap_cons, List.filterMap_cons, same]
            rfl
      · next other =>
        simp only [other, Bool.false_eq_true, if_false] at read
        split
        · next undeclaring =>
          refine (filterMap_sealed ?_).symm
          intro site member
          exact sealed_sitesIn children _ [] (by rw [Spot.into, undeclaring, Bool.or_true]) site member
        · next declaring =>
          simp only [declaring, Bool.false_eq_true, if_false] at read
          refine declarationsIn_sites children outer _ [] ?_ read
          rw [Spot.into, looked, Bool.false_or]
          simpa using declaring
termination_by structural n => n

theorem declarationsIn_sites : ∀ (nodes : List Node) (outer : ModulePath) (spot : Spot) (earlier : List Node),
    spot.sealed = false → (∀ entry ∈ u.declarationsIn outer earlier nodes, ∃ declaration, entry = .ok declaration) →
      (u.declarationsIn outer earlier nodes).filterMap declaredSemicolon? =
        (u.sitesIn undeclaringKinds spot earlier nodes).filterMap Site.semicolon?
  | [], _, _, _, _, _ => rfl
  | n :: rest, outer, spot, earlier, looked, read => by
    simp only [declarationsIn, List.mem_append] at read ⊢
    rw [sitesIn, List.filterMap_append, List.filterMap_append,
      declarationsAt_sites n outer spot earlier looked fun entry member => read entry (.inl member),
      declarationsIn_sites rest outer spot _ looked fun entry member => read entry (.inr member)]
termination_by structural l => l

theorem declarationsInBody_sites : ∀ (nodes : List Node) (outer : ModulePath) (spot : Spot), spot.sealed = false →
    (∀ entry ∈ u.declarationsInBody outer nodes, ∃ declaration, entry = .ok declaration) →
      (u.declarationsInBody outer nodes).filterMap declaredSemicolon? =
        (u.sitesInBody undeclaringKinds spot nodes).filterMap Site.semicolon?
  | [], _, _, _, _ => rfl
  | n :: rest, outer, spot, looked, read => by
    simp only [declarationsInBody, sitesInBody] at read ⊢
    split
    · next fills =>
      simp only [fills, if_true] at read
      exact declarationsBelow_sites n outer spot looked read
    · next fills =>
      simp only [fills, Bool.false_eq_true, if_false] at read
      exact declarationsInBody_sites rest outer spot looked read
termination_by structural l => l

theorem declarationsBelow_sites : ∀ (n : Node) (outer : ModulePath) (spot : Spot), spot.sealed = false →
    (∀ entry ∈ u.declarationsBelow outer n, ∃ declaration, entry = .ok declaration) →
      (u.declarationsBelow outer n).filterMap declaredSemicolon? =
        (u.sitesBelow undeclaringKinds spot n).filterMap Site.semicolon?
  | ⟨_, children⟩, outer, spot, looked, read => declarationsIn_sites children outer spot [] looked read
termination_by structural n => n

end

end SourceUnit

/-! ### Runs -/

namespace Loader

variable {α β : Type}

/-- A step of loading succeeds with a result, from one state to another. -/
def Runs (x : Loader α) (s : Loading) (a : α) (t : Loading) : Prop := x.run.run s = (.ok a, t)

variable {x : Loader α} {f : α → Loader β} {s t r : Loading} {a : α} {b : β}

/-- Both steps of a successful run succeed. -/
theorem runs_bind : Runs (x >>= f) s b r ↔ ∃ a t, Runs x s a t ∧ Runs (f a) t b r := by
  unfold Runs
  rw [run_bind]
  rcases x.run.run s with ⟨fault | a, t⟩
  · constructor
    · intro impossible
      cases impossible
    · rintro ⟨_, _, impossible, -⟩
      cases impossible
  · constructor
    · exact fun run => ⟨a, t, rfl, run⟩
    · rintro ⟨_, _, same, run⟩
      cases same
      exact run

theorem runs_pure {c : α} : Runs (pure a) s c t ↔ a = c ∧ s = t := by
  change ((.ok a, s) : Except Fault α × Loading) = (.ok c, t) ↔ _
  simp

theorem not_runs_throw (fault : Fault) : ¬ Runs (throw fault) s a t := by
  intro run
  cases run

theorem runs_ofTraced {x : Traced α} :
    Runs (ofTraced x) s a t ↔ x.outcome = .ok a ∧ { s with log := s.log ++ x.log } = t := by
  change ((x.outcome, { s with log := s.log ++ x.log }) : Except Fault α × Loading) = (.ok a, t) ↔ _
  simp

theorem runs_lift {x : Traced α} :
    Runs (liftM x) s a t ↔ x.outcome = .ok a ∧ { s with log := s.log ++ x.log } = t := runs_ofTraced

theorem runs_liftExcept {x : Except Fault α} : Runs (liftM x) s a t ↔ x = .ok a ∧ s = t := by
  change ((x, s) : Except Fault α × Loading) = (.ok a, t) ↔ _
  simp

theorem runs_get {c : Loading} : Runs get s c t ↔ s = c ∧ s = t := by
  change ((.ok s, s) : Except Fault Loading × Loading) = (.ok c, t) ↔ _
  simp

theorem runs_modify {change : Loading → Loading} : Runs (modify change) s () t ↔ change s = t := by
  change ((.ok (), change s) : Except Fault Unit × Loading) = (.ok (), t) ↔ _
  simp

end Loader

/-! ### Files read -/

namespace FileSystem

variable {fs : FileSystem} {file : FilePath} {bytes : Bytes}

/-- A file is there, can be read and holds the given bytes. -/
structure Gives (fs : FileSystem) (parts : List String) (bytes : Bytes) : Prop where
  held : fs.contents? parts = some bytes
  unlocked : parts ∉ fs.locked

/-- A file is read at the path that it resolves to. -/
theorem gives_of_read (read : fs.read file = .ok bytes) : fs.Gives (file.resolvedParts fs.workingDirectory) bytes := by
  unfold FileSystem.read at read
  split at read
  · next parts contents found =>
    obtain ⟨same, there⟩ := walk_file found
    split at read
    · cases read
    · next unlocked =>
      cases read
      rw [FilePath.resolvedParts, ← same]
      exact ⟨there, by simpa using unlocked⟩
  · cases read
  · cases read

theorem read_eq_ok (read : fs.read file = .ok bytes) : fs.contents? (file.resolvedParts fs.workingDirectory) = some bytes :=
  (gives_of_read read).held

theorem read_of_isFile (there : fs.isFile file = true) (gives : fs.Gives (file.resolvedParts fs.workingDirectory) bytes) :
    fs.read file = .ok bytes := by
  unfold FileSystem.isFile at there
  split at there
  · next parts contents found =>
    obtain ⟨same, held⟩ := walk_file found
    have resolved : parts = file.resolvedParts fs.workingDirectory := same
    rw [resolved, gives.held] at held
    obtain rfl := Option.some.inj held
    simp only [FileSystem.read, found, resolved, List.contains_iff_mem, gives.unlocked, if_false]
  · cases there

end FileSystem

namespace Workspace

/-- The unit is that of a file. -/
structure Holds (w : Workspace) (file : FilePath) (unit : SourceUnit) : Prop where
  read : w.fileSystem.read file = .ok unit.bytes
  root : unit.root = w.grammar unit.bytes

/-- The units kept are those of the files at their resolved paths. -/
def Kept (w : Workspace) (files : List (FilePath × SourceUnit)) : Prop :=
  ∀ entry ∈ files, w.fileSystem.Gives entry.1.parts entry.2.bytes ∧ entry.2.root = w.grammar entry.2.bytes

variable {w : Workspace} {file : FilePath} {module : ModulePath} {origin : Origin} {s t : Loading} {unit : SourceUnit}

/-- What a unit that is read is. -/
theorem parse_eq_ok {grammar : Grammar} {bytes : Bytes} {name : String}
    (parsed : (SourceUnit.parse grammar bytes name).outcome = .ok unit) :
    unit = ⟨FilePath.ofString name, bytes, grammar bytes⟩ := by
  unfold SourceUnit.parse at parsed
  split at parsed
  · cases parsed
  · simp only [Traced.outcome_bind] at parsed
    obtain ⟨_, -, parsed⟩ := bind_eq_ok.mp parsed
    cases parsed
    rfl

/-- A file is opened as what it holds, and what is kept stays so. -/
theorem openUnit_runs (run : (w.openUnit file module origin).Runs s unit t)
    (there : w.fileSystem.isFile file = true ∨ s.files = []) (kept : w.Kept s.files) :
    w.Kept t.files ∧ w.Holds file unit ∧ (s.files = [] → unit.path = FilePath.ofString file.text) := by
  unfold openUnit at run
  obtain ⟨resolved, _, lifted, run⟩ := Loader.runs_bind.mp run
  obtain ⟨absolute, rfl⟩ := Loader.runs_liftExcept.mp lifted
  obtain rfl := FileSystem.resolve_eq_ok absolute
  obtain ⟨_, _, got, run⟩ := Loader.runs_bind.mp run
  obtain ⟨rfl, rfl⟩ := Loader.runs_get.mp got
  split at run
  · next cached found =>
    obtain ⟨rfl, rfl⟩ := Loader.runs_pure.mp run
    obtain ⟨before, after, split, -⟩ := List.lookup_eq_some_iff.mp found
    obtain ⟨held, root⟩ := kept (file.resolve w.fileSystem.workingDirectory, cached) (by rw [split]; simp)
    have used : s.files ≠ [] := by
      intro fresh
      rw [fresh] at found
      cases found
    exact ⟨kept, ⟨FileSystem.read_of_isFile (there.resolve_right used) held, root⟩, fun fresh => absurd fresh used⟩
  · obtain ⟨_, _, noted, run⟩ := Loader.runs_bind.mp run
    obtain ⟨-, rfl⟩ := Loader.runs_ofTraced.mp noted
    split at run
    · exact absurd run (Loader.not_runs_throw _)
    · next bytes read =>
      obtain ⟨_, _, noted, run⟩ := Loader.runs_bind.mp run
      obtain ⟨-, rfl⟩ := Loader.runs_ofTraced.mp noted
      obtain ⟨parsed, _, lifted, run⟩ := Loader.runs_bind.mp run
      obtain ⟨outcome, rfl⟩ := Loader.runs_lift.mp lifted
      obtain ⟨_, _, modified, run⟩ := Loader.runs_bind.mp run
      obtain rfl := Loader.runs_modify.mp modified
      obtain ⟨rfl, rfl⟩ := Loader.runs_pure.mp run
      obtain rfl := parse_eq_ok outcome
      have held := FileSystem.gives_of_read read
      refine ⟨?_, ⟨read, rfl⟩, fun _ => rfl⟩
      intro entry member
      rcases List.mem_append.mp member with old | new
      · exact kept entry old
      · rw [List.mem_singleton.mp new]
        exact ⟨held, rfl⟩

/-! ### The tree of files that is loaded -/

mutual

/-- The files of a crate from a place on: the file there, and the files of the modules that it declares. -/
inductive Expands (w : Workspace) (directory : FilePath) : Context → FileTree → Prop where
  | file {c : Context} {unit : SourceUnit} {parts : List FileTree} (held : w.Holds c.file unit)
      (declared : ExpandsIn w directory c unit (unit.declarations c.module) parts) :
      Expands w directory c ⟨unit, parts⟩

/-- The files of declarations in a unit. -/
inductive ExpandsIn (w : Workspace) (directory : FilePath) :
    Context → SourceUnit → List (Except Fault Declaration) → List FileTree → Prop where
  | nil (c : Context) (u : SourceUnit) : ExpandsIn w directory c u [] []
  | cons {c inner : Context} {u : SourceUnit} {declaration : Declaration} {rest : List (Except Fault Declaration)}
      {file : { file : FilePath // w.fileSystem.isFile file = true }} {part : FileTree} {parts : List FileTree}
      (found : (w.fileSystem.moduleFile directory declaration.module c.file declaration.override
        ⟨some declaration.location, some u.text⟩).outcome = .ok file)
      (entered : Context.enterFile { c with module := declaration.module } w.fileSystem file.val
        ⟨some declaration.location, some u.text⟩ = .ok inner)
      (body : Expands w directory inner part) (others : ExpandsIn w directory c u rest parts) :
      ExpandsIn w directory c u (.ok declaration :: rest) (part :: parts)

end

/-- The edit that puts the body of a declared module in place. -/
def bodyOf (w : Workspace) (directory : FilePath) (u : SourceUnit) (c : Context) : Except Fault Declaration → Loader Edit
  | .error fault => throw fault
  | .ok declaration => do
    let origin : Origin := ⟨some declaration.location, some u.text⟩
    let module := declaration.module
    let file ← w.fileSystem.moduleFile directory module c.file declaration.override origin
    match Context.enterFile { c with module := module } w.fileSystem file.val origin with
    | .error fault => throw fault
    | .ok inner =>
      let unit ← w.openUnit file.val module origin
      let edits ← w.bodies directory unit inner (unit.declarations module)
      let body ← Loader.ofTraced (.ofExcept (unit.splice edits))
      match declaration.semicolon with
      | none => throw .missingSemicolon
      | some semicolon =>
        Loader.note s!"inlined module {module} from {file.val}"
        return ⟨semicolon.start, semicolon.stop, braced body⟩

theorem bodies_eq (w : Workspace) (directory : FilePath) (u : SourceUnit) (c : Context)
    (declarations : List (Except Fault Declaration)) :
    w.bodies directory u c declarations = declarations.mapM (w.bodyOf directory u c) := by
  rw [bodies]
  congr 1
  funext entry
  cases entry with
  | error fault => rfl
  | ok declaration =>
    simp only [bodyOf]
    congr 1
    funext file
    split <;> split <;> simp_all

/-- What is done for a declaration: its file is found and opened, the declarations in it are seen to, and the text so
made takes the place of the semicolon. -/
inductive Inlines (w : Workspace) (directory : FilePath) (u : SourceUnit) (c : Context) :
    Except Fault Declaration → Edit → Loading → Prop where
  | intro {declaration : Declaration} {file : { file : FilePath // w.fileSystem.isFile file = true }} {inner : Context}
      {unit : SourceUnit} {edits : List Edit} {body : Bytes} {semicolon : Tag} {middle later t : Loading}
      (found : (w.fileSystem.moduleFile directory declaration.module c.file declaration.override
        ⟨some declaration.location, some u.text⟩).outcome = .ok file)
      (entered : Context.enterFile { c with module := declaration.module } w.fileSystem file.val
        ⟨some declaration.location, some u.text⟩ = .ok inner)
      (kept : w.Kept middle.files) (held : w.Holds file.val unit)
      (below : (w.bodies directory unit inner (unit.declarations declaration.module)).Runs middle edits later)
      (spliced : unit.splice edits = .ok body) (declared : declaration.semicolon = some semicolon)
      (files : later.files = t.files) :
      Inlines w directory u c (.ok declaration) ⟨semicolon.start, semicolon.stop, braced body⟩ t

theorem bodyOf_runs {directory : FilePath} {u : SourceUnit} {c : Context} {entry : Except Fault Declaration} {edit : Edit}
    (kept : w.Kept s.files) (run : (w.bodyOf directory u c entry).Runs s edit t) :
    w.Inlines directory u c entry edit t := by
  cases entry with
  | error fault => exact absurd run (Loader.not_runs_throw _)
  | ok declaration =>
    obtain ⟨file, _, lifted, run⟩ := Loader.runs_bind.mp run
    obtain ⟨found, rfl⟩ := Loader.runs_lift.mp lifted
    split at run
    · exact absurd run (Loader.not_runs_throw _)
    · next inner entered =>
      obtain ⟨unit, middle, opened, run⟩ := Loader.runs_bind.mp run
      obtain ⟨edits, later, below, run⟩ := Loader.runs_bind.mp run
      obtain ⟨body, _, lifted, run⟩ := Loader.runs_bind.mp run
      obtain ⟨spliced, rfl⟩ := Loader.runs_ofTraced.mp lifted
      split at run
      · exact absurd run (Loader.not_runs_throw _)
      · next semicolon declared =>
        obtain ⟨_, _, noted, run⟩ := Loader.runs_bind.mp run
        obtain ⟨-, rfl⟩ := Loader.runs_ofTraced.mp noted
        obtain ⟨rfl, rfl⟩ := Loader.runs_pure.mp run
        obtain ⟨still, held, -⟩ := openUnit_runs opened (.inl file.property) kept
        exact .intro found entered still held below spliced declared rfl

/-- The text of a file with the bundles of its parts in place is that of its bundle. -/
theorem splice_bodies {module : ModulePath} {parts : List FileTree} {edits : List Edit} (fit : unit.Fit)
    (read : ∀ entry ∈ unit.declarations module, ∃ declaration, entry = .ok declaration)
    (made : edits = List.zipWith Body.edit ((unit.declarations module).filterMap declaredSemicolon?) (FileTree.bodies parts)) :
    unit.splice edits = .ok (FileTree.node unit parts).body.unit.bytes := by
  have sites : (unit.declarations module).filterMap declaredSemicolon? =
      (unit.sites SourceUnit.undeclaringKinds).filterMap Site.semicolon? :=
    SourceUnit.declarationsBelow_sites unit.root module ⟨.crate, [], false⟩ rfl read
  rw [made, sites, ← Site.edits_eq_zipWith]
  exact unit.splice_of_run (SourceUnit.edits_runBelow unit.root ⟨.crate, [], false⟩ _ 0 unit.bytes.length fit.regular)

/-- Seeing to declarations goes through the files of the modules declared; if these are fit, the edits put their bundles
in place. -/
theorem bodies_runs {directory : FilePath} (left : Nat) : ∀ (u : SourceUnit) (c : Context)
    (declarations : List (Except Fault Declaration)) (s t : Loading) (edits : List Edit),
    w.fileSystem.unentered c.chain = left → w.Kept s.files → (w.bodies directory u c declarations).Runs s edits t →
      ∃ parts, w.ExpandsIn directory c u declarations parts ∧ w.Kept t.files ∧
        (∀ entry ∈ declarations, ∃ declaration, entry = .ok declaration) ∧
        (FileTree.EverywhereIn (fun t => t.unit.Fit) parts →
          edits = List.zipWith Body.edit (declarations.filterMap declaredSemicolon?) (FileTree.bodies parts)) := by
  -- a file that is entered leaves fewer to enter; the declarations of one file are seen to in order
  induction left using Nat.strong_induction_on with
  | _ left deeper =>
    intro u c declarations
    induction declarations with
    | nil =>
      intro s t edits _ kept run
      rw [bodies_eq] at run
      obtain ⟨rfl, rfl⟩ := Loader.runs_pure.mp run
      exact ⟨[], .nil c u, kept, by simp, fun _ => rfl⟩
    | cons entry rest more =>
      intro s t edits size kept run
      rw [bodies_eq, List.mapM_cons, ← bodies_eq] at run
      obtain ⟨edit, middle, first, run⟩ := Loader.runs_bind.mp run
      obtain ⟨others, later, further, run⟩ := Loader.runs_bind.mp run
      obtain ⟨rfl, rfl⟩ := Loader.runs_pure.mp run
      cases bodyOf_runs kept first with
      | @intro declaration file inner unit inside body semicolon start stop _ found entered known held below spliced
          declared files =>
        have fewer := Context.unentered_enterFile_lt file.property entered
        obtain ⟨resolved, -, -, same⟩ := Context.enterFile_eq_ok entered
        obtain ⟨nested, expands, still, all, made⟩ := deeper _ (size ▸ fewer) unit inner _ start stop inside rfl known below
        obtain ⟨parts, expandsIn, kept', oks, edits⟩ := more middle _ others size (files ▸ still) further
        have part : w.Expands directory inner ⟨unit, nested⟩ := by
          subst same
          exact .file held expands
        refine ⟨⟨unit, nested⟩ :: parts, .cons found entered part expandsIn, kept', ?_, ?_⟩
        · intro entry member
          rcases List.mem_cons.mp member with rfl | listed
          · exact ⟨declaration, rfl⟩
          · exact oks entry listed
        · rintro ⟨⟨fit, fine⟩, others⟩
          have text : unit.splice inside = .ok (FileTree.node unit nested).body.unit.bytes := splice_bodies fit all (made fine)
          rw [spliced] at text
          cases text
          simp only [List.filterMap_cons, declaredSemicolon?, declared, FileTree.bodies, List.zipWith_cons_cons, edits others]
          rfl

/-- What a loaded crate is: its files form a tree, and if they are fit, the loaded unit has the text of its bundle. -/
theorem load_runs (run : (w.load file).Runs {} unit t) : ∃ c tree, Context.ofRoot w.fileSystem file = .ok c ∧
    w.Expands file.parent c tree ∧ (tree.Everywhere (fun t => t.unit.Fit) →
      unit = ⟨tree.body.unit.path, tree.body.unit.bytes, w.grammar tree.body.unit.bytes⟩) := by
  obtain ⟨root, start, opened, run⟩ := Loader.runs_bind.mp run
  obtain ⟨kept, held, path⟩ := openUnit_runs opened (.inr rfl) (by simp [Kept])
  obtain ⟨bytes, later, inlined, run⟩ := Loader.runs_bind.mp run
  obtain ⟨c, _, lifted, inlined⟩ := Loader.runs_bind.mp inlined
  obtain ⟨context, rfl⟩ := Loader.runs_liftExcept.mp lifted
  obtain ⟨edits, _, below, inlined⟩ := Loader.runs_bind.mp inlined
  obtain ⟨spliced, rfl⟩ := Loader.runs_ofTraced.mp inlined
  have top : c.module = .crate ∧ c.file = file := by
    unfold Context.ofRoot at context
    obtain ⟨_, -, context⟩ := bind_eq_ok.mp context
    cases context
    exact ⟨rfl, rfl⟩
  obtain ⟨parts, expands, -, all, made⟩ := bodies_runs _ root c _ _ _ edits rfl kept below
  refine ⟨c, ⟨root, parts⟩, context, .file (top.2.symm ▸ held) (top.1.symm ▸ expands), ?_⟩
  rintro ⟨fit, fine⟩
  have text : root.splice edits = .ok (FileTree.node root parts).body.unit.bytes := splice_bodies fit all (made fine)
  have spliced : root.splice edits = .ok bytes := spliced
  rw [spliced] at text
  cases text
  split at run
  · next same =>
    obtain ⟨rfl, rfl⟩ := Loader.runs_pure.mp run
    have same : (FileTree.node root parts).body.unit.bytes = root.bytes := by simpa using same
    rw [same, ← held.root]
    rfl
  · obtain ⟨_, _, got, run⟩ := Loader.runs_bind.mp run
    obtain ⟨rfl, rfl⟩ := Loader.runs_get.mp got
    obtain ⟨_, _, noted, run⟩ := Loader.runs_bind.mp run
    obtain ⟨-, rfl⟩ := Loader.runs_ofTraced.mp noted
    obtain ⟨outcome, rfl⟩ := Loader.runs_lift.mp run
    rw [parse_eq_ok outcome, ← path rfl]
    rfl

/-- Loading keeps what is read. A crate that is loaded is made of a tree of files; if these are fit, and the grammar reads
the loaded text as the tree of the crate root file with the bodies of all modules in place, the scope tree of the crate is
the scope of the root file in which the modules declared are replaced by modules with the scopes of their files, made in
the same way; and so it is for every file of the crate. -/
theorem scopeTree_of_load (loaded : (w.load file).start.1 = .ok unit) : ∃ c tree,
    Context.ofRoot w.fileSystem file = .ok c ∧ w.Expands file.parent c tree ∧
      (tree.Everywhere (fun t => t.unit.Fit) → w.grammar tree.body.unit.bytes = tree.body.unit.root →
        unit.scopeTree.outcome = .ok (.file tree.body.scope) ∧
          tree.Everywhere fun t => t.body.unit.scope = .ok t.body.scope) := by
  have run : (w.load file).Runs {} unit (w.load file).start.2 := by
    unfold Loader.Runs
    rw [← loaded]
    rfl
  obtain ⟨c, tree, context, expands, made⟩ := load_runs run
  refine ⟨c, tree, context, expands, ?_⟩
  intro fit parsed
  obtain ⟨fine, all⟩ := tree.fine_body fit
  refine ⟨?_, all⟩
  have bundle : unit = tree.body.unit := by
    rw [made fit, parsed]
  rw [bundle, SourceUnit.scopeTree, Traced.outcome_bind, Traced.outcome_lift, fine.scope]
  rfl

/-! ### A crate of two files -/

/-- A mark of the given length. -/
def tokenNode (kind : String) (start stop : Nat) : Node := ⟨{ kind := kind, start := start, stop := stop }, []⟩

/-- A structure whose name is a letter. -/
def structNode (start : Nat) : Node :=
  ⟨{ kind := "struct_item", named := true, start := start, stop := start + 9 },
    [tokenNode "struct" start (start + 6),
      ⟨{ kind := "type_identifier", named := true, start := start + 7, stop := start + 8, field := some "name" }, []⟩,
      tokenNode ";" (start + 8) (start + 9)]⟩

/-- A module at the start of a file whose name is a letter, with its last part. -/
def moduleNode (last : Node) : Node :=
  ⟨{ kind := "mod_item", named := true, stop := last.stop },
    [tokenNode "mod" 0 3, ⟨{ kind := "identifier", named := true, start := 4, stop := 5, field := some "name" }, []⟩, last]⟩

/-- The tree of a file. -/
def fileNode (stop : Nat) (children : List Node) : Node := ⟨{ kind := "source_file", named := true, stop := stop }, children⟩

/-- The root file. -/
def outerText : Bytes := Utf8.encode "mod a; struct S;"

/-- Its tree. -/
def outerTree : Node := fileNode 16 [moduleNode (tokenNode ";" 5 6), structNode 7]

/-- The file of the module that it declares. -/
def innerText : Bytes := Utf8.encode "struct T;"

/-- Its tree. -/
def innerTree : Node := fileNode 9 [structNode 0]

/-- The tree of the text with the module in place. -/
def crateTree : Node :=
  fileNode 29 [moduleNode ⟨{ kind := "declaration_list", named := true, start := 6, stop := 19, field := some "body" },
    [tokenNode "\x7b" 6 7, structNode 8, tokenNode "\x7d" 18 19]⟩, structNode 20]

/-- The crate with these files. -/
def twoFiles : Workspace where
  fileSystem := { files := [(["lib.rs"], outerText), (["a.rs"], innerText)] }
  grammar bytes := if bytes == outerText then outerTree else if bytes == innerText then innerTree else crateTree

theorem outer_declarations (path : FilePath) : ∃ location,
    (SourceUnit.mk path (outerText) outerTree).declarations .crate =
      [.ok ⟨⟨["crate", "a"]⟩, none, location, some { kind := ";", start := 5, stop := 6 }⟩] := by
  have text : (SourceUnit.mk path (outerText) outerTree).nameOf (some ⟨{ kind := "identifier", named := true, start := 4, stop := 5, field := some "name" }, []⟩) = .ok "a" := rfl
  have name : (SourceUnit.mk path (outerText) outerTree).modulePath .crate
      (moduleNode (tokenNode ";" 5 6)).children = .ok ⟨["crate", "a"]⟩ := by
    change ((SourceUnit.mk path (outerText) outerTree).nameOf (some ⟨{ kind := "identifier", named := true, start := 4, stop := 5, field := some "name" }, []⟩) >>=
      fun name => ModulePath.crate.joinText name) = _
    rw [text]
    rfl
  generalize unit : SourceUnit.mk path (outerText) outerTree = u at name
  have first : u.declarationsAt .crate [] (moduleNode (tokenNode ";" 5 6)) =
      [.ok ⟨⟨["crate", "a"]⟩, none, u.locate { kind := "mod_item", named := true, stop := 6 },
        some { kind := ";", start := 5, stop := 6 }⟩] := by
    rw [moduleNode, SourceUnit.declarationsAt]
    simp only [moduleNode] at name
    simp only [name]
    rfl
  refine ⟨u.locate { kind := "mod_item", named := true, stop := 6 }, ?_⟩
  have root : u.root = outerTree := by rw [← unit]
  rw [SourceUnit.declarations, root]
  change u.declarationsAt .crate [] (moduleNode (tokenNode ";" 5 6)) ++ [] = _
  rw [first]
  rfl

theorem twoFiles_expands {c : Context} {tree : FileTree} (context : Context.ofRoot twoFiles.fileSystem ⟨0, ["lib.rs"]⟩ = .ok c)
    (expands : twoFiles.Expands ⟨0, []⟩ c tree) : ∃ path inner,
      tree = ⟨⟨path, outerText, outerTree⟩, [⟨⟨inner, innerText, innerTree⟩, []⟩]⟩ := by
  have top : Context.ofRoot twoFiles.fileSystem ⟨0, ["lib.rs"]⟩ = .ok ⟨.crate, ⟨0, ["lib.rs"]⟩, [⟨1, ["lib.rs"]⟩]⟩ := rfl
  rw [top] at context
  obtain rfl := Except.ok.inj context
  cases expands with
  | @file _ unit parts held declared =>
    obtain ⟨path, bytes, root⟩ := unit
    have read : twoFiles.fileSystem.read ⟨0, ["lib.rs"]⟩ = .ok (outerText) := rfl
    have same := held.read
    simp only [read] at same
    obtain rfl := Except.ok.inj same
    have grown : root = outerTree := held.root
    subst grown
    obtain ⟨location, one⟩ := outer_declarations path
    simp only [one] at declared
    cases declared with
    | @cons _ inner _ _ _ file part rest found entered body others =>
      cases others
      have there : twoFiles.fileSystem.isFile ⟨0, ["a.rs"]⟩ = true := by decide +kernel
      have search : ∀ origin, (twoFiles.fileSystem.moduleFile ⟨0, []⟩ ⟨["crate", "a"]⟩ ⟨0, ["lib.rs"]⟩ none origin).outcome =
          .ok ⟨⟨0, ["a.rs"]⟩, there⟩ := fun _ => rfl
      rw [search] at found
      obtain rfl := Except.ok.inj found
      obtain ⟨resolved, -, -, same⟩ := Context.enterFile_eq_ok entered
      cases body with
      | @file _ unit parts held declared =>
        obtain ⟨below, bytes, root⟩ := unit
        have read : twoFiles.fileSystem.read ⟨0, ["a.rs"]⟩ = .ok (innerText) := rfl
        have there := held.read
        simp only [same, read] at there
        obtain rfl := Except.ok.inj there
        have grown : root = innerTree := held.root
        subst grown
        have none : (SourceUnit.mk below (innerText) innerTree).declarations inner.module = [] := rfl
        rw [none] at declared
        cases declared
        exact ⟨path, below, rfl⟩

theorem scope_outer (path : FilePath) : (SourceUnit.mk path outerText outerTree).scope =
    .ok ⟨[.module "a" Scope.empty, .type "S"], [], false⟩ := by
  rfl

theorem scope_inner (path : FilePath) : (SourceUnit.mk path innerText innerTree).scope = .ok ⟨[.type "T"], [], false⟩ := by
  rfl

theorem fit_outer (path : FilePath) : (SourceUnit.mk path outerText outerTree).Fit where
  regular := by change outerTree.regular 0 16 = true; decide
  place := by change outerTree.modulesBelow = true; decide
  kind := by change "source_file" ≠ "struct_expression"; decide
  scope := ⟨_, scope_outer path⟩

theorem fit_inner (path : FilePath) : (SourceUnit.mk path innerText innerTree).Fit where
  regular := by change innerTree.regular 0 9 = true; decide
  place := by change innerTree.modulesBelow = true; decide
  kind := by change "source_file" ≠ "struct_expression"; decide
  scope := ⟨_, scope_inner path⟩

theorem tree_twoFiles (path inner : FilePath) :
    (FileTree.node ⟨path, outerText, outerTree⟩ [⟨⟨inner, innerText, innerTree⟩, []⟩]).body.unit.root = crateTree := by
  have long : (braced (FileTree.node ⟨inner, innerText, innerTree⟩ []).body.unit.bytes).length = 14 := by rfl
  simp only [FileTree.body, FileTree.bodies, SourceUnit.graft] at long ⊢
  simp [outerTree, fileNode, Node.graftBelow, Node.graftIn, moduleNode, Node.graftAt, tokenNode, Node.semicolon?, Progress.pass, long, Body.node]
  rfl

theorem scopeTree_twoFiles : ∃ unit, (twoFiles.load ⟨0, ["lib.rs"]⟩).start.1 = .ok unit ∧
    unit.scopeTree.outcome = .ok (.file ⟨[.module "a" ⟨[.type "T"], [], false⟩, .type "S"], [], false⟩) := by
  have success : (twoFiles.load ⟨0, ["lib.rs"]⟩).start.1.toOption.isSome = true := by decide +kernel
  cases loaded : (twoFiles.load ⟨0, ["lib.rs"]⟩).start.1 with
  | error fault =>
    rw [loaded] at success
    cases success
  | ok unit =>
    obtain ⟨c, tree, context, expands, same⟩ := scopeTree_of_load loaded
    obtain ⟨path, inner, rfl⟩ := twoFiles_expands context expands
    have text : (FileTree.node ⟨path, outerText, outerTree⟩ [⟨⟨inner, innerText, innerTree⟩, []⟩]).body.unit.bytes =
        Utf8.encode "mod a \x7b\nstruct T;\n\x7d struct S;" := by rfl
    have parsed : twoFiles.grammar (Utf8.encode "mod a \x7b\nstruct T;\n\x7d struct S;") = crateTree := by
      have outer : (Utf8.encode "mod a \x7b\nstruct T;\n\x7d struct S;" == outerText) = false := by decide +kernel
      have inner : (Utf8.encode "mod a \x7b\nstruct T;\n\x7d struct S;" == innerText) = false := by decide +kernel
      simp only [twoFiles, outer, inner, Bool.false_eq_true, if_false]
    refine ⟨unit, rfl, (same ⟨fit_outer path, ⟨fit_inner inner, trivial⟩, trivial⟩ ?_).1.trans ?_⟩
    · rw [text, parsed]
      exact (tree_twoFiles path inner).symm
    · simp only [FileTree.body, FileTree.bodies, SourceUnit.ownScope, scope_outer, scope_inner]
      rfl

end Workspace
end CrateFold
