import CrateFold.Proofs.DeclaredModules
import CrateFold.Proofs.Inlining

/-!
Loading is expansion. The expansion of a file replaces the semicolon of each module that the file declares by
the expansion of the file of the module, in braces; each file is opened anew wherever it is needed
(`expansion`). Loading opens a file once and keeps its unit, puts the edits of a file in order and looks
for overlaps; it still gives the unit of the expanded text, or the fault of the first declaration that cannot
be expanded (`load_expanded`). A unit that is kept has the path by which the file was opened first, so
that the locations of a fault may name the file by another path.
-/
namespace CrateFold

/-! ### Units with one text -/

/-- Two units are the same but for the path. -/
structure SourceUnit.SameText (u v : SourceUnit) : Prop where
  bytes : u.bytes = v.bytes
  root : u.root = v.root

namespace SourceUnit.SameText

variable {u v : SourceUnit}

theorem textOf (same : u.SameText v) (t : Tag) : u.textOf t = v.textOf t := by
  rw [SourceUnit.textOf, same.bytes]
  rfl

theorem nameOf (same : u.SameText v) (n : Option Node) : u.nameOf n = v.nameOf n := by
  cases n with
  | none => rfl
  | some n => exact same.textOf n.toTag

theorem entered (same : u.SameText v) (outer : ModulePath) (children : List Node) :
    u.entered outer children = v.entered outer children := by
  rw [SourceUnit.entered, same.nameOf]
  rfl

mutual

theorem sitesAt (same : u.SameText v) (kinds : List String) : ∀ (n : Node) (spot : Spot) (earlier : List Node),
    u.sitesAt kinds spot earlier n = v.sitesAt kinds spot earlier n
  | ⟨tag, children⟩, spot, earlier => by
    rw [SourceUnit.sitesAt, SourceUnit.sitesAt, same.entered, same.sitesIn kinds children]
    simp only [same.sitesInBody kinds children]
termination_by structural n => n

theorem sitesIn (same : u.SameText v) (kinds : List String) : ∀ (nodes : List Node) (spot : Spot) (earlier : List Node),
    u.sitesIn kinds spot earlier nodes = v.sitesIn kinds spot earlier nodes
  | [], _, _ => rfl
  | n :: rest, spot, earlier => by
    rw [SourceUnit.sitesIn, SourceUnit.sitesIn, same.sitesAt kinds n, same.sitesIn kinds rest]
termination_by structural l => l

theorem sitesInBody (same : u.SameText v) (kinds : List String) : ∀ (nodes : List Node) (spot : Spot),
    u.sitesInBody kinds spot nodes = v.sitesInBody kinds spot nodes
  | [], _ => rfl
  | n :: rest, spot => by
    rw [SourceUnit.sitesInBody, SourceUnit.sitesInBody, same.sitesBelow kinds n, same.sitesInBody kinds rest]
termination_by structural l => l

theorem sitesBelow (same : u.SameText v) (kinds : List String) : ∀ (n : Node) (spot : Spot),
    u.sitesBelow kinds spot n = v.sitesBelow kinds spot n
  | ⟨_, children⟩, spot => same.sitesIn kinds children spot []
termination_by structural n => n

end

theorem declaredModules (same : u.SameText v) (module : ModulePath) : u.declaredModules module = v.declaredModules module := by
  rw [SourceUnit.declaredModules, SourceUnit.declaredModules, same.sitesBelow, same.root]

theorem pathValue? (same : u.SameText v) (item : Node) : u.pathValue? item = v.pathValue? item := by
  have part : ∀ n, u.literalPart? n = v.literalPart? n := by
    intro n
    simp only [literalPart?, same.textOf]
  simp only [SourceUnit.pathValue?, literalValue, same.textOf, funext part]

theorem pathAttribute (same : u.SameText v) (p : Placed) : u.pathAttribute p = v.pathAttribute p := by
  have first : ∀ items, u.firstPathValue items = v.firstPathValue items := by
    intro items
    induction items with
    | nil => rfl
    | cons item rest ih => simp only [firstPathValue, same.pathValue?, ih]
  exact first _

theorem tidy (same : u.SameText v) (tidy : u.Tidy) : v.Tidy := by
  refine ⟨same.root ▸ tidy.ordered, ?_⟩
  intro p member module
  have named := tidy.names p (same.root ▸ member) module
  rw [names, same.nameOf] at named
  exact named

end SourceUnit.SameText

/-! ### Expansion -/

/-- The declaration of a module, for the errors that refer to it. -/
def SourceUnit.originOf (u : SourceUnit) (site : Site) : Origin := ⟨some (u.locate site.placed.node.toTag), some u.text⟩

namespace Workspace

/-- The unit of a file that is opened anew. -/
def freshUnit (w : Workspace) (file : FilePath) (module : ModulePath) (origin : Origin) : Except Fault SourceUnit :=
  match w.fileSystem.read file with
  | .error error => .error (.bundle (unreadable file module error origin))
  | .ok bytes => (SourceUnit.parse w.grammar bytes file.text).outcome

/-- A text in braces, on lines of its own. -/
def inBraces (text : Bytes) : Bytes :=
  Utf8.encode " \x7b\n" ++ text ++
    (if text ≠ [] ∧ text.getLast? ≠ some Bytes.newline then [Bytes.newline] else []) ++ Utf8.encode "\x7d"

/-- The edit that puts a text in place of the semicolon of a module. -/
def filling (site : Site) (text : Bytes) : Except Fault Edit :=
  match Node.semicolon? site.placed.node.children with
  | none => .error .missingSemicolon
  | some semicolon => .ok ⟨semicolon.start, semicolon.stop, inBraces text⟩

/-- The text of a file in which the semicolon of every module that it declares is replaced by the expansion of the
module's file in braces; all else is kept. -/
def expansion (w : Workspace) (directory : FilePath) (c : Context) (u : SourceUnit) : Except Fault Bytes := do
  let edits ← (u.declaredModules c.module).mapM fun site => do
    let override ← u.pathAttribute site.placed
    let file ← (w.fileSystem.moduleFile directory site.path c.file override (u.originOf site)).outcome
    match _entered : Context.enterFile { c with module := site.path } w.fileSystem file.val (u.originOf site) with
    | .error fault => .error fault
    | .ok inner =>
      let unit ← w.freshUnit file.val site.path (u.originOf site)
      let text ← w.expansion directory inner unit
      filling site text
  return Edit.spliced u.bytes 0 edits
termination_by w.fileSystem.unentered c.chain
decreasing_by
  have fewer := Context.unentered_enterFile_lt file.property _entered
  exact fewer

/-- The unit of the crate root file, and its text with all files of the crate in place. -/
def expanded (w : Workspace) (file : FilePath) : Except Fault (SourceUnit × Bytes) := do
  let c ← Context.ofRoot w.fileSystem file
  let root ← w.freshUnit file .crate {}
  return (root, ← w.expansion file.parent c root)

/-- The edit that puts the expansion of a declared module's file in place. -/
def expansionAt (w : Workspace) (directory : FilePath) (c : Context) (u : SourceUnit) (site : Site) : Except Fault Edit := do
  let override ← u.pathAttribute site.placed
  let file ← (w.fileSystem.moduleFile directory site.path c.file override (u.originOf site)).outcome
  let inner ← Context.enterFile { c with module := site.path } w.fileSystem file.val (u.originOf site)
  let unit ← w.freshUnit file.val site.path (u.originOf site)
  let text ← w.expansion directory inner unit
  filling site text

theorem expansion_eq (w : Workspace) (directory : FilePath) (c : Context) (u : SourceUnit) :
    w.expansion directory c u = (u.declaredModules c.module).mapM (w.expansionAt directory c u) >>= fun edits =>
      .ok (Edit.spliced u.bytes 0 edits) := by
  rw [expansion]
  congr 2
  funext site
  rw [expansionAt]
  congr 1
  funext override
  congr 1
  funext file
  split
  · next fault entered => rw [entered]; rfl
  · next inner entered => rw [entered]; rfl

theorem braced_eq_inBraces (text : Bytes) : braced text = inBraces text := by
  unfold braced inBraces
  by_cases empty : text = []
  · simp [empty]
  · by_cases ended : text.getLast? = some Bytes.newline
    · simp [empty, ended]
    · simp [empty, ended]

end Workspace

/-! ### Faults up to the name of a file -/

/-- A location without the name of the file. -/
def Location.nameless (l : Location) : Location := { l with file := "" }

/-- A fault whose location names no file. -/
def Fault.nameless : Fault → Fault
  | .bundle error => .bundle { error with location := error.location.map Location.nameless }
  | fault => fault

/-- Two origins that differ at most in the name of the file. -/
structure Origin.Like (a b : Origin) : Prop where
  location : a.location.map Location.nameless = b.location.map Location.nameless
  source : a.source = b.source

/-- Two outcomes with related results, or with faults that differ at most in the name of the file. -/
def Matches {α β : Type} (rel : α → β → Prop) : Except Fault α → Except Fault β → Prop
  | .ok a, .ok b => rel a b
  | .error raised, .error fault => raised.nameless = fault.nameless
  | _, _ => False

theorem matches_refl {α : Type} (x : Except Fault α) : Matches Eq x x := by
  cases x <;> rfl

namespace Origin.Like

variable {a b : Origin}

theorem moduleFile (like : a.Like b) (fs : FileSystem) (directory : FilePath) (module : ModulePath) (declaring : FilePath)
    (override : Option String) : Matches Eq (fs.moduleFile directory module declaring override a).outcome
      (fs.moduleFile directory module declaring override b).outcome := by
  obtain ⟨location, source⟩ := like
  cases override with
  | some value =>
    simp only [FileSystem.moduleFile]
    split
    · simp [Matches, Fault.nameless, location, source]
    · split
      · rfl
      · simp [Matches, Fault.nameless, FileSystem.noFile, BundleError.missingFile, location, source]
  | none =>
    simp only [FileSystem.moduleFile, Traced.outcome_bind, Traced.outcome_lift]
    cases module.candidates directory with
    | error fault => rfl
    | ok candidates =>
      simp only [ok_bind]
      split
      · rfl
      · simp [Matches, Fault.nameless, FileSystem.noFile, BundleError.missingFile, location, source]

theorem enterFile (like : a.Like b) (c : Context) (fs : FileSystem) (file : FilePath) :
    Matches Eq (c.enterFile fs file a) (c.enterFile fs file b) := by
  obtain ⟨location, source⟩ := like
  unfold Context.enterFile
  cases fs.resolve file with
  | error fault => rfl
  | ok resolved =>
    simp only [ok_bind]
    split
    · simp [Matches, throw, throwThe, MonadExceptOf.throw, Fault.nameless, Context.circular, location, source]
    · rfl

end Origin.Like

theorem SourceUnit.SameText.originOf {u v : SourceUnit} (same : u.SameText v) (site : Site) :
    (u.originOf site).Like (v.originOf site) := by
  constructor
  · simp [SourceUnit.originOf, SourceUnit.locate, Bytes.location, Location.nameless, same.bytes]
  · simp [SourceUnit.originOf, SourceUnit.text, same.bytes]

/-! ### Loaders that agree with what they expand -/

namespace Workspace

/-- The units kept are what the files at their resolved paths are read as. -/
def Genuine (w : Workspace) (files : List (FilePath × SourceUnit)) : Prop :=
  ∀ entry ∈ files, ∃ bytes name, w.fileSystem.Gives entry.1.parts bytes ∧
    (SourceUnit.parse w.grammar bytes name).outcome = .ok entry.2

/-- A loader gives what is expected up to the name of a file, and keeps only what the files are read as. -/
structure Agrees {α β : Type} (w : Workspace) (rel : α → β → Prop) (s : Loading) (x : Loader α) (e : Except Fault β) :
    Prop where
  outcome : Matches rel (x.run.run s).1 e
  kept : w.Genuine (x.run.run s).2.files

variable {w : Workspace} {α β γ δ : Type} {rel : α → β → Prop} {next : γ → δ → Prop} {s : Loading} {x : Loader α}
  {e : Except Fault β}

theorem agrees_pure {a : α} {b : β} (related : rel a b) (kept : w.Genuine s.files) : w.Agrees rel s (pure a) (.ok b) :=
  ⟨related, kept⟩

theorem agrees_throw {raised fault : Fault} (same : raised.nameless = fault.nameless) (kept : w.Genuine s.files) :
    w.Agrees rel s (throw raised) (.error fault) :=
  ⟨same, kept⟩

theorem agrees_ofTraced {y : Traced α} (same : Matches rel y.outcome e) (kept : w.Genuine s.files) :
    w.Agrees rel s (Loader.ofTraced y) e :=
  ⟨same, kept⟩

theorem agrees_lift {y : Except Fault α} (same : Matches rel y e) (kept : w.Genuine s.files) :
    w.Agrees rel s (liftM y) e :=
  ⟨same, kept⟩

theorem agrees_of_run {y : Loader α} {t : Loading} (same : x.run.run s = y.run.run t) (agrees : w.Agrees rel t y e) :
    w.Agrees rel s x e := by
  obtain ⟨outcome, kept⟩ := agrees
  constructor
  · rw [same]
    exact outcome
  · rw [same]
    exact kept

/-- Two steps agree with two steps. The second may use that the first is as expected. -/
theorem Agrees.bind {f : α → Loader γ} {g : β → Except Fault δ} (first : w.Agrees rel s x e)
    (rest : ∀ a b t, rel a b → e = .ok b → w.Genuine t.files → w.Agrees next t (f a) (g b)) :
    w.Agrees next s (x >>= f) (e >>= g) := by
  obtain ⟨outcome, kept⟩ := first
  have run := run_bind x f s
  rcases ran : x.run.run s with ⟨raised | a, t⟩
  · rw [ran] at outcome kept run
    cases e with
    | ok b => cases outcome
    | error fault =>
      have failed : w.Agrees next t (throw raised) (.error fault) := agrees_throw outcome kept
      exact agrees_of_run run failed
  · rw [ran] at outcome kept run
    cases e with
    | error fault => cases outcome
    | ok b => exact agrees_of_run run (rest a b t outcome rfl kept)

/-- A step that succeeds and is not expected makes no difference. -/
theorem agrees_after {y : Loader γ} {f : γ → Loader α} {c : γ} {t : Loading} (ran : y.Runs s c t)
    (rest : w.Agrees rel t (f c) e) : w.Agrees rel s (y >>= f) e := by
  have run := run_bind y f s
  rw [show y.run.run s = (.ok c, t) from ran] at run
  exact agrees_of_run run rest

theorem agrees_mapM {l : List γ} {f : γ → Loader α} {g : γ → Except Fault α}
    (each : ∀ c ∈ l, ∀ s, w.Genuine s.files → w.Agrees Eq s (f c) (g c)) (kept : w.Genuine s.files) :
    w.Agrees Eq s (l.mapM f) (l.mapM g) := by
  induction l generalizing s with
  | nil => exact agrees_pure rfl kept
  | cons c rest ih =>
    rw [List.mapM_cons, List.mapM_cons]
    refine (each c (List.mem_cons_self ..) s kept).bind ?_
    rintro a _ t rfl - kept
    refine (ih (fun c member => each c (List.mem_cons_of_mem _ member)) kept).bind ?_
    rintro others _ t rfl - kept
    exact agrees_pure rfl kept

/-! ### Loading agrees with expansion -/

/-- Bytes that are read under one name are read under every name. -/
theorem parse_renamed {grammar : Grammar} {bytes : Bytes} {name : String} {unit : SourceUnit}
    (parsed : (SourceUnit.parse grammar bytes name).outcome = .ok unit) (other : String) :
    (SourceUnit.parse grammar bytes other).outcome = .ok ⟨FilePath.ofString other, bytes, grammar bytes⟩ := by
  unfold SourceUnit.parse at parsed ⊢
  cases valid : Utf8.invalid? bytes with
  | some run => simp [valid] at parsed
  | none =>
    simp only [valid, Traced.outcome_bind, Traced.outcome_lift] at parsed ⊢
    obtain ⟨_, checked, -⟩ := bind_eq_ok.mp parsed
    cases flawed : (grammar bytes).flawed with
    | false => simp [SourceUnit.checkTree, flawed]
    | true =>
      simp only [SourceUnit.checkTree, flawed, if_true] at checked
      obtain ⟨_, -, impossible⟩ := bind_eq_ok.mp checked
      cases impossible

variable {files : List (FilePath × SourceUnit)} {file : FilePath} {unit : SourceUnit}

/-- A unit that is kept is that of the file opened anew, by whatever path the file was opened first. -/
theorem Genuine.freshUnit (kept : w.Genuine files) (found : files.lookup (file.resolve w.fileSystem.workingDirectory) = some unit)
    (there : w.fileSystem.isFile file = true) (module : ModulePath) (origin : Origin) :
    ∃ fresh, w.freshUnit file module origin = .ok fresh ∧ unit.SameText fresh := by
  obtain ⟨before, after, split, -⟩ := List.lookup_eq_some_iff.mp found
  obtain ⟨bytes, name, held, parsed⟩ := kept (file.resolve w.fileSystem.workingDirectory, unit) (by rw [split]; simp)
  have read := FileSystem.read_of_isFile there held
  obtain rfl : unit = _ := parse_eq_ok parsed
  refine ⟨⟨FilePath.ofString file.text, bytes, w.grammar bytes⟩, ?_, rfl, rfl⟩
  rw [Workspace.freshUnit, read]
  exact parse_renamed parsed file.text

theorem Genuine.add {bytes : Bytes} {name : String} (kept : w.Genuine files) (read : w.fileSystem.read file = .ok bytes)
    (parsed : (SourceUnit.parse w.grammar bytes name).outcome = .ok unit) :
    w.Genuine (files ++ [(file.resolve w.fileSystem.workingDirectory, unit)]) := by
  intro entry member
  rcases List.mem_append.mp member with old | new
  · exact kept entry old
  · rw [List.mem_singleton.mp new]
    exact ⟨bytes, name, FileSystem.gives_of_read read, parsed⟩

/-- A file that is opened is what it is when it is opened anew, whether its unit was kept or not; the first one has also
its own path. -/
theorem openUnit_agrees {resolved : FilePath} {module : ModulePath} {a b : Origin} (like : a.Like b)
    (absolute : w.fileSystem.resolve file = .ok resolved) (there : w.fileSystem.isFile file = true ∨ s.files = [])
    (kept : w.Genuine s.files) :
    w.Agrees (fun unit fresh => unit.SameText fresh ∧ (s.files = [] → unit = fresh)) s (w.openUnit file module a)
      (w.freshUnit file module b) := by
  unfold openUnit
  refine agrees_after (Loader.runs_liftExcept.mpr ⟨absolute, rfl⟩) ?_
  refine agrees_after (Loader.runs_get.mpr ⟨rfl, rfl⟩) ?_
  obtain rfl := FileSystem.resolve_eq_ok absolute
  split
  · -- the unit is kept, so this is not the first file
    next unit found =>
    have used : s.files ≠ [] := by
      intro none
      rw [none] at found
      cases found
    obtain ⟨fresh, again, same⟩ := kept.freshUnit found (there.resolve_right used) module b
    rw [again]
    exact agrees_pure ⟨same, fun none => absurd none used⟩ kept
  · refine agrees_after (Loader.runs_ofTraced.mpr ⟨rfl, rfl⟩) ?_
    cases read : w.fileSystem.read file with
    | error error =>
      rw [freshUnit, read]
      refine agrees_throw ?_ kept
      simp [Fault.nameless, unreadable, BundleError.missingFile, like.location, like.source]
    | ok bytes =>
      have fresh : w.freshUnit file module b = (SourceUnit.parse w.grammar bytes file.text).outcome >>= .ok := by
        rw [freshUnit, read]
        exact (bind_pure _).symm
      rw [fresh]
      refine agrees_after (Loader.runs_ofTraced.mpr ⟨rfl, rfl⟩) ?_
      refine Agrees.bind (agrees_ofTraced (matches_refl _) (by exact kept)) ?_
      rintro unit _ t rfl parsed kept
      exact agrees_after (Loader.runs_modify.mpr rfl) (agrees_pure ⟨⟨rfl, rfl⟩, fun _ => rfl⟩ (kept.add read parsed))

/-- The files of a workspace are tidy. -/
def Tidy (w : Workspace) : Prop :=
  ∀ file ∈ w.fileSystem.files, (SourceUnit.mk ⟨1, file.1⟩ file.2 (w.grammar file.2)).Tidy

instance : Decidable w.Tidy :=
  inferInstanceAs (Decidable (∀ file ∈ w.fileSystem.files, (SourceUnit.mk ⟨1, file.1⟩ file.2 (w.grammar file.2)).Tidy))

theorem Tidy.freshUnit {module : ModulePath} {origin : Origin} (tidy : w.Tidy)
    (fresh : w.freshUnit file module origin = .ok unit) : unit.Tidy := by
  unfold Workspace.freshUnit at fresh
  split at fresh
  · cases fresh
  · next bytes read =>
    obtain ⟨before, after, split, -⟩ := List.lookup_eq_some_iff.mp (FileSystem.read_eq_ok read)
    obtain rfl := parse_eq_ok fresh
    have fine := tidy (file.resolvedParts w.fileSystem.workingDirectory, bytes) (by rw [split]; simp)
    have same : (SourceUnit.mk ⟨1, file.resolvedParts w.fileSystem.workingDirectory⟩ bytes (w.grammar bytes)).SameText
        ⟨FilePath.ofString file.text, bytes, w.grammar bytes⟩ := ⟨rfl, rfl⟩
    exact same.tidy fine

variable {directory : FilePath} {c : Context} {u v : SourceUnit}

theorem semicolon?_of_expansionAt {site : Site} {edit : Edit} (made : w.expansionAt directory c u site = .ok edit) :
    ∃ n, Node.semicolon? site.placed.node.children = some n ∧ edit.blank = n.gap := by
  obtain ⟨_, -, made⟩ := bind_eq_ok.mp made
  obtain ⟨_, -, made⟩ := bind_eq_ok.mp made
  obtain ⟨_, -, made⟩ := bind_eq_ok.mp made
  obtain ⟨_, -, made⟩ := bind_eq_ok.mp made
  obtain ⟨text, -, made⟩ := bind_eq_ok.mp made
  unfold filling at made
  split at made
  · cases made
  · next n found =>
    cases made
    exact ⟨n, found, rfl⟩

theorem blank_of_expansionAt {sites : List Site} {edits : List Edit} (declared : ∀ site ∈ sites, site.declared = true)
    (made : sites.mapM (w.expansionAt directory c u) = .ok edits) : edits.map Edit.blank = Site.gaps sites := by
  induction sites generalizing edits with
  | nil =>
    cases made
    rfl
  | cons site rest ih =>
    rw [List.mapM_cons] at made
    obtain ⟨edit, first, made⟩ := bind_eq_ok.mp made
    obtain ⟨others, later, made⟩ := bind_eq_ok.mp made
    cases made
    obtain ⟨n, last, blank⟩ := semicolon?_of_expansionAt first
    have semicolon : site.semicolon? = some n.toTag := by
      rw [Site.semicolon?_of_declared (declared site (List.mem_cons_self ..)), last]
      rfl
    rw [List.map_cons, blank, ih (fun site member => declared site (List.mem_cons_of_mem _ member)) later]
    simp [Site.gaps, semicolon]

/-- The edits of an expansion are in order, so that splicing puts them in place one after the other. -/
theorem splice_of_expansionAt {edits : List Edit} (same : u.SameText v) (tidy : v.Tidy)
    (made : (v.declaredModules c.module).mapM (w.expansionAt directory c v) = .ok edits) :
    u.splice edits = .ok (Edit.spliced v.bytes 0 edits) := by
  have blank := blank_of_expansionAt (fun site member => (List.mem_filter.mp member).2) made
  have run : Edit.Run 0 v.root.stop (edits.map Edit.blank) := by
    rw [blank]
    exact tidy.run_gaps c.module
  rw [u.splice_of_run (Edit.run_of_blank run), same.bytes]

/-- The text of a unit with the bodies of the modules that it declares in place. -/
def textOf (w : Workspace) (directory : FilePath) (c : Context) (u : SourceUnit) : Loader Bytes := do
  let edits ← w.bodies directory u c (u.declarations c.module)
  Loader.ofTraced (.ofExcept (u.splice edits))

/-- What is done for a declaration, step by step. -/
theorem bodyOf_ok (declaration : Declaration) : w.bodyOf directory u c (.ok declaration) = (do
    let origin : Origin := ⟨some declaration.location, some u.text⟩
    let file ← w.fileSystem.moduleFile directory declaration.module c.file declaration.override origin
    let inner ← Context.enterFile { c with module := declaration.module } w.fileSystem file.val origin
    let unit ← w.openUnit file.val declaration.module origin
    let text ← w.textOf directory inner unit
    match declaration.semicolon with
    | none => throw .missingSemicolon
    | some semicolon =>
      Loader.note s!"inlined module {declaration.module} from {file.val}"
      return ⟨semicolon.start, semicolon.stop, braced text⟩) := by
  rw [bodyOf]
  congr 1
  funext file
  split
  · next fault refused =>
    rw [refused]
    rfl
  · next inner entered =>
    obtain ⟨resolved, -, -, rfl⟩ := Context.enterFile_eq_ok entered
    simp only [entered, textOf, bind_assoc]
    rfl

/-- A declaration is seen to as it is expanded, if the text of its file is. -/
theorem bodyOf_agrees {site : Site} (tidy : w.Tidy) (same : u.SameText v)
    (deeper : ∀ (inner : Context) (unit fresh : SourceUnit) (t : Loading),
      w.fileSystem.unentered inner.chain < w.fileSystem.unentered c.chain → unit.SameText fresh → fresh.Tidy →
        w.Genuine t.files → w.Agrees Eq t (w.textOf directory inner unit) (w.expansion directory inner fresh))
    (kept : w.Genuine s.files) :
    w.Agrees Eq s (w.bodyOf directory u c (u.declarationAt site)) (w.expansionAt directory c v site) := by
  have like := same.originOf site
  unfold SourceUnit.declarationAt SourceUnit.declaration expansionAt
  rw [same.pathAttribute]
  cases v.pathAttribute site.placed with
  | error fault => exact agrees_throw rfl kept
  | ok override =>
    simp only [ok_bind, pure_eq_ok, bodyOf_ok]
    refine (agrees_ofTraced (like.moduleFile _ _ _ _ _) kept).bind ?_
    rintro file _ t rfl - kept
    refine (agrees_lift (like.enterFile _ _ _) kept).bind ?_
    rintro inner _ t rfl entered kept
    have fewer := Context.unentered_enterFile_lt file.property entered
    obtain ⟨resolved, absolute, -, -⟩ := Context.enterFile_eq_ok entered
    refine (openUnit_agrees like absolute (.inl file.property) kept).bind ?_
    rintro unit fresh t ⟨same, -⟩ opened kept
    refine (deeper inner unit fresh t fewer same (tidy.freshUnit opened) kept).bind ?_
    rintro text _ t rfl - kept
    unfold filling Node.semicolon?
    cases site.placed.node.children.reverse.find? (·.kind == ";") with
    | none => exact agrees_throw rfl kept
    | some semicolon =>
      refine agrees_after (Loader.runs_ofTraced.mpr ⟨rfl, rfl⟩) ?_
      rw [braced_eq_inBraces]
      exact agrees_pure rfl kept

/-- The text of a unit with the bodies of its modules in place is its expansion. -/
theorem textOf_agrees (tidy : w.Tidy) (left : Nat) : ∀ (c : Context) (u v : SourceUnit) (s : Loading),
    w.fileSystem.unentered c.chain = left → u.SameText v → v.Tidy → w.Genuine s.files →
      w.Agrees Eq s (w.textOf directory c u) (w.expansion directory c v) := by
  -- a file that is entered leaves fewer to enter
  induction left using Nat.strong_induction_on with
  | _ left deeper =>
    rintro c u v s rfl same fine kept
    have below := fun (inner : Context) (unit fresh : SourceUnit) (t : Loading) fewer =>
      deeper (w.fileSystem.unentered inner.chain) fewer inner unit fresh t rfl
    have own : u.Tidy := SourceUnit.SameText.tidy ⟨same.bytes.symm, same.root.symm⟩ fine
    rw [textOf, bodies_eq, own.declarations_eq, List.mapM_map, same.declaredModules, expansion_eq]
    refine (agrees_mapM ?_ kept).bind ?_
    · intro site member s kept
      exact bodyOf_agrees tidy same below kept
    · rintro edits _ t rfl made kept
      refine agrees_ofTraced ?_ kept
      rw [Traced.outcome_ofExcept, splice_of_expansionAt same fine made]
      exact matches_refl _

/-- The crate root file and its text with all files of the crate in place, as they are loaded. -/
def gather (w : Workspace) (file : FilePath) : Loader (SourceUnit × Bytes) := do
  let root ← w.loadFile file
  let text ← w.inlined file root
  return (root, text)

/-- The crate root file itself if nothing was put in place, or else what the text is read as. -/
def reread (w : Workspace) (file : FilePath) (root : SourceUnit) (text : Bytes) : Except Fault SourceUnit :=
  if text == root.bytes then .ok root else (SourceUnit.parse w.grammar text file.text).outcome

theorem gather_agrees (tidy : w.Tidy) (file : FilePath) : w.Agrees Eq {} (w.gather file) (w.expanded file) := by
  have none : w.Genuine ({} : Loading).files := by simp [Genuine]
  unfold gather expanded Context.ofRoot
  cases absolute : w.fileSystem.resolve file with
  | error fault =>
    unfold loadFile openUnit
    rw [absolute]
    exact ⟨rfl, none⟩
  | ok resolved =>
    simp only [ok_bind, pure_eq_ok]
    refine (openUnit_agrees ⟨rfl, rfl⟩ absolute (.inr rfl) none).bind ?_
    rintro root _ t ⟨-, first⟩ opened kept
    obtain rfl := first rfl
    have steps : w.inlined file root = w.textOf file.parent ⟨.crate, file, [resolved]⟩ root := by
      unfold inlined Context.ofRoot
      rw [absolute]
      rfl
    rw [steps]
    refine (textOf_agrees tidy _ _ root root t rfl ⟨rfl, rfl⟩ (tidy.freshUnit opened) kept).bind ?_
    rintro bytes _ t rfl - kept
    exact agrees_pure rfl kept

theorem load_eq_gather (file : FilePath) : (w.load file).start.1 =
    (w.gather file).start.1 >>= fun found => w.reread file found.1 found.2 := by
  simp only [Loader.start, load, gather, run_bind]
  rcases (w.loadFile file).run.run {} with ⟨fault | root, t⟩
  · rfl
  · simp only
    rcases (w.inlined file root).run.run t with ⟨fault | text, t⟩
    · rfl
    · show _ = w.reread file root text
      unfold reread
      dsimp only
      by_cases same : (text == root.bytes) = true
      · rw [if_pos same, if_pos same]
        rfl
      · rw [if_neg same, if_neg same]
        rfl

/-- Loading agrees with expansion in a workspace of tidy files. The modules whose semicolons are replaced are those that
are found from the top of the tree. If the crate can be expanded, what is loaded is the root file itself if
nothing was put in place, and what the expanded text is read as otherwise. If it cannot, loading ends before anything
is read again, with the fault of the expansion, which at most names the file of its location by another path. -/
theorem load_expanded (tidy : w.Tidy) (file : FilePath) :
    (∀ (u : SourceUnit) (module path : ModulePath) (p : Placed),
      (∃ site ∈ u.declaredModules module, site.placed = p ∧ site.path = path) ↔ u.Finds p path module [] u.root.children) ∧
    (∀ root text, w.expanded file = .ok (root, text) → (w.gather file).start.1 = .ok (root, text) ∧
      (w.load file).start.1 = w.reread file root text) ∧
    ∀ fault, w.expanded file = .error fault →
      ∃ raised, (w.gather file).start.1 = .error raised ∧ (w.load file).start.1 = .error raised ∧
        raised.nameless = fault.nameless := by
  have agrees : Matches Eq (w.gather file).start.1 (w.expanded file) := (gather_agrees tidy file).outcome
  refine ⟨fun u module path p => SourceUnit.mem_declaredModules, ?_, ?_⟩
  · intro root text made
    rw [made] at agrees
    cases ran : (w.gather file).start.1 with
    | error raised =>
      rw [ran] at agrees
      cases agrees
    | ok found =>
      rw [ran] at agrees
      obtain rfl : found = (root, text) := agrees
      exact ⟨rfl, by rw [load_eq_gather, ran]; rfl⟩
  · intro fault failed
    rw [failed] at agrees
    cases ran : (w.gather file).start.1 with
    | ok found =>
      rw [ran] at agrees
      cases agrees
    | error raised =>
      rw [ran] at agrees
      exact ⟨raised, rfl, by rw [load_eq_gather, ran]; rfl, agrees⟩

/-! ### A file that is the body of two modules -/

/-- A declaration of a module whose name is a letter. -/
def declarationNode (start : Nat) : Node :=
  ⟨{ kind := "mod_item", named := true, start := start, stop := start + 6 },
    [tokenNode "mod" start (start + 3),
      ⟨{ kind := "identifier", named := true, start := start + 4, stop := start + 5, field := some "name" }, []⟩,
      tokenNode ";" (start + 5) (start + 6)]⟩

/-- The attribute `#[path="x.rs"]`. -/
def pathNode (start : Nat) : Node :=
  ⟨{ kind := "attribute_item", named := true, start := start, stop := start + 14 },
    [⟨{ kind := "attribute", named := true, start := start + 2, stop := start + 13 },
      [⟨{ kind := "identifier", named := true, start := start + 2, stop := start + 6 }, []⟩,
        ⟨{ kind := "string_literal", named := true, start := start + 7, stop := start + 13, field := some "value" },
          [⟨{ kind := "string_content", named := true, start := start + 8, stop := start + 12 }, []⟩]⟩]⟩]⟩

def sharingText : Bytes := Utf8.encode "#[path=\"x.rs\"]mod a;#[path=\"x.rs\"]mod b;"

/-- A crate with two modules in one file, which declares another module. -/
def sharedFile : Workspace where
  fileSystem := {
    files := [(["lib.rs"], sharingText), (["x.rs"], Utf8.encode "mod c;"), (["a", "c.rs"], Utf8.encode "// f"),
      (["b", "c.rs"], Utf8.encode "// g\n")]
    directories := [["a"], ["b"]] }
  grammar bytes :=
    if bytes == sharingText then fileNode 40 [pathNode 0, declarationNode 14, pathNode 20, declarationNode 34]
    else if bytes == Utf8.encode "mod c;" then fileNode 6 [declarationNode 0]
    else fileNode bytes.length []

/-- The text of the crate: the file is opened once and stands in two modules, with another file in each. -/
def sharedText : Bytes := Utf8.encode ("#[path=\"x.rs\"]mod a \x7b\nmod c \x7b\n// f\n\x7d\n\x7d" ++
  "#[path=\"x.rs\"]mod b \x7b\nmod c \x7b\n// g\n\x7d\n\x7d")

theorem load_sharedFile : sharedFile.Tidy ∧ ∃ root, (sharedFile.gather ⟨0, ["lib.rs"]⟩).start.1 = .ok (root, sharedText) ∧
    (sharedFile.load ⟨0, ["lib.rs"]⟩).start.1 = (SourceUnit.parse sharedFile.grammar sharedText "lib.rs").outcome := by
  have tidy : sharedFile.Tidy := by decide +kernel
  have text : (sharedFile.expanded ⟨0, ["lib.rs"]⟩).toOption.map (fun found => (found.1.bytes, found.2)) =
      some (sharingText, sharedText) := by decide +kernel
  cases made : sharedFile.expanded ⟨0, ["lib.rs"]⟩ with
  | error fault =>
    rw [made] at text
    cases text
  | ok found =>
    obtain ⟨root, expansion⟩ := found
    rw [made] at text
    simp only [Except.toOption, Option.map_some, Option.some.injEq, Prod.mk.injEq] at text
    obtain ⟨bytes, rfl⟩ := text
    obtain ⟨-, loaded, -⟩ := load_expanded tidy ⟨0, ["lib.rs"]⟩
    obtain ⟨gathered, reread⟩ := loaded root sharedText made
    refine ⟨tidy, root, gathered, ?_⟩
    have changed : (sharedText == sharingText) = false := by decide +kernel
    rw [reread, Workspace.reread, bytes, changed]
    rfl

/-! ### A module outside the body of a module -/

/-- A node is reached from another through named nodes in which declarations can stand, whatever they are. -/
inductive Leads (top : Node) : Node → Prop where
  | child {n : Node} (member : n ∈ top.children) (named : n.named = true) (looked : n.kind ∉ SourceUnit.undeclaringKinds) :
      Leads top n
  | further {n m : Node} (leads : Leads top n) (member : m ∈ n.children) (named : m.named = true)
      (looked : m.kind ∉ SourceUnit.undeclaringKinds) : Leads top m

/-- The text of a root file. -/
def strayText : Bytes := Utf8.encode "mod b; mod a \x7b\x7d\n"

/-- The module `a` with a body, before which another module stands as part of it. -/
def strayNode : Node :=
  ⟨{ kind := "mod_item", named := true, stop := 15 },
    [⟨{ kind := "visibility_modifier", named := true, stop := 6 }, [declarationNode 0]⟩, tokenNode "mod" 7 10,
      ⟨{ kind := "identifier", named := true, start := 11, stop := 12, field := some "name" }, []⟩,
      ⟨{ kind := "declaration_list", named := true, start := 13, stop := 15, field := some "body" }, []⟩]⟩

/-- A crate whose root file reads so. -/
def strayModule : Workspace where
  fileSystem := {
    files := [(["lib.rs"], strayText), (["b.rs"], Utf8.encode "// f\n"), (["a", "b.rs"], Utf8.encode "// f\n")]
    directories := [["a"]] }
  grammar bytes := if bytes == strayText then fileNode 16 [strayNode] else fileNode bytes.length []

/-- A module is entered through its body only: the declaration before it is reached through named nodes, has a name, a
semicolon and a file, and stays as it is. -/
theorem gather_strayModule : strayModule.Tidy ∧
    (∃ n, Leads (strayModule.grammar strayText) n ∧ n.kind = "mod_item" ∧ n.child? "body" = none ∧
      (Node.semicolon? n.children).map Node.toTag = some { kind := ";", start := 5, stop := 6 }) ∧
    (strayModule.gather ⟨0, ["lib.rs"]⟩).start.1.toOption.map Prod.snd = some strayText ∧
    ∀ text, Edit.spliced strayText 0 [⟨5, 6, inBraces text⟩] ≠ strayText := by
  refine ⟨by decide +kernel, ⟨declarationNode 0, ?_, rfl, rfl, rfl⟩, by decide +kernel, ?_⟩
  · have root : (strayModule.grammar strayText).children = [strayNode] := by
      rw [strayModule]
      simp [fileNode]
    have outer : Leads (strayModule.grammar strayText) strayNode := .child (by simp [root]) rfl (by decide)
    have between : Leads (strayModule.grammar strayText)
        ⟨{ kind := "visibility_modifier", named := true, stop := 6 }, [declarationNode 0]⟩ :=
      outer.further (by simp [strayNode]) rfl (by decide)
    exact between.further (by simp) rfl (by decide)
  · intro text same
    have lengths := congrArg List.length same
    have long : strayText.length = 16 := by decide +kernel
    have brace : (Utf8.encode " \x7b\n").length = 3 := by decide +kernel
    simp only [Edit.spliced, inBraces, List.length_append, Bytes.slice, List.length_take, List.length_drop, long, brace] at lengths
    omega

end Workspace

end CrateFold
