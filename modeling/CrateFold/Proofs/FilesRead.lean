import CrateFold.Proofs.Encounters
import CrateFold.Proofs.Expansion

/-!
Each file is read once. A tour of a crate goes through its files as loading does, but opens each file anew
wherever it is met, and keeps the resolved paths met (`tour`). Loading passes through states in which the
files kept are those read so far, each once, in the order in which the tour first meets them, and the log
has one record of reading for each of them (`Passes`, `Accounts`). Loading and the tour go through the same
files, whether they succeed or end with a fault (`gather_tracks`, `load_reads_once`).
-/
namespace CrateFold

/-! ### Declarations of one text -/

/-- Two outcomes with related results, or two faults. -/
def Both {α β : Type} (rel : α → β → Prop) : Except Fault α → Except Fault β → Prop
  | .ok a, .ok b => rel a b
  | .error _, .error _ => True
  | _, _ => False

theorem Both.cases {α β : Type} {rel : α → β → Prop} {x : Except Fault α} {y : Except Fault β} (both : Both rel x y) :
    (∃ a b, x = .ok a ∧ y = .ok b ∧ rel a b) ∨ ∃ raised fault, x = .error raised ∧ y = .error fault := by
  cases x with
  | ok a =>
    cases y with
    | ok b => exact .inl ⟨a, b, rfl, rfl, both⟩
    | error fault => cases both
  | error raised =>
    cases y with
    | ok b => cases both
    | error fault => exact .inr ⟨raised, fault, rfl, rfl⟩

theorem both_refl {α : Type} (x : Except Fault α) : Both Eq x x := by
  cases x with
  | ok a => rfl
  | error fault => trivial

theorem Matches.both {α β : Type} {rel : α → β → Prop} {x : Except Fault α} {y : Except Fault β} (same : Matches rel x y) :
    Both rel x y := by
  cases x with
  | ok a =>
    cases y with
    | ok b => exact same
    | error fault => cases same
  | error raised =>
    cases y with
    | ok b => cases same
    | error fault => trivial

theorem Both.bind {α β γ δ : Type} {rel : α → β → Prop} {next : γ → δ → Prop} {x : Except Fault α} {y : Except Fault β}
    {f : α → Except Fault γ} {g : β → Except Fault δ} (first : Both rel x y) (rest : ∀ a b, rel a b → Both next (f a) (g b)) :
    Both next (x >>= f) (y >>= g) := by
  obtain ⟨a, b, rfl, rfl, related⟩ | ⟨raised, fault, rfl, rfl⟩ := first.cases
  · exact rest a b related
  · trivial

/-- Two declarations that differ at most in the name of the file. -/
structure Declaration.Like (d e : Declaration) : Prop where
  module : d.module = e.module
  override : d.override = e.override
  location : d.location.nameless = e.location.nameless
  semicolon : d.semicolon = e.semicolon

namespace SourceUnit.SameText

variable {u v : SourceUnit}

theorem modulePath (same : u.SameText v) (outer : ModulePath) (children : List Node) :
    u.modulePath outer children = v.modulePath outer children := by
  rw [SourceUnit.modulePath, same.nameOf]
  rfl

theorem locate (same : u.SameText v) (t : Tag) : (u.locate t).nameless = (v.locate t).nameless := by
  simp [SourceUnit.locate, Bytes.location, Location.nameless, same.bytes]

theorem declaration (same : u.SameText v) (module : ModulePath) (p : Placed) :
    Both Declaration.Like (u.declaration module p) (v.declaration module p) := by
  unfold SourceUnit.declaration
  rw [same.pathAttribute]
  cases v.pathAttribute p with
  | error fault => trivial
  | ok override => exact ⟨rfl, rfl, same.locate _, rfl⟩

mutual

theorem declarationsAt (same : u.SameText v) : ∀ (n : Node) (outer : ModulePath) (earlier : List Node),
    List.Forall₂ (Both Declaration.Like) (u.declarationsAt outer earlier n) (v.declarationsAt outer earlier n)
  | ⟨tag, children⟩, outer, earlier => by
    rw [SourceUnit.declarationsAt, SourceUnit.declarationsAt, same.modulePath]
    split
    · exact .nil
    · split
      · cases v.modulePath outer children with
        | error fault => exact .cons trivial .nil
        | ok module =>
          simp only
          split
          · exact same.declarationsInBody children module
          · exact .cons (same.declaration module _) .nil
      · split
        · exact .nil
        · exact same.declarationsIn children outer []
termination_by structural n => n

theorem declarationsIn (same : u.SameText v) : ∀ (nodes : List Node) (outer : ModulePath) (earlier : List Node),
    List.Forall₂ (Both Declaration.Like) (u.declarationsIn outer earlier nodes) (v.declarationsIn outer earlier nodes)
  | [], _, _ => .nil
  | n :: rest, outer, earlier => by
    rw [SourceUnit.declarationsIn, SourceUnit.declarationsIn]
    exact List.rel_append (same.declarationsAt n outer earlier) (same.declarationsIn rest outer _)
termination_by structural l => l

theorem declarationsInBody (same : u.SameText v) : ∀ (nodes : List Node) (outer : ModulePath),
    List.Forall₂ (Both Declaration.Like) (u.declarationsInBody outer nodes) (v.declarationsInBody outer nodes)
  | [], _ => .nil
  | n :: rest, outer => by
    rw [SourceUnit.declarationsInBody, SourceUnit.declarationsInBody]
    split
    · exact same.declarationsBelow n outer
    · exact same.declarationsInBody rest outer
termination_by structural l => l

theorem declarationsBelow (same : u.SameText v) : ∀ (n : Node) (outer : ModulePath),
    List.Forall₂ (Both Declaration.Like) (u.declarationsBelow outer n) (v.declarationsBelow outer n)
  | ⟨_, children⟩, outer => same.declarationsIn children outer []
termination_by structural n => n

end

theorem declarations (same : u.SameText v) (module : ModulePath) :
    List.Forall₂ (Both Declaration.Like) (u.declarations module) (v.declarations module) := by
  rw [SourceUnit.declarations, SourceUnit.declarations, same.root]
  exact same.declarationsBelow v.root module

/-- Edits are put in place alike in two units with one text. -/
theorem splice (same : u.SameText v) (edits : List Edit) : Both Eq (u.splice edits) (v.splice edits) := by
  have applied : ∀ (edits : List Edit) (position : Nat),
      Both Eq (Edit.applyFrom v.bytes u.path position edits) (Edit.applyFrom v.bytes v.path position edits) := by
    intro edits
    induction edits with
    | nil => exact fun position => both_refl _
    | cons edit rest ih =>
      intro position
      rw [Edit.applyFrom, Edit.applyFrom]
      split
      · trivial
      · refine (ih edit.stop).bind ?_
        rintro tail _ rfl
        rfl
  rw [SourceUnit.splice, SourceUnit.splice, same.bytes]
  exact applied _ 0

theorem origin (same : u.SameText v) {d e : Declaration} (like : d.Like e) :
    Origin.Like ⟨some d.location, some u.text⟩ ⟨some e.location, some v.text⟩ := by
  constructor
  · simp [like.location]
  · simp [SourceUnit.text, same.bytes]

end SourceUnit.SameText

/-! ### Tours -/

/-- A walk through the files of a crate, which keeps the resolved paths of the files met. -/
abbrev Tour := ExceptT Fault (StateM (List FilePath))

/-- Runs a tour from the start: its outcome and the files met. -/
def Tour.start {α : Type} (x : Tour α) : Except Fault α × List FilePath := x.run.run []

namespace Workspace

/-- Opens a file anew. -/
def meet (w : Workspace) (file : FilePath) (module : ModulePath) (origin : Origin) : Tour SourceUnit := do
  let resolved ← w.fileSystem.resolve file
  let unit ← w.freshUnit file module origin
  modify (· ++ [resolved])
  return unit

/-- The edits that put the files of declared modules in place, the files being met in the order of the declarations, each
with the files of its own declarations behind it. -/
def tourOf (w : Workspace) (directory : FilePath) (u : SourceUnit) (c : Context)
    (declarations : List (Except Fault Declaration)) : Tour (List Edit) :=
  declarations.mapM fun
    | .error fault => throw fault
    | .ok declaration => do
      let origin : Origin := ⟨some declaration.location, some u.text⟩
      let file ← (w.fileSystem.moduleFile directory declaration.module c.file declaration.override origin).outcome
      match _entered : Context.enterFile { c with module := declaration.module } w.fileSystem file.val origin with
      | .error fault => throw fault
      | .ok inner =>
        let unit ← w.meet file.val declaration.module origin
        let edits ← w.tourOf directory unit inner (unit.declarations declaration.module)
        let body ← unit.splice edits
        match declaration.semicolon with
        | none => throw .missingSemicolon
        | some semicolon => return ⟨semicolon.start, semicolon.stop, braced body⟩
termination_by w.fileSystem.unentered c.chain
decreasing_by
  have fewer := Context.unentered_enterFile_lt file.property _entered
  exact fewer

/-- The text of the crate with all module files in place, each file being opened anew wherever it is met. -/
def tour (w : Workspace) (root : FilePath) : Tour Bytes := do
  let c ← Context.ofRoot w.fileSystem root
  let unit ← w.meet root .crate {}
  let edits ← w.tourOf root.parent unit c (unit.declarations .crate)
  unit.splice edits

/-! ### What loading passes through -/

/-- The states that loading can pass through, with the resolved paths of the files met so far and of those read and
parsed so far. A step adds to the log, finds the unit of a file that is kept, or reads a file that is not. -/
inductive Passes (w : Workspace) : List FilePath → List FilePath → Loading → Prop where
  | start : Passes w [] [] {}
  | note {met read : List FilePath} {s : Loading} {records : Log} (passes : Passes w met read s)
      (other : ∀ record ∈ records, record.component ≠ .reading) :
      Passes w met read { s with log := s.log ++ records }
  | found {met read : List FilePath} {s : Loading} {file resolved : FilePath} {unit : SourceUnit}
      (passes : Passes w met read s) (absolute : w.fileSystem.resolve file = .ok resolved)
      (kept : s.files.lookup resolved = some unit) : Passes w (met ++ [resolved]) read s
  | opened {met read : List FilePath} {s : Loading} {file resolved : FilePath} {bytes : Bytes} {unit : SourceUnit}
      (passes : Passes w met read s) (absolute : w.fileSystem.resolve file = .ok resolved)
      (new : s.files.lookup resolved = none) (contents : w.fileSystem.read file = .ok bytes)
      (parsed : (SourceUnit.parse w.grammar bytes file.text).outcome = .ok unit) :
      Passes w (met ++ [resolved]) (read ++ [resolved])
        { files := s.files ++ [(resolved, unit)], log := s.log ++ (SourceUnit.parse w.grammar bytes file.text).log }

/-- A record of the log is that of reading a file as the unit under which it is kept. -/
def ReadAs (w : Workspace) (entry : FilePath × SourceUnit) (record : LogRecord) : Prop :=
  ∃ file, w.fileSystem.resolve file = .ok entry.1 ∧ w.fileSystem.read file = .ok entry.2.bytes ∧
    SourceUnit.parse w.grammar entry.2.bytes file.text = ⟨.ok entry.2, [record]⟩

/-- The files kept are those read so far, each of them once, in the order first met; each is kept as what it was read as,
and nothing else is recorded as read. -/
structure Accounts (w : Workspace) (met read : List FilePath) (s : Loading) : Prop where
  keys : s.files.map Prod.fst = read
  once : read.Nodup
  order : read = firstSeen met
  reads : List.Forall₂ w.ReadAs s.files (s.log.filter (·.component == .reading))

variable {w : Workspace} {met read : List FilePath} {s : Loading}

theorem lookup_eq_none_iff {files : List (FilePath × SourceUnit)} {resolved : FilePath} :
    files.lookup resolved = none ↔ resolved ∉ files.map Prod.fst := by
  rw [List.lookup_eq_none_iff, List.mem_map]
  constructor
  · rintro other ⟨entry, member, rfl⟩
    simpa using other entry member
  · intro absent entry member
    rw [bne_iff_ne]
    rintro rfl
    exact absent ⟨entry, member, rfl⟩

/-- Reading a source leaves one record if it succeeds, and none otherwise. -/
theorem parse_cases (grammar : Grammar) (bytes : Bytes) (name : String) :
    (∃ fault, SourceUnit.parse grammar bytes name = ⟨.error fault, []⟩) ∨
    ∃ unit record, record.component = .reading ∧ unit.bytes = bytes ∧
      SourceUnit.parse grammar bytes name = ⟨.ok unit, [record]⟩ := by
  unfold SourceUnit.parse
  split
  · exact .inl ⟨_, rfl⟩
  · dsimp only
    cases checked : SourceUnit.checkTree ⟨FilePath.ofString name, bytes, grammar bytes⟩ name with
    | error fault => exact .inl ⟨fault, rfl⟩
    | ok _ => exact .inr ⟨_, _, rfl, rfl, rfl⟩

theorem Passes.accounts (passes : w.Passes met read s) : w.Accounts met read s := by
  induction passes with
  | start => exact ⟨rfl, .nil, rfl, .nil⟩
  | @note met read s records _ other ih =>
    refine ⟨ih.keys, ih.once, ih.order, ?_⟩
    have none : records.filter (·.component == .reading) = [] := by
      rw [List.filter_eq_nil_iff]
      simpa using other
    rw [List.filter_append, none, List.append_nil]
    exact ih.reads
  | @found met read s file resolved unit _ absolute kept ih =>
    have member : resolved ∈ firstSeen met := by
      rw [← ih.order, ← ih.keys]
      by_contra absent
      rw [lookup_eq_none_iff.mpr absent] at kept
      cases kept
    refine ⟨ih.keys, ih.once, ?_, ih.reads⟩
    rw [firstSeen_append, List.foldl_cons, List.foldl_nil, insertNew_of_mem member]
    exact ih.order
  | @opened met read s file resolved bytes unit _ absolute new contents parsed ih =>
    have absent : resolved ∉ read := ih.keys ▸ lookup_eq_none_iff.mp new
    obtain ⟨fault, failed⟩ | ⟨other, record, component, own, made⟩ := parse_cases w.grammar bytes file.text
    · rw [failed] at parsed
      cases parsed
    · rw [made] at parsed
      obtain rfl := Except.ok.inj parsed
      refine ⟨by simp [ih.keys], ?_, ?_, ?_⟩
      · rw [List.nodup_append]
        refine ⟨ih.once, List.nodup_singleton _, ?_⟩
        rintro earlier member _ last rfl
        exact absent (List.mem_singleton.mp last ▸ member)
      · rw [firstSeen_append, List.foldl_cons, List.foldl_nil, ← ih.order]
        simp [insertNew, absent]
      · rw [List.filter_append, made]
        refine List.rel_append ih.reads ?_
        rw [List.filter_cons_of_pos (by simp [component]), List.filter_nil]
        exact .cons ⟨file, absolute, own ▸ contents, own ▸ made⟩ .nil

theorem Passes.noted (passes : w.Passes met read s) (message : String) :
    w.Passes met read { s with log := s.log ++ [⟨.debug, .loading, message⟩] } :=
  passes.note (by simp)

theorem ReadAs.contents {entry : FilePath × SourceUnit} {record : LogRecord} (readAs : w.ReadAs entry record) :
    w.fileSystem.Gives entry.1.parts entry.2.bytes ∧
      ∃ name, (SourceUnit.parse w.grammar entry.2.bytes name).outcome = .ok entry.2 := by
  obtain ⟨file, absolute, contents, parsed⟩ := readAs
  rw [← FileSystem.resolve_eq_ok absolute]
  exact ⟨FileSystem.gives_of_read contents, file.text, by rw [parsed]⟩

/-- What is kept is what the files hold. -/
theorem Passes.contents (passes : w.Passes met read s) :
    ∀ entry ∈ s.files, w.fileSystem.Gives entry.1.parts entry.2.bytes ∧
      ∃ name, (SourceUnit.parse w.grammar entry.2.bytes name).outcome = .ok entry.2 := by
  have each := passes.accounts.reads.imp fun entry record readAs => And.intro (ReadAs.contents readAs) readAs
  exact ((List.forall₂_and_left _ _).mp each).1

theorem Passes.genuine (passes : w.Passes met read s) : w.Genuine s.files := by
  intro entry member
  obtain ⟨held, name, parsed⟩ := passes.contents entry member
  exact ⟨_, name, held, parsed⟩

/-! ### Loaders that track tours -/

/-- A loader goes through the same files as a tour and ends like it. -/
structure Tracks {α β : Type} (w : Workspace) (rel : α → β → Prop) (s : Loading) (met : List FilePath) (x : Loader α)
    (y : Tour β) : Prop where
  outcome : Both rel (x.run.run s).1 (y.run.run met).1
  passes : ∃ read, w.Passes (y.run.run met).2 read (x.run.run s).2

variable {α β γ δ : Type} {rel : α → β → Prop} {next : γ → δ → Prop} {x : Loader α} {y : Tour β}

theorem tracks_pure {a : α} {b : β} (related : rel a b) (passes : w.Passes met read s) :
    w.Tracks rel s met (pure a) (pure b) :=
  ⟨related, read, passes⟩

theorem tracks_throw {raised fault : Fault} (passes : w.Passes met read s) :
    w.Tracks rel s met (throw raised) (throw fault) :=
  ⟨trivial, read, passes⟩

theorem tracks_lift {a : Except Fault α} {b : Except Fault β} (same : Both rel a b) (passes : w.Passes met read s) :
    w.Tracks rel s met (liftM a) (liftM b) :=
  ⟨same, read, passes⟩

/-- A computation that reads no file only adds to the log. -/
theorem tracks_ofTraced {a : Traced α} {b : Except Fault β} (same : Both rel a.outcome b)
    (other : ∀ record ∈ a.log, record.component ≠ .reading) (passes : w.Passes met read s) :
    w.Tracks rel s met (Loader.ofTraced a) (liftM b) :=
  ⟨same, read, passes.note other⟩

theorem tracks_of_run {z : Loader α} {r : Tour β} {t : Loading} {seen : List FilePath}
    (loader : x.run.run s = z.run.run t) (tour : y.run.run met = r.run.run seen) (tracks : w.Tracks rel t seen z r) :
    w.Tracks rel s met x y := by
  obtain ⟨outcome, passes⟩ := tracks
  constructor
  · rw [loader, tour]
    exact outcome
  · rw [loader, tour]
    exact passes

/-- Two steps track two steps. The second may use what the first gave. -/
theorem Tracks.bind {f : α → Loader γ} {g : β → Tour δ} (first : w.Tracks rel s met x y)
    (rest : ∀ a b t seen read, rel a b → (y.run.run met).1 = .ok b → w.Passes seen read t →
      w.Tracks next t seen (f a) (g b)) : w.Tracks next s met (x >>= f) (y >>= g) := by
  obtain ⟨outcome, read, passes⟩ := first
  have loader := run_bind x f s
  have tour := run_bind y g met
  rcases ran : x.run.run s with ⟨left, t⟩
  rcases went : y.run.run met with ⟨right, seen⟩
  rw [ran, went] at outcome passes
  rw [ran] at loader
  rw [went] at tour
  obtain ⟨a, b, rfl, rfl, related⟩ | ⟨raised, fault, rfl, rfl⟩ := outcome.cases
  · exact tracks_of_run loader tour (rest a b t seen read related (by rw [went]) passes)
  · have failed : w.Tracks next t seen (throw raised) (throw fault) := tracks_throw passes
    exact tracks_of_run loader tour failed

/-- A step that the tour does not take makes no difference to it. -/
theorem tracks_after {z : Loader γ} {f : γ → Loader α} {c : γ} {t : Loading} (ran : z.Runs s c t)
    (rest : w.Tracks rel t met (f c) y) : w.Tracks rel s met (z >>= f) y := by
  have loader := run_bind z f s
  rw [show z.run.run s = (.ok c, t) from ran] at loader
  exact tracks_of_run loader rfl rest

theorem tracks_mapM {listed : γ → δ → Prop} {l : List γ} {m : List δ} {f : γ → Loader α} {g : δ → Tour α}
    (alike : List.Forall₂ listed l m)
    (each : ∀ c d s met read, listed c d → w.Passes met read s → w.Tracks Eq s met (f c) (g d))
    (passes : w.Passes met read s) : w.Tracks Eq s met (l.mapM f) (m.mapM g) := by
  induction alike generalizing s met read with
  | nil => exact tracks_pure rfl passes
  | cons here _ ih =>
    rw [List.mapM_cons, List.mapM_cons]
    refine (each _ _ s met read here passes).bind ?_
    rintro a _ t seen read rfl - passes
    refine (ih passes).bind ?_
    rintro others _ t seen read rfl - passes
    exact tracks_pure rfl passes

/-! ### Loading tracks the tour -/

variable {file : FilePath} {directory : FilePath} {c : Context} {u v : SourceUnit}

theorem run_meet {resolved : FilePath} (absolute : w.fileSystem.resolve file = .ok resolved) (module : ModulePath)
    (origin : Origin) (met : List FilePath) : (w.meet file module origin).run.run met =
      match w.freshUnit file module origin with
      | .ok unit => (.ok unit, met ++ [resolved])
      | .error fault => (.error fault, met) := by
  unfold meet
  rw [absolute]
  cases w.freshUnit file module origin <;> rfl

/-- A file is opened as it is met, whether its unit is kept or not. -/
theorem openUnit_tracks {resolved : FilePath} {module : ModulePath} {a b : Origin}
    (absolute : w.fileSystem.resolve file = .ok resolved) (there : w.fileSystem.isFile file = true ∨ s.files = [])
    (passes : w.Passes met read s) :
    w.Tracks SourceUnit.SameText s met (w.openUnit file module a) (w.meet file module b) := by
  unfold openUnit
  refine tracks_after (Loader.runs_liftExcept.mpr ⟨absolute, rfl⟩) ?_
  refine tracks_after (Loader.runs_get.mpr ⟨rfl, rfl⟩) ?_
  have meets := run_meet absolute module b met
  split
  · next unit found =>
    have used : s.files ≠ [] := by
      intro none
      rw [none] at found
      cases found
    have resolves := FileSystem.resolve_eq_ok absolute
    obtain ⟨fresh, again, same⟩ := passes.genuine.freshUnit (resolves ▸ found) (there.resolve_right used) module b
    rw [again] at meets
    constructor
    · rw [meets]
      exact same
    · rw [meets]
      exact ⟨read, passes.found absolute found⟩
  · next new =>
    -- the attempt is noted before the file is read, and stays in the log if that fails
    have tried := passes.noted s!"trying to open: {file}"
    refine tracks_after (Loader.runs_ofTraced.mpr ⟨rfl, rfl⟩) ?_
    cases contents : w.fileSystem.read file with
    | error error =>
      rw [freshUnit, contents] at meets
      constructor
      · rw [meets]
        trivial
      · rw [meets]
        exact ⟨read, tried⟩
    | ok bytes =>
      have noted := tried.noted s!"opened: {file}"
      refine tracks_after (Loader.runs_ofTraced.mpr ⟨rfl, rfl⟩) ?_
      rw [freshUnit, contents] at meets
      obtain ⟨fault, failed⟩ | ⟨unit, record, -, -, made⟩ := parse_cases w.grammar bytes file.text
      · simp only [failed] at meets ⊢
        constructor
        · rw [meets]
          trivial
        · rw [meets]
          exact ⟨read, noted.note (List.forall_mem_nil _)⟩
      · have opened := noted.opened absolute new contents (by rw [made])
        simp only [made] at meets opened ⊢
        constructor
        · rw [meets]
          exact ⟨rfl, rfl⟩
        · rw [meets]
          exact ⟨_, opened⟩

theorem moduleFile_log (fs : FileSystem) (directory : FilePath) (module : ModulePath) (declaring : FilePath)
    (override : Option String) (origin : Origin) :
    ∀ record ∈ (fs.moduleFile directory module declaring override origin).log, record.component ≠ .reading := by
  cases override with
  | some value =>
    simp only [FileSystem.moduleFile]
    split
    · exact List.forall_mem_nil _
    · split
      · exact List.forall_mem_singleton.mpr (by simp)
      · exact List.forall_mem_nil _
  | none =>
    simp only [FileSystem.moduleFile]
    cases module.candidates directory with
    | error fault => exact List.forall_mem_nil _
    | ok candidates =>
      simp only [Traced.lift_ok, pure_bind]
      split
      · exact List.forall_mem_singleton.mpr (by simp)
      · exact List.forall_mem_nil _

/-- The text of a unit with the files of its declarations in place, each being opened anew. -/
def tourText (w : Workspace) (directory : FilePath) (c : Context) (u : SourceUnit) : Tour Bytes := do
  let edits ← w.tourOf directory u c (u.declarations c.module)
  u.splice edits

/-- The edit that puts the file of a declared module in place. -/
def tourAt (w : Workspace) (directory : FilePath) (u : SourceUnit) (c : Context) : Except Fault Declaration → Tour Edit
  | .error fault => throw fault
  | .ok declaration => do
    let origin : Origin := ⟨some declaration.location, some u.text⟩
    let file ← (w.fileSystem.moduleFile directory declaration.module c.file declaration.override origin).outcome
    let inner ← Context.enterFile { c with module := declaration.module } w.fileSystem file.val origin
    let unit ← w.meet file.val declaration.module origin
    let text ← w.tourText directory inner unit
    match declaration.semicolon with
    | none => throw .missingSemicolon
    | some semicolon => return ⟨semicolon.start, semicolon.stop, braced text⟩

theorem tourOf_eq (w : Workspace) (directory : FilePath) (u : SourceUnit) (c : Context)
    (declarations : List (Except Fault Declaration)) :
    w.tourOf directory u c declarations = declarations.mapM (w.tourAt directory u c) := by
  rw [tourOf]
  congr 1
  funext entry
  cases entry with
  | error fault => rfl
  | ok declaration =>
    simp only [tourAt]
    congr 1
    funext file
    split
    · next fault refused =>
      rw [refused]
      rfl
    · next inner entered =>
      obtain ⟨resolved, -, -, rfl⟩ := Context.enterFile_eq_ok entered
      simp only [entered, tourText, bind_assoc]
      rfl

/-- A declaration is seen to as on the tour, if the text of its file is. -/
theorem bodyOf_tracks {d e : Except Fault Declaration} (same : u.SameText v) (like : Both Declaration.Like d e)
    (deeper : ∀ (inner : Context) (unit fresh : SourceUnit) (t : Loading) (seen read : List FilePath),
      w.fileSystem.unentered inner.chain < w.fileSystem.unentered c.chain → unit.SameText fresh → w.Passes seen read t →
        w.Tracks Eq t seen (w.textOf directory inner unit) (w.tourText directory inner fresh))
    (passes : w.Passes met read s) :
    w.Tracks Eq s met (w.bodyOf directory u c d) (w.tourAt directory v c e) := by
  obtain ⟨d, e, rfl, rfl, like⟩ | ⟨raised, fault, rfl, rfl⟩ := like.cases
  · have origins := same.origin like
    simp only [bodyOf_ok, tourAt, like.module, like.override, like.semicolon]
    refine (tracks_ofTraced (origins.moduleFile _ _ _ _ _).both (moduleFile_log _ _ _ _ _ _) passes).bind ?_
    rintro file _ t seen read rfl - passes
    refine (tracks_lift (origins.enterFile _ _ _).both passes).bind ?_
    rintro inner _ t seen read rfl entered passes
    have fewer := Context.unentered_enterFile_lt file.property entered
    obtain ⟨resolved, absolute, -, -⟩ := Context.enterFile_eq_ok entered
    refine (openUnit_tracks absolute (.inl file.property) passes).bind ?_
    rintro unit fresh t seen read same - passes
    refine (deeper inner unit fresh t seen read fewer same passes).bind ?_
    rintro text _ t seen read rfl - passes
    cases e.semicolon with
    | none => exact tracks_throw passes
    | some semicolon =>
      refine tracks_after (Loader.runs_ofTraced.mpr ⟨rfl, rfl⟩) ?_
      exact tracks_pure rfl (passes.noted _)
  · exact tracks_throw passes

/-- The text of a unit is put together as on the tour. -/
theorem textOf_tracks (left : Nat) : ∀ (c : Context) (u v : SourceUnit) (s : Loading) (met read : List FilePath),
    w.fileSystem.unentered c.chain = left → u.SameText v → w.Passes met read s →
      w.Tracks Eq s met (w.textOf directory c u) (w.tourText directory c v) := by
  -- a file that is entered leaves fewer to enter
  induction left using Nat.strong_induction_on with
  | _ left deeper =>
    rintro c u v s met read rfl same passes
    have below := fun (inner : Context) (unit fresh : SourceUnit) (t : Loading) (seen read : List FilePath) fewer =>
      deeper (w.fileSystem.unentered inner.chain) fewer inner unit fresh t seen read rfl
    rw [textOf, tourText, bodies_eq, tourOf_eq]
    refine (tracks_mapM (same.declarations c.module) ?_ passes).bind ?_
    · intro d e s met read like passes
      exact bodyOf_tracks same like below passes
    · rintro edits _ t seen read rfl - passes
      exact tracks_ofTraced (same.splice edits) (List.forall_mem_nil _) passes

/-- Loading goes through the files of the tour. -/
theorem gather_tracks (w : Workspace) (root : FilePath) :
    w.Tracks (fun found text => found.2 = text) {} [] (w.gather root) (w.tour root) := by
  unfold gather tour Context.ofRoot
  cases absolute : w.fileSystem.resolve root with
  | error fault =>
    unfold loadFile openUnit
    rw [absolute]
    exact ⟨trivial, [], .start⟩
  | ok resolved =>
    refine (openUnit_tracks absolute (.inr rfl) .start).bind ?_
    rintro unit fresh t seen read same - passes
    have steps : w.inlined root unit = w.textOf root.parent ⟨.crate, root, [resolved]⟩ unit := by
      unfold inlined Context.ofRoot
      rw [absolute]
      rfl
    rw [steps]
    change w.Tracks _ t seen _ (w.tourText root.parent ⟨.crate, root, [resolved]⟩ fresh)
    rw [← bind_pure (w.tourText root.parent ⟨.crate, root, [resolved]⟩ fresh)]
    refine (textOf_tracks _ _ unit fresh t seen read rfl same passes).bind ?_
    rintro text _ t seen read rfl - passes
    exact tracks_pure rfl passes

/-- Once the text is put together, loading keeps no further files; it only adds to the log. -/
theorem load_start (w : Workspace) (root : FilePath) : ∃ later, (w.load root).start.2 =
    { (w.gather root).start.2 with log := (w.gather root).start.2.log ++ later } := by
  simp only [Loader.start, load, gather, run_bind]
  rcases (w.loadFile root).run.run {} with ⟨fault | unit, t⟩
  · exact ⟨[], by simp⟩
  · dsimp only
    rcases (w.inlined root unit).run.run t with ⟨fault | text, t⟩
    · exact ⟨[], by simp⟩
    · dsimp only
      by_cases same : (text == unit.bytes) = true
      · rw [if_pos same]
        exact ⟨[], by simp; rfl⟩
      · rw [if_neg same]
        -- the number of files goes into the log, and so does the reading of the text
        let count : LogRecord := ⟨.info, .loading, s!"Bundled {t.files.length} files into {root}"⟩
        refine ⟨count :: (SourceUnit.parse w.grammar text root.text).log, ?_⟩
        rw [List.append_cons]
        rfl

/-- Each file is read once. In every state that loading passes through, the files kept are those read and parsed so far,
each once and in the order first met, and each with what the file holds; a file is recorded as read when it is put among
them and at no other time. Loading passes through such states to its end, successful or not, and has met
then what the tour meets, which ends like it. So the files kept at the end are those of the tour without repetitions. -/
theorem load_reads_once (w : Workspace) (root : FilePath) :
    (∀ met read s, w.Passes met read s → w.Accounts met read s) ∧
    w.Passes (w.tour root).start.2 (firstSeen (w.tour root).start.2) (w.gather root).start.2 ∧
    Both (fun found text => found.2 = text) (w.gather root).start.1 (w.tour root).start.1 ∧
    (∃ later, (w.load root).start.2 = { (w.gather root).start.2 with log := (w.gather root).start.2.log ++ later }) ∧
    (w.load root).start.2.files.map Prod.fst = firstSeen (w.tour root).start.2 ∧
    (∀ entry ∈ (w.load root).start.2.files, w.fileSystem.contents? entry.1.parts = some entry.2.bytes) ∧
    ∀ unit, (w.load root).start.1 = .ok unit → ∃ text, (w.tour root).start.1 = .ok text ∧
      ∀ file, file ∈ (w.load root).start.2.files.map Prod.fst ↔ file ∈ (w.tour root).start.2 := by
  obtain ⟨outcome, read, passes⟩ := w.gather_tracks root
  have order := passes.accounts.order
  have keys := passes.accounts.keys
  have contents := passes.contents
  obtain ⟨later, done⟩ := w.load_start root
  have files : (w.load root).start.2.files = (w.gather root).start.2.files := by rw [done]
  have listed : (w.load root).start.2.files.map Prod.fst = firstSeen (w.tour root).start.2 := by
    rw [files]
    exact keys.trans order
  refine ⟨fun met read s => Passes.accounts, order ▸ passes, outcome, ⟨later, done⟩, listed, ?_, ?_⟩
  · intro entry member
    exact (contents entry (files ▸ member)).1.held
  · intro unit loaded
    rw [load_eq_gather] at loaded
    obtain ⟨found, gathered, -⟩ := bind_eq_ok.mp loaded
    obtain ⟨_, text, -, toured, -⟩ | ⟨raised, _, failed, -⟩ := outcome.cases
    · refine ⟨text, toured, ?_⟩
      intro file
      rw [listed, mem_firstSeen]
    · cases gathered.symm.trans failed

/-- The crate with a file that is the body of two modules. The file is met twice and read once, and its declaration
leads to another file each time. -/
theorem load_reads_once_shared :
    (sharedFile.load ⟨0, ["lib.rs"]⟩).start.2.files.map Prod.fst =
      [⟨1, ["lib.rs"]⟩, ⟨1, ["x.rs"]⟩, ⟨1, ["a", "c.rs"]⟩, ⟨1, ["b", "c.rs"]⟩] ∧
    (sharedFile.tour ⟨0, ["lib.rs"]⟩).start.2 =
      [⟨1, ["lib.rs"]⟩, ⟨1, ["x.rs"]⟩, ⟨1, ["a", "c.rs"]⟩, ⟨1, ["x.rs"]⟩, ⟨1, ["b", "c.rs"]⟩] ∧
    (sharedFile.gather ⟨0, ["lib.rs"]⟩).start.2.log.countP (·.component == .reading) = 4 := by
  have met : (sharedFile.tour ⟨0, ["lib.rs"]⟩).start.2 =
      [⟨1, ["lib.rs"]⟩, ⟨1, ["x.rs"]⟩, ⟨1, ["a", "c.rs"]⟩, ⟨1, ["x.rs"]⟩, ⟨1, ["b", "c.rs"]⟩] := by decide +kernel
  obtain ⟨accounts, passes, -, -, listed, -, -⟩ := sharedFile.load_reads_once ⟨0, ["lib.rs"]⟩
  refine ⟨?_, met, ?_⟩
  · rw [listed, met]
    decide
  · have reads := (accounts _ _ _ passes).reads.length_eq
    have keys := congrArg List.length (accounts _ _ _ passes).keys
    rw [List.length_map, met] at keys
    rw [List.countP_eq_length_filter, ← reads, keys]
    decide

end Workspace

end CrateFold
