import CrateFold.Proofs.Expansion
import CrateFold.Proofs.Refusals

/-!
Names in the files of a crate. Loading reads the names of the modules that the files declare. If the names in
the files are from a vocabulary, each step of loading gives a fine result or a fair fault and keeps only units
with names from it (`LoadsFairly`, `load_fairly`). So a name that is refused on the way from the files of a
crate to its module map is refused for a character that is no word character, and a name with such a
character is refused wherever it is read (`names_refused`).
-/
namespace CrateFold

open Text

/-! ### Declarations -/

namespace SourceUnit

variable {v : Vocabulary} {u : SourceUnit}

theorem fairly_literalValue (u : SourceUnit) (n : Node) : Fairly v (fun _ => True) (u.literalValue n) := by
  have part : ∀ m, Fairly v (fun _ => True) (u.literalPart? m) := by
    intro m
    unfold literalPart?
    split
    · exact (u.fairly_textOf m.toTag).map fun _ _ => trivial
    · split
      · exact (u.fairly_textOf m.toTag).map fun _ _ => trivial
      · trivial
  refine (fairly_mapM fun m _ => part m).bind fun parts _ => ?_
  dsimp only
  split
  · exact (u.fairly_textOf n.toTag).bind fun _ _ => trivial
  · trivial

theorem fairly_pathValue (u : SourceUnit) (item : Node) : Fairly v (fun _ => True) (u.pathValue? item) := by
  unfold pathValue?
  split
  · split
    · split
      · trivial
      · next name _ _ =>
        refine (u.fairly_textOf name.toTag).bind fun text _ => ?_
        split
        · trivial
        · split
          · next value _ =>
            split
            · exact (u.fairly_literalValue value).bind fun _ _ => trivial
            · trivial
          · trivial
    · trivial
  · trivial

theorem fairly_pathAttribute (u : SourceUnit) (p : Placed) : Fairly v (fun _ => True) (u.pathAttribute p) := by
  have first : ∀ items, Fairly v (fun _ => True) (u.firstPathValue items) := by
    intro items
    induction items with
    | nil => trivial
    | cons item rest ih =>
      refine (u.fairly_pathValue item).bind fun value _ => ?_
      cases value with
      | some value => trivial
      | none => exact ih
  exact first _

theorem fairly_modulePath {tag : Tag} {children : List Node} {outer : ModulePath} (names : u.NamesFrom v ⟨tag, children⟩)
    (kind : tag.kind = "mod_item") (absolute : outer.isCratePath = true) :
    Fairly v (fun path => path.isCratePath = true) (u.modulePath outer children) := by
  refine (u.fairly_nameOf _).bind fun name named => ?_
  have known := named fun n found => names.name (.inr kind) found
  refine (ModulePath.fairly_joinText known outer).imp ?_
  rintro _ rfl
  exact ModulePath.join_isCratePath absolute

theorem fairly_declaration {module : ModulePath} (absolute : module.isCratePath = true) (p : Placed) :
    Fairly v (fun declaration => declaration.module.isCratePath = true) (u.declaration module p) :=
  (u.fairly_pathAttribute p).bind fun _ _ => absolute

mutual

/-- The declarations of a unit are of modules in the crate, as far as they can be read. -/
theorem declarationsAt_fairly : ∀ (n : Node) (outer : ModulePath) (earlier : List Node), n.All (u.NamesFrom v) →
    outer.isCratePath = true →
      ∀ entry ∈ u.declarationsAt outer earlier n, Fairly v (fun d => d.module.isCratePath = true) entry
  | ⟨tag, children⟩, outer, earlier, all, absolute => by
    obtain ⟨here, parts⟩ := Node.all_iff.mp all
    rw [declarationsAt]
    split
    · exact List.forall_mem_nil _
    · split
      · next module =>
        have path := fairly_modulePath here (by simpa using module) absolute
        cases read : u.modulePath outer children with
        | error fault =>
          rw [read] at path
          exact List.forall_mem_singleton.mpr path
        | ok inner =>
          rw [read] at path
          simp only
          split
          · exact declarationsInBody_fairly children inner parts path
          · exact List.forall_mem_singleton.mpr (fairly_declaration path _)
      · split
        · exact List.forall_mem_nil _
        · exact declarationsIn_fairly children outer [] parts absolute
termination_by structural n => n

theorem declarationsIn_fairly : ∀ (nodes : List Node) (outer : ModulePath) (earlier : List Node),
    (∀ n ∈ nodes, n.All (u.NamesFrom v)) → outer.isCratePath = true →
      ∀ entry ∈ u.declarationsIn outer earlier nodes, Fairly v (fun d => d.module.isCratePath = true) entry
  | [], _, _, _, _ => List.forall_mem_nil _
  | n :: rest, outer, earlier, all, absolute => by
    obtain ⟨here, later⟩ := List.forall_mem_cons.mp all
    rw [declarationsIn, List.forall_mem_append]
    exact ⟨declarationsAt_fairly n outer earlier here absolute, declarationsIn_fairly rest outer _ later absolute⟩
termination_by structural l => l

theorem declarationsInBody_fairly : ∀ (nodes : List Node) (outer : ModulePath), (∀ n ∈ nodes, n.All (u.NamesFrom v)) →
    outer.isCratePath = true →
      ∀ entry ∈ u.declarationsInBody outer nodes, Fairly v (fun d => d.module.isCratePath = true) entry
  | [], _, _, _ => List.forall_mem_nil _
  | n :: rest, outer, all, absolute => by
    obtain ⟨here, later⟩ := List.forall_mem_cons.mp all
    rw [declarationsInBody]
    split
    · exact declarationsBelow_fairly n outer here absolute
    · exact declarationsInBody_fairly rest outer later absolute
termination_by structural l => l

theorem declarationsBelow_fairly : ∀ (n : Node) (outer : ModulePath), n.All (u.NamesFrom v) → outer.isCratePath = true →
    ∀ entry ∈ u.declarationsBelow outer n, Fairly v (fun d => d.module.isCratePath = true) entry
  | ⟨_, children⟩, outer, all, absolute => declarationsIn_fairly children outer [] (Node.all_iff.mp all).2 absolute
termination_by structural n => n

end

end SourceUnit

/-! ### Loading -/

variable {v : Vocabulary}

theorem fairly_candidates {module : ModulePath} (absolute : module.isCratePath = true) (directory : FilePath) :
    Fairly v (fun _ => True) (module.candidates directory) := by
  unfold ModulePath.candidates
  split
  · next short =>
    have single : module.length < 2 := by simpa [absolute] using short
    obtain ⟨segments⟩ := module
    obtain ⟨rest, same⟩ := ModulePath.isCratePath_iff.mp absolute
    simp only at same
    subst same
    have none : rest = [] := by
      rw [← List.length_eq_zero_iff]
      simp only [ModulePath.length, List.length_cons] at single
      omega
    rw [none]
    rfl
  · trivial

theorem fairly_moduleFile {module : ModulePath} (absolute : module.isCratePath = true) (fs : FileSystem)
    (directory declaring : FilePath) (override : Option String) (origin : Origin) :
    Fairly v (fun _ => True) (fs.moduleFile directory module declaring override origin).outcome := by
  cases override with
  | some value =>
    simp only [FileSystem.moduleFile]
    split
    · trivial
    · split
      · trivial
      · trivial
  | none =>
    simp only [FileSystem.moduleFile, Traced.outcome_bind, Traced.outcome_lift]
    refine (fairly_candidates absolute directory).bind fun files _ => ?_
    split
    · trivial
    · trivial

theorem SourceUnit.fairly_checkTree (u : SourceUnit) (file : String) : Fairly v (fun _ => True) (u.checkTree file) := by
  have described : ∀ flaw, Fairly v (fun _ => True) (u.describeFlaw flaw) := by
    intro flaw
    unfold SourceUnit.describeFlaw
    split
    · trivial
    · exact (u.fairly_textOf flaw).bind fun _ _ => trivial
  unfold SourceUnit.checkTree
  split
  · exact (described _).bind fun _ _ => trivial
  · trivial

theorem fairly_parse (grammar : Grammar) (bytes : Bytes) (name : String) :
    Fairly v (fun unit => unit = ⟨FilePath.ofString name, bytes, grammar bytes⟩)
      (SourceUnit.parse grammar bytes name).outcome := by
  unfold SourceUnit.parse
  split
  · trivial
  · simp only [Traced.outcome_bind, Traced.outcome_lift]
    exact (SourceUnit.fairly_checkTree _ name).bind fun _ _ => rfl

theorem fairly_splice (u : SourceUnit) (edits : List Edit) : Fairly v (fun _ => True) (u.splice edits) := by
  have applied : ∀ (edits : List Edit) (position : Nat),
      Fairly v (fun _ => True) (Edit.applyFrom u.bytes u.path position edits) := by
    intro edits
    induction edits with
    | nil => exact fun _ => trivial
    | cons edit rest ih =>
      intro position
      rw [Edit.applyFrom]
      split
      · trivial
      · exact (ih edit.stop).bind fun _ _ => trivial
  exact applied _ 0

theorem fairly_resolve (fs : FileSystem) (file : FilePath) :
    Fairly v (fun resolved => fs.resolve file = .ok resolved) (fs.resolve file) := by
  unfold FileSystem.resolve
  split
  · trivial
  · rfl

theorem fairly_enterFile (c : Context) (fs : FileSystem) (file : FilePath) (origin : Origin) :
    Fairly v (fun inner => c.enterFile fs file origin = .ok inner) (c.enterFile fs file origin) := by
  cases entered : c.enterFile fs file origin with
  | ok inner => rfl
  | error fault =>
    unfold Context.enterFile at entered
    rcases bind_eq_error.mp entered with refused | ⟨resolved, -, refused⟩
    · have fair : Fairly v _ (fs.resolve file) := fairly_resolve fs file
      rw [refused] at fair
      exact fair
    · split at refused
      · cases refused
        trivial
      · cases refused

/-- The units kept have their names from a vocabulary. -/
def Loading.From (v : Vocabulary) (s : Loading) : Prop := ∀ entry ∈ s.files, entry.2.From v

/-- A step of loading gives a fine result or a fair fault, and the units kept have their names from the vocabulary. -/
structure LoadsFairly {α : Type} (v : Vocabulary) (fine : α → Prop) (s : Loading) (x : Loader α) : Prop where
  outcome : Fairly v fine (x.run.run s).1
  kept : (x.run.run s).2.From v

variable {α β : Type} {fine : α → Prop} {next : β → Prop} {s : Loading} {x : Loader α}

theorem loadsFairly_pure {a : α} (good : fine a) (kept : s.From v) : LoadsFairly v fine s (pure a) := ⟨good, kept⟩

theorem loadsFairly_throw {fault : Fault} (fair : fault.Fair v) (kept : s.From v) : LoadsFairly v fine s (throw fault) :=
  ⟨fair, kept⟩

theorem loadsFairly_ofTraced {y : Traced α} (fair : Fairly v fine y.outcome) (kept : s.From v) :
    LoadsFairly v fine s (Loader.ofTraced y) :=
  ⟨fair, kept⟩

theorem loadsFairly_lift {y : Except Fault α} (fair : Fairly v fine y) (kept : s.From v) : LoadsFairly v fine s (liftM y) :=
  ⟨fair, kept⟩

theorem loadsFairly_note (message : String) (kept : s.From v) : LoadsFairly v (fun _ => True) s (Loader.note message) :=
  ⟨trivial, kept⟩

theorem LoadsFairly.bind {f : α → Loader β} (first : LoadsFairly v fine s x)
    (rest : ∀ a t, fine a → t.From v → LoadsFairly v next t (f a)) : LoadsFairly v next s (x >>= f) := by
  obtain ⟨outcome, kept⟩ := first
  have run := run_bind x f s
  rcases ran : x.run.run s with ⟨raised | a, t⟩
  · rw [ran] at outcome kept run
    constructor
    · rw [run]
      exact outcome
    · rw [run]
      exact kept
  · rw [ran] at outcome kept run
    obtain ⟨outcome, kept⟩ := rest a t outcome kept
    constructor
    · rw [run]
      exact outcome
    · rw [run]
      exact kept

theorem loadsFairly_mapM {γ : Type} {l : List γ} {f : γ → Loader α}
    (each : ∀ c ∈ l, ∀ s : Loading, s.From v → LoadsFairly v (fun _ => True) s (f c)) (kept : s.From v) :
    LoadsFairly v (fun _ => True) s (l.mapM f) := by
  induction l generalizing s with
  | nil => exact loadsFairly_pure trivial kept
  | cons c rest ih =>
    rw [List.mapM_cons]
    refine (each c (List.mem_cons_self ..) s kept).bind fun a t _ kept => ?_
    refine (ih (fun c member => each c (List.mem_cons_of_mem _ member)) kept).bind fun others t _ kept => ?_
    exact loadsFairly_pure trivial kept

namespace Workspace

/-- The names in the files of a workspace are from a vocabulary. -/
def From (w : Workspace) (v : Vocabulary) : Prop :=
  ∀ file ∈ w.fileSystem.files, (SourceUnit.mk ⟨1, file.1⟩ file.2 (w.grammar file.2)).From v

instance (w : Workspace) : Decidable (w.From v) :=
  inferInstanceAs (Decidable (∀ file ∈ w.fileSystem.files, (SourceUnit.mk ⟨1, file.1⟩ file.2 (w.grammar file.2)).From v))

variable {w : Workspace} {directory : FilePath} {c : Context} {u : SourceUnit}

theorem From.of_read {file : FilePath} {bytes : Bytes} (known : w.From v) (read : w.fileSystem.read file = .ok bytes)
    (path : FilePath) : (SourceUnit.mk path bytes (w.grammar bytes)).From v := by
  obtain ⟨before, after, split, -⟩ := List.lookup_eq_some_iff.mp (FileSystem.read_eq_ok read)
  exact known (file.resolvedParts w.fileSystem.workingDirectory, bytes) (by rw [split]; simp)

theorem openUnit_fairly (known : w.From v) (file : FilePath) (module : ModulePath) (origin : Origin) (kept : s.From v) :
    LoadsFairly v (·.From v) s (w.openUnit file module origin) := by
  unfold openUnit
  refine (loadsFairly_lift (fairly_resolve _ file) kept).bind fun resolved t _ kept => ?_
  have got : LoadsFairly v (Loading.From v) t get := ⟨kept, kept⟩
  refine got.bind fun now t held kept => ?_
  split
  · next unit found =>
    obtain ⟨before, after, split, -⟩ := List.lookup_eq_some_iff.mp found
    exact loadsFairly_pure (held (resolved, unit) (by rw [split]; simp)) kept
  · refine (loadsFairly_note _ kept).bind fun _ t _ kept => ?_
    cases read : w.fileSystem.read file with
    | error error => exact loadsFairly_throw trivial kept
    | ok bytes =>
      refine (loadsFairly_note _ kept).bind fun _ t _ kept => ?_
      refine (loadsFairly_ofTraced (fairly_parse w.grammar bytes file.text) kept).bind ?_
      rintro unit t rfl kept
      have own := known.of_read read (FilePath.ofString file.text)
      have added : LoadsFairly v (fun _ => True) t (modify fun s =>
          { s with files := s.files ++ [(resolved, ⟨FilePath.ofString file.text, bytes, w.grammar bytes⟩)] }) := by
        refine ⟨trivial, ?_⟩
        intro entry member
        rcases List.mem_append.mp member with old | new
        · exact kept entry old
        · rw [List.mem_singleton.mp new]
          exact own
      exact added.bind fun _ t _ kept => loadsFairly_pure own kept

/-- A declaration is seen to fairly, if the text of its file is. -/
theorem bodyOf_fairly {entry : Except Fault Declaration} (known : w.From v)
    (fair : Fairly v (fun d => d.module.isCratePath = true) entry)
    (deeper : ∀ (inner : Context) (unit : SourceUnit) (t : Loading),
      w.fileSystem.unentered inner.chain < w.fileSystem.unentered c.chain → unit.From v → inner.module.isCratePath = true →
        t.From v → LoadsFairly v (fun _ => True) t (w.textOf directory inner unit))
    (kept : s.From v) : LoadsFairly v (fun _ => True) s (w.bodyOf directory u c entry) := by
  cases entry with
  | error fault => exact loadsFairly_throw fair kept
  | ok declaration =>
    rw [bodyOf_ok]
    refine (loadsFairly_ofTraced (fairly_moduleFile fair _ _ _ _ _) kept).bind fun file t _ kept => ?_
    refine (loadsFairly_lift (fairly_enterFile _ _ _ _) kept).bind fun inner t entered kept => ?_
    have fewer := Context.unentered_enterFile_lt file.property entered
    obtain ⟨resolved, -, -, rfl⟩ := Context.enterFile_eq_ok entered
    refine (openUnit_fairly known _ _ _ kept).bind fun unit t named kept => ?_
    refine (deeper _ unit t fewer named fair kept).bind fun text t _ kept => ?_
    cases declaration.semicolon with
    | none => exact loadsFairly_throw trivial kept
    | some semicolon =>
      refine (loadsFairly_note _ kept).bind fun _ t _ kept => ?_
      exact loadsFairly_pure trivial kept

/-- The text of a unit is put together fairly. -/
theorem textOf_fairly (known : w.From v) (left : Nat) : ∀ (c : Context) (u : SourceUnit) (s : Loading),
    w.fileSystem.unentered c.chain = left → u.From v → c.module.isCratePath = true → s.From v →
      LoadsFairly v (fun _ => True) s (w.textOf directory c u) := by
  -- a file that is entered leaves fewer to enter
  induction left using Nat.strong_induction_on with
  | _ left deeper =>
    rintro c u s rfl named absolute kept
    have below := fun (inner : Context) (unit : SourceUnit) (t : Loading) fewer =>
      deeper (w.fileSystem.unentered inner.chain) fewer inner unit t rfl
    rw [textOf, bodies_eq]
    refine (loadsFairly_mapM ?_ kept).bind fun edits t _ kept => ?_
    · intro entry member s kept
      exact bodyOf_fairly known (SourceUnit.declarationsBelow_fairly u.root c.module named absolute entry member) below kept
    · exact loadsFairly_ofTraced (fairly_splice u edits) kept

theorem load_fairly (known : w.From v) (file : FilePath) : LoadsFairly v (fun _ => True) {} (w.load file) := by
  have none : Loading.From v {} := List.forall_mem_nil _
  unfold load
  refine (openUnit_fairly known file .crate {} none).bind fun root t named kept => ?_
  have text : ∀ t : Loading, t.From v → LoadsFairly v (fun _ => True) t (w.inlined file root) := by
    intro t kept
    unfold inlined Context.ofRoot
    cases absolute : w.fileSystem.resolve file with
    | error fault =>
      have fair : Fairly v _ (w.fileSystem.resolve file) := fairly_resolve w.fileSystem file
      rw [absolute] at fair
      exact loadsFairly_throw fair kept
    | ok resolved => exact textOf_fairly known _ ⟨.crate, file, [resolved]⟩ root t rfl named rfl kept
  refine (text t kept).bind fun bytes t _ kept => ?_
  split
  · exact loadsFairly_pure trivial kept
  · have got : LoadsFairly v (fun _ => True) t get := ⟨trivial, kept⟩
    refine got.bind fun now t _ kept => ?_
    have counted : LoadsFairly v (fun _ => True) t
      (Loader.ofTraced (.record .info .loading s!"Bundled {now.files.length} files into {file}")) := ⟨trivial, kept⟩
    refine counted.bind fun _ t _ kept => ?_
    exact loadsFairly_ofTraced ((fairly_parse w.grammar bytes file.text).imp fun _ _ => trivial) kept

end Workspace

/-- Names are refused for their characters. A name is read as a segment if all its characters are word characters, and it
is refused otherwise. If all names in a unit, in the modules of a scope or in the files of a crate are from a vocabulary,
then a name that is refused when the scope tree is built, when it is flattened or when the crate is loaded
is a name of the vocabulary with a character that is no word character; there is none if all its names are made
of word characters. -/
theorem names_refused (v : Vocabulary) :
    (∀ name : String, isSpelling name.toList = true →
      ModulePath.parse name = if isWorded name.toList then .ok ⟨[name]⟩ else .error (.invalidSegment name name)) ∧
    (∀ u : SourceUnit, u.From v →
      Fairly v (fun tree => Fairly v (fun _ => True) (ModuleMap.ofTree tree).outcome) u.scopeTree.outcome) ∧
    (∀ s : Scope, s.From v → Fairly v (fun _ => True) (ModuleMap.ofTree (.file s)).outcome) ∧
    ∀ (w : Workspace) (root : FilePath), w.From v → Fairly v (fun _ => True) (w.load root).start.1 := by
  refine ⟨fun name => ModulePath.parse_spelled, ?_, fun s => ModuleMap.ofTree_fairly, ?_⟩
  · intro u known
    refine (u.scopeTree_fairly known).imp ?_
    rintro _ ⟨s, rfl, fine⟩
    exact ModuleMap.ofTree_fairly fine
  · intro w root known
    exact (Workspace.load_fairly known root).outcome

namespace Workspace

/-- All names. -/
def allNames : Vocabulary := ⟨fun name => isSpelling name.toList, fun _ spelled => spelled⟩

/-- A crate whose root file declares a module; the name of the module is a letter with a combining mark. -/
def markedCrate : Workspace where
  fileSystem := { files := [(["lib.rs"], Utf8.encode "mod e\u0301;")] }
  grammar bytes := fileNode bytes.length
    [⟨{ kind := "mod_item", named := true, stop := 8 },
      [tokenNode "mod" 0 3, ⟨{ kind := "identifier", named := true, start := 4, stop := 7, field := some "name" }, []⟩,
        tokenNode ";" 7 8]⟩]

/-- The name is an identifier, and the crate is refused for it. -/
theorem names_refused_marked : markedCrate.From allNames ∧
    ModulePath.parse "e\u0301" = .error (.invalidSegment "e\u0301" "e\u0301") ∧
    (markedCrate.load ⟨0, ["lib.rs"]⟩).start.1 = .error (.invalidSegment "e\u0301" "e\u0301") ∧
    Fault.Fair allNames (.invalidSegment "e\u0301" "e\u0301") := by
  have known : markedCrate.From allNames := by decide +kernel
  obtain ⟨single, -, -, loads⟩ := names_refused allNames
  have refused := single "e\u0301" (by decide +kernel)
  rw [if_neg (by decide +kernel)] at refused
  have outcome := loads markedCrate ⟨0, ["lib.rs"]⟩ known
  have raised : (match (markedCrate.load ⟨0, ["lib.rs"]⟩).start.1 with
      | .error fault => some fault
      | .ok _ => none) = some (.invalidSegment "e\u0301" "e\u0301") := by decide +kernel
  split at raised
  · next fault failed =>
    rw [failed] at outcome ⊢
    obtain rfl := Option.some.inj raised
    exact ⟨known, refused, rfl, outcome⟩
  · cases raised

end Workspace

end CrateFold
