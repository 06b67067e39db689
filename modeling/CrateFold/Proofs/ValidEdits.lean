import CrateFold.Proofs.Deletions
import CrateFold.Proofs.Expansion

/-!
The edits of a crate are valid. Loading puts a text in place of the semicolons of declared modules, and the text is made in
the same way from the file of the module; so if all files that are put in place are sound (`Includes`), all that is
spliced is a text, the innermost file first (`bodies_accepts`). Pruning takes modules out of a sound file (`Sound.removals`).
In both cases no edit overlaps another (`edits_accepted`).
-/
namespace CrateFold

open Utf8 (Valid Boundary)

/-! ### Semicolons of the tree -/

namespace SourceUnit

variable {u : SourceUnit} {p : Placed} {path outer : ModulePath} {earlier nodes : List Node}

/-- A module that is found is a node of the tree. -/
theorem Finds.placed (finds : u.Finds p path outer earlier nodes) : p ∈ Node.placedIn earlier nodes := by
  induction finds with
  | @here outer earlier rest _ _ _ same _ =>
    obtain ⟨⟨tag, children⟩, before⟩ := p
    cases same
    simp [Node.placedIn, Node.placed]
  | next _ ih => exact List.mem_append_right _ ih
  | @down outer n earlier rest _ _ _ _ ih => exact List.mem_append_left _ (Node.placedIn_subset n earlier ih)
  | @inside outer n body earlier rest _ _ there _ ih =>
    obtain ⟨before, among⟩ := Node.placed_subset_of_mem (List.mem_of_find?_eq_some there) []
    exact List.mem_append_left _ (Node.placedIn_subset n earlier (among (Node.placedIn_subset body before ih)))

/-- The semicolons of declared modules start and stop at boundaries. -/
theorem Sound.gap {module : ModulePath} {gap : Edit} (sound : u.Sound) (member : gap ∈ Site.gaps (u.declaredModules module)) :
    Boundary u.bytes gap.start ∧ Boundary u.bytes gap.stop := by
  obtain ⟨tag, listed, rfl⟩ := List.mem_map.mp member
  obtain ⟨site, declared, semicolon⟩ := List.mem_filterMap.mp listed
  obtain ⟨-, n, found, rfl⟩ := Site.of_semicolon?_some semicolon
  have finds := mem_declaredModules.mp ⟨site, declared, rfl, rfl⟩
  exact sound.part (Node.placedIn_subset u.root [] finds.placed) (Node.mem_of_semicolon? found).1

end SourceUnit

namespace Workspace

variable {w : Workspace} {directory : FilePath} {c d : Context} {u v : SourceUnit} {s t : Loading} {edits : List Edit}

/-! ### Files put in place -/

/-- A unit is the given one, or that of a file that is put in place in it, directly or in another such file. -/
inductive Includes (w : Workspace) (directory : FilePath) (c : Context) (u : SourceUnit) : Context → SourceUnit → Prop where
  | self : Includes w directory c u c u
  | file {d inner : Context} {v unit : SourceUnit} {declaration : Declaration}
      {file : { file : FilePath // w.fileSystem.isFile file = true }} (includes : Includes w directory c u d v)
      (declared : .ok declaration ∈ v.declarations d.module)
      (found : (w.fileSystem.moduleFile directory declaration.module d.file declaration.override
        ⟨some declaration.location, some v.text⟩).outcome = .ok file)
      (entered : Context.enterFile { d with module := declaration.module } w.fileSystem file.val
        ⟨some declaration.location, some v.text⟩ = .ok inner)
      (held : w.Holds file.val unit) : Includes w directory c u inner unit

theorem Includes.trans {e : Context} {x : SourceUnit} (outer : w.Includes directory c u d v)
    (inner : w.Includes directory d v e x) : w.Includes directory c u e x := by
  induction inner with
  | self => exact outer
  | file _ declared found entered held ih => exact .file ih declared found entered held

theorem valid_braced {body : Bytes} (valid : Valid body) : Valid (braced body) := by
  have line : Valid [Bytes.newline] := by decide
  have start : Valid (Utf8.encode " \x7b\n") := by decide
  have stop : Valid (Utf8.encode "\x7d") := by decide
  unfold braced
  refine (start.append ?_).append stop
  split
  · exact valid
  · exact valid.append line

/-- An edit that puts a text in place of the semicolon of a declaration. -/
def Fills (entry : Except Fault Declaration) (edit : Edit) : Prop :=
  ∃ semicolon, declaredSemicolon? entry = some semicolon ∧ edit.blank = semicolon.gap ∧ Valid edit.replacement

/-- Seeing to declarations one after the other, if each gives an edit that puts a text in place. -/
theorem fills_of_mapM {entries : List (Except Fault Declaration)}
    (each : ∀ entry ∈ entries, ∀ s t edit, w.Kept s.files → (w.bodyOf directory u c entry).Runs s edit t →
      w.Kept t.files ∧ Fills entry edit)
    (kept : w.Kept s.files) (run : (entries.mapM (w.bodyOf directory u c)).Runs s edits t) :
    w.Kept t.files ∧ List.Forall₂ Fills entries edits := by
  induction entries generalizing s edits with
  | nil =>
    obtain ⟨rfl, rfl⟩ := Loader.runs_pure.mp run
    exact ⟨kept, .nil⟩
  | cons entry rest ih =>
    rw [List.mapM_cons] at run
    obtain ⟨edit, middle, first, run⟩ := Loader.runs_bind.mp run
    obtain ⟨others, later, further, run⟩ := Loader.runs_bind.mp run
    obtain ⟨rfl, rfl⟩ := Loader.runs_pure.mp run
    obtain ⟨still, fills⟩ := each entry (List.mem_cons_self ..) s middle edit kept first
    obtain ⟨last, all⟩ := ih (fun entry member => each entry (List.mem_cons_of_mem _ member)) still further
    exact ⟨last, .cons fills all⟩

theorem of_fills {entries : List (Except Fault Declaration)} (fills : List.Forall₂ Fills entries edits) :
    (∀ entry ∈ entries, ∃ declaration, entry = .ok declaration) ∧
      edits.map Edit.blank = (entries.filterMap declaredSemicolon?).map Tag.gap ∧
        ∀ edit ∈ edits, Valid edit.replacement := by
  induction fills with
  | nil => exact ⟨by simp, rfl, by simp⟩
  | @cons entry edit entries edits here _ ih =>
    obtain ⟨semicolon, declared, blank, valid⟩ := here
    obtain ⟨read, gaps, texts⟩ := ih
    refine ⟨List.forall_mem_cons.mpr ⟨?_, read⟩, ?_, List.forall_mem_cons.mpr ⟨valid, texts⟩⟩
    · cases entry with
      | error fault => cases declared
      | ok declaration => exact ⟨declaration, rfl⟩
    · rw [List.map_cons, blank, gaps, List.filterMap_cons, declared]
      rfl

/-- Edits that put texts in place of the semicolons of a sound unit are accepted. -/
theorem accepts_of_fills {module : ModulePath} (sound : u.Sound)
    (fills : List.Forall₂ Fills (u.declarations module) edits) : u.Accepts edits := by
  obtain ⟨read, blank, texts⟩ := of_fills fills
  have gaps : edits.map Edit.blank = Site.gaps (u.declaredModules module) := by
    rw [SourceUnit.declaredModules, Site.gaps_filter, Site.gaps, blank]
    exact congrArg _ (SourceUnit.declarationsBelow_sites u.root module ⟨module, [], false⟩ rfl read)
  have run : Edit.Run 0 u.root.stop (edits.map Edit.blank) := by
    rw [gaps, SourceUnit.declaredModules, Site.gaps_filter]
    exact (SourceUnit.run_gapsBelow u.root _ sound.ordered).mono (Nat.zero_le _) (Nat.le_refl _)
  refine sound.accepts (Edit.run_of_blank run) ?_
  intro edit member
  have cut : edit.blank ∈ Site.gaps (u.declaredModules module) := by
    rw [← gaps]
    exact List.mem_map_of_mem member
  obtain ⟨start, stop⟩ := sound.gap cut
  exact ⟨start, stop, texts edit member⟩

/-- The edits of a unit are accepted if it and all files put in place in it are sound. -/
theorem bodies_accepts (left : Nat) : ∀ (c : Context) (u : SourceUnit) (s t : Loading) (edits : List Edit),
    w.fileSystem.unentered c.chain = left → (∀ d v, w.Includes directory c u d v → v.Sound) → w.Kept s.files →
      (w.bodies directory u c (u.declarations c.module)).Runs s edits t → w.Kept t.files ∧ u.Accepts edits := by
  -- a file that is entered leaves fewer to enter
  induction left using Nat.strong_induction_on with
  | _ left deeper =>
    rintro c u s t edits rfl sound kept run
    rw [bodies_eq] at run
    obtain ⟨still, fills⟩ : w.Kept t.files ∧ List.Forall₂ Fills (u.declarations c.module) edits := by
      refine fills_of_mapM ?_ kept run
      intro entry member s t edit kept run
      cases bodyOf_runs kept run with
      | @intro declaration file inner unit inside body semicolon start stop _ found entered known held below spliced
          declared files =>
        have fewer := Context.unentered_enterFile_lt file.property entered
        have next := Includes.file .self member found entered held
        obtain ⟨resolved, -, -, same⟩ := Context.enterFile_eq_ok entered
        have module : inner.module = declaration.module := by rw [same]
        obtain ⟨still, accepts⟩ := deeper _ fewer inner unit start stop inside rfl
          (fun d v includes => sound d v (next.trans includes)) known (by rw [module]; exact below)
        obtain ⟨bytes, applied, valid, -⟩ := accepts.text
        rw [spliced] at applied
        cases applied
        exact ⟨files ▸ still, semicolon, declared, rfl, valid_braced valid⟩
    exact ⟨still, accepts_of_fills (sound c u .self) fills⟩

theorem gather_runs {file : FilePath} {text : Bytes} (made : (w.gather file).start.1 = .ok (u, text)) :
    w.Holds file u ∧ ∃ c s t edits, Context.ofRoot w.fileSystem file = .ok c ∧ w.Kept s.files ∧
      (w.bodies file.parent u c (u.declarations c.module)).Runs s edits t ∧ u.splice edits = .ok text := by
  have run : (w.gather file).Runs {} (u, text) (w.gather file).start.2 := Prod.ext made rfl
  obtain ⟨root, start, opened, run⟩ := Loader.runs_bind.mp run
  obtain ⟨bytes, later, inlined, run⟩ := Loader.runs_bind.mp run
  obtain ⟨same, -⟩ := Loader.runs_pure.mp run
  cases same
  obtain ⟨kept, held, -⟩ := openUnit_runs opened (.inr rfl) (by simp [Kept])
  obtain ⟨c, _, lifted, inlined⟩ := Loader.runs_bind.mp inlined
  obtain ⟨context, rfl⟩ := Loader.runs_liftExcept.mp lifted
  obtain ⟨edits, _, below, inlined⟩ := Loader.runs_bind.mp inlined
  obtain ⟨spliced, -⟩ := Loader.runs_ofTraced.mp inlined
  have module : c.module = .crate := by
    obtain ⟨_, -, context⟩ := bind_eq_ok.mp context
    cases context
    rfl
  exact ⟨held, c, start, _, edits, context, kept, by rw [module]; exact below, spliced⟩

/-- The text of a crate is a text, if the crate root file and all files put in place in it are sound; so loading does not
refuse it for its encoding. -/
theorem gather_valid {file : FilePath} {text : Bytes} (made : (w.gather file).start.1 = .ok (u, text))
    (sound : ∀ c d v, Context.ofRoot w.fileSystem file = .ok c → w.Includes file.parent c u d v → v.Sound) :
    Valid text ∧ ∀ run, (w.load file).start.1 ≠ .error (.bundle (SourceUnit.notUtf8 text file.text run)) := by
  obtain ⟨-, c, s, t, edits, context, kept, run, spliced⟩ := gather_runs made
  obtain ⟨-, accepts⟩ := bodies_accepts _ c u s t edits rfl (fun d v => sound c d v context) kept run
  obtain ⟨bytes, applied, valid, reread⟩ := accepts.text
  rw [spliced] at applied
  cases applied
  refine ⟨valid, ?_⟩
  intro run refused
  rw [load_eq_gather, made, ok_bind, Workspace.reread] at refused
  split at refused
  · cases refused
  · exact reread w.grammar file.text run refused

/-! ### Sound files -/

theorem Holds.sound {file : FilePath} (held : w.Holds file u)
    (files : ∀ file ∈ w.fileSystem.files, (SourceUnit.mk ⟨1, file.1⟩ file.2 (w.grammar file.2)).Sound) : u.Sound := by
  obtain ⟨path, bytes, root⟩ := u
  have grown : root = w.grammar bytes := held.root
  subst grown
  obtain ⟨before, after, split, -⟩ := List.lookup_eq_some_iff.mp (FileSystem.read_eq_ok held.read)
  obtain ⟨valid, ordered, boundaries⟩ :=
    files (file.resolvedParts w.fileSystem.workingDirectory, bytes) (by rw [split]; simp)
  exact ⟨valid, ordered, boundaries⟩

/-- If all files are sound, so are those that are put in place. -/
theorem Includes.sound (includes : w.Includes directory c u d v) (own : u.Sound)
    (files : ∀ file ∈ w.fileSystem.files, (SourceUnit.mk ⟨1, file.1⟩ file.2 (w.grammar file.2)).Sound) : v.Sound := by
  cases includes with
  | self => exact own
  | file _ _ _ _ held => exact held.sound files

end Workspace

/-- The edits of the program are valid. The removals of a sound unit, whatever is live, are accepted: none overlaps another,
and applying them gives a text. Each takes one module and the attributes and doc comments directly before it, and no byte
of any other named sibling. The edits that put files in place in a unit are accepted if the unit and all these files are
sound, and so the text of a crate of sound files is a text. -/
theorem edits_accepted :
    (∀ (u : SourceUnit) (live : Liveness) (edits : List Edit), u.Sound → (u.removals live).outcome = .ok edits →
      u.Accepts edits ∧ ∀ edit ∈ edits, ∃ kept taken module later, u.Deletes edit kept taken module later) ∧
    (∀ (w : Workspace) (directory : FilePath) (c : Context) (u : SourceUnit) (s t : Loading) (edits : List Edit),
      (∀ d v, w.Includes directory c u d v → v.Sound) → w.Kept s.files →
        (w.bodies directory u c (u.declarations c.module)).Runs s edits t → u.Accepts edits) ∧
    ∀ (w : Workspace) (file : FilePath) (u : SourceUnit) (text : Bytes), (w.gather file).start.1 = .ok (u, text) →
      (∀ c d v, Context.ofRoot w.fileSystem file = .ok c → w.Includes file.parent c u d v → v.Sound) →
        Valid text ∧ ∀ run, (w.load file).start.1 ≠ .error (.bundle (SourceUnit.notUtf8 text file.text run)) := by
  refine ⟨?_, ?_, ?_⟩
  · intro u live edits sound run
    exact sound.removals run
  · intro w directory c u s t edits sound kept run
    exact (Workspace.bodies_accepts _ c u s t edits rfl sound kept run).2
  · intro w file u text made sound
    exact Workspace.gather_valid made sound

/-! ### A crate with remarks -/

/-- A comment up to the end of a line. -/
def remarkNode (start stop : Nat) : Node := ⟨{ kind := "line_comment", named := true, start := start, stop := stop }, []⟩

/-- A module behind two comments, with its last part. -/
def remarkedModule (last : Node) : Node :=
  ⟨{ kind := "mod_item", named := true, start := 13, stop := last.stop },
    [Workspace.tokenNode "mod" 13 16,
      ⟨{ kind := "identifier", named := true, start := 17, stop := 18, field := some "name" }, []⟩, last]⟩

/-- The text of the crate root file. -/
def remarkedText : Bytes := Utf8.encode "// ü\n/// é\nmod a;\n"

/-- The crate root file. -/
def remarkedRoot : SourceUnit where
  path := ⟨0, ["lib.rs"]⟩
  bytes := remarkedText
  root := Workspace.fileNode 20 [remarkNode 0 5, remarkNode 6 13, remarkedModule (Workspace.tokenNode ";" 18 19)]

/-- The crate root file with the module in place. -/
def remarkedCrate : SourceUnit where
  path := ⟨0, ["lib.rs"]⟩
  bytes := Utf8.encode "// ü\n/// é\nmod a \x7b\n// ö\n\x7d\n"
  root := Workspace.fileNode 29 [remarkNode 0 5, remarkNode 6 13, remarkedModule
    ⟨{ kind := "declaration_list", named := true, start := 19, stop := 28, field := some "body" },
      [Workspace.tokenNode "\x7b" 19 20, remarkNode 21 26, Workspace.tokenNode "\x7d" 27 28]⟩]

/-- The crate with this file and a file for the module. -/
def remarkedFiles : Workspace where
  fileSystem := { files := [(["lib.rs"], remarkedText), (["a.rs"], Utf8.encode "// ö")] }
  grammar bytes :=
    if bytes == remarkedText then remarkedRoot.root
    else if bytes == remarkedCrate.bytes then remarkedCrate.root
    else Workspace.fileNode bytes.length [remarkNode 0 bytes.length]

/-- The context at its top. -/
def remarkedContext : Context := ⟨.crate, ⟨0, ["lib.rs"]⟩, [⟨1, ["lib.rs"]⟩]⟩

/-- The comment that is no doc comment stays where it is. -/
theorem edits_accepted_remarked :
    (remarkedCrate.Sound ∧ (remarkedCrate.removals ⟨[.crate], []⟩).outcome = .ok [⟨6, 28, []⟩] ∧
      remarkedCrate.Accepts [⟨6, 28, []⟩] ∧
        ∃ kept taken module later, remarkedCrate.Deletes ⟨6, 28, []⟩ kept taken module later) ∧
    (∃ t, (remarkedFiles.bodies ⟨0, []⟩ remarkedRoot remarkedContext (remarkedRoot.declarations .crate)).Runs {}
        [⟨18, 19, Utf8.encode " \x7b\n// ö\n\x7d"⟩] t ∧
      remarkedRoot.Accepts [⟨18, 19, Utf8.encode " \x7b\n// ö\n\x7d"⟩]) ∧
    ∃ u, (remarkedFiles.gather ⟨0, ["lib.rs"]⟩).start.1 = .ok (u, remarkedCrate.bytes) ∧ Valid remarkedCrate.bytes := by
  obtain ⟨pruning, loading, whole⟩ := edits_accepted
  have files : ∀ file ∈ remarkedFiles.fileSystem.files,
      (SourceUnit.mk ⟨1, file.1⟩ file.2 (remarkedFiles.grammar file.2)).Sound := by decide +kernel
  refine ⟨?_, ?_, ?_⟩
  · have sound : remarkedCrate.Sound := by decide +kernel
    have run : (remarkedCrate.removals ⟨[.crate], []⟩).outcome = .ok [⟨6, 28, []⟩] := by decide +kernel
    obtain ⟨accepts, deletes⟩ := pruning _ _ _ sound run
    exact ⟨sound, run, accepts, deletes _ (by simp)⟩
  · have sound : remarkedRoot.Sound := by decide +kernel
    have made : (remarkedFiles.bodies ⟨0, []⟩ remarkedRoot remarkedContext (remarkedRoot.declarations .crate)).start.1 =
        .ok [⟨18, 19, Utf8.encode " \x7b\n// ö\n\x7d"⟩] := by
      decide +kernel
    have run : (remarkedFiles.bodies ⟨0, []⟩ remarkedRoot remarkedContext (remarkedRoot.declarations .crate)).Runs {} _ _ :=
      Prod.ext made rfl
    exact ⟨_, run, loading _ _ _ _ _ _ _ (fun d v includes => includes.sound sound files) (by simp [Workspace.Kept]) run⟩
  · have text : (remarkedFiles.gather ⟨0, ["lib.rs"]⟩).start.1.toOption.map Prod.snd = some remarkedCrate.bytes := by
      decide +kernel
    cases made : (remarkedFiles.gather ⟨0, ["lib.rs"]⟩).start.1 with
    | error fault => simp [made, Except.toOption] at text
    | ok found =>
      obtain ⟨u, bytes⟩ := found
      obtain rfl : bytes = remarkedCrate.bytes := by simpa [made, Except.toOption] using text
      have own := (Workspace.gather_runs made).1.sound files
      exact ⟨u, rfl, (whole _ _ _ _ made fun c d v _ includes => includes.sound own files).1⟩

end CrateFold
