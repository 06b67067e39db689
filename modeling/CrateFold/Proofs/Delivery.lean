import Mathlib.Data.List.Basic
import CrateFold.Cli.Run
import CrateFold.Proofs.Requests

/-!
Where a run of the program writes. A write changes the file that the path resolves to and nothing else, and
reading the path afterwards gives what was written (`WroteOnly`, `write_wroteOnly`). From that, a run that ends
with a code other than zero has written nothing, and a run that ends with zero has put the text of the bundle
in one place, all as the arguments ask for it (`run_delivers`).
-/
namespace CrateFold

namespace FileSystem

variable {fs : FileSystem} {path : FilePath} {contents : Bytes} {here parts target found : List String}

/-! ### Files and directories after a file is put -/

private theorem lookup_cons_eq (name parts : List String) (contents : Bytes) (files : List (List String × Bytes)) :
    ((name, contents) :: files).lookup parts = if parts = name then some contents else files.lookup parts := by
  by_cases same : parts = name
  · simp [same]
  · simp [List.lookup_cons, beq_false_of_ne same, same]

theorem lookup_putFile (target : List String) (contents : Bytes) (files : List (List String × Bytes))
    (parts : List String) :
    (putFile target contents files).lookup parts = if parts = target then some contents else files.lookup parts := by
  induction files with
  | nil => exact lookup_cons_eq target parts contents []
  | cons file rest ih =>
    obtain ⟨name, old⟩ := file
    rw [putFile, lookup_cons_eq]
    by_cases here : name = target
    · rw [if_pos here, lookup_cons_eq, here]
      by_cases same : parts = target
      · simp [same]
      · simp [same]
    · rw [if_neg here, lookup_cons_eq, ih]
      by_cases same : parts = name
      · simp [same, here]
      · simp [same]

/-- The file system with the contents of one file replaced, or with one file more. -/
def put (fs : FileSystem) (target : List String) (contents : Bytes) : FileSystem :=
  { fs with files := putFile target contents fs.files }

theorem contents?_put_same : (fs.put target contents).contents? target = some contents := by
  simp [contents?, put, lookup_putFile]

theorem contents?_put_other (other : parts ≠ target) :
    (fs.put target contents).contents? parts = fs.contents? parts := by
  simp [contents?, put, lookup_putFile, other]

@[simp] theorem isDirectory_put : (fs.put target contents).isDirectory parts = fs.isDirectory parts := rfl

@[simp] theorem workingDirectory_put : (fs.put target contents).workingDirectory = fs.workingDirectory := rfl

/-! ### Walks -/

/-- Where a part that is not the last of a path to a file leads: up, or down to a directory. -/
inductive Steps (fs : FileSystem) (here : List String) (part : String) : List String → Prop where
  | up (back : part = "..") : Steps fs here part here.dropLast
  | down (plain : part ≠ "..") (nothing : fs.contents? (here ++ [part]) = none)
      (inside : fs.isDirectory (here ++ [part]) = true) : Steps fs here part (here ++ [part])

theorem Steps.walk {part : String} {next : List String} (steps : fs.Steps here part next) (rest : List String) :
    fs.walk here (part :: rest) = fs.walk next rest := by
  rw [FileSystem.walk]
  cases steps with
  | up back => simp [back]
  | down plain nothing inside => simp [plain, nothing, inside]

/-- What a walk that ends does first: it takes a step and goes on, or it ends at a file. -/
theorem walk_cons_cases {part : String} {rest : List String} {entry : Entry}
    (walked : fs.walk here (part :: rest) = .ok (found, entry)) :
    (∃ next, fs.Steps here part next ∧ fs.walk next rest = .ok (found, entry)) ∨
      ∃ contents, part ≠ ".." ∧ rest = [] ∧ found = here ++ [part] ∧ entry = .file contents ∧
        fs.contents? (here ++ [part]) = some contents := by
  rw [walk] at walked
  by_cases up : part = ".."
  · rw [if_pos (by simp [up])] at walked
    exact .inl ⟨_, .up up, walked⟩
  · rw [if_neg (by simp [up])] at walked
    split at walked
    · next contents file =>
      split at walked
      · next last =>
        cases walked
        exact .inr ⟨contents, up, List.isEmpty_iff.mp last, rfl, rfl, file⟩
      · cases walked
    · next nothing =>
      split at walked
      · next inside => exact .inl ⟨_, .down up nothing inside, walked⟩
      · cases walked

/-- A walk ends where its parts resolve to. -/
theorem walk_descend {entry : Entry} (walked : fs.walk here parts = .ok (found, entry)) :
    found = FilePath.descend here parts := by
  induction parts generalizing here with
  | nil =>
    cases walked
    rfl
  | cons part rest ih =>
    rcases walk_cons_cases walked with ⟨next, steps, later⟩ | ⟨contents, plain, rfl, rfl, -, -⟩
    · rw [ih later]
      cases steps with
      | up back => simp [FilePath.descend, back]
      | down plain _ _ => simp [FilePath.descend, plain]
    · simp [FilePath.descend, plain]

/-- A walk that ends at a directory goes on from there. -/
theorem walk_append {rest : List String} (walked : fs.walk here parts = .ok (found, .directory)) :
    fs.walk here (parts ++ rest) = fs.walk found rest := by
  induction parts generalizing here with
  | nil =>
    cases walked
    rfl
  | cons part more ih =>
    rcases walk_cons_cases walked with ⟨next, steps, later⟩ | ⟨_, -, -, -, impossible, -⟩
    · rw [List.cons_append, steps.walk, ih later]
    · cases impossible

/-- A step leads to the same place when a file is put elsewhere. -/
theorem Steps.put {part : String} {next : List String} (steps : fs.Steps here part next)
    (other : fs.contents? (here ++ [part]) = none → fs.isDirectory (here ++ [part]) = true → here ++ [part] ≠ target) :
    (fs.put target contents).Steps here part next := by
  cases steps with
  | up back => exact .up back
  | down plain nothing inside => exact .down plain (by rw [contents?_put_other (other nothing inside), nothing]) inside

/-- A walk to a directory meets directories only, so a file that is put elsewhere does not stop it. -/
theorem walk_put_directory (other : fs.isDirectory target = false)
    (walked : fs.walk here parts = .ok (found, .directory)) :
    (fs.put target contents).walk here parts = .ok (found, .directory) := by
  induction parts generalizing here with
  | nil => exact walked
  | cons part rest ih =>
    rcases walk_cons_cases walked with ⟨next, steps, later⟩ | ⟨_, -, -, -, impossible, -⟩
    · have same : (fs.put target contents).Steps here part next := by
        refine steps.put fun _ inside same => ?_
        rw [same, other] at inside
        cases inside
      rw [same.walk, ih later]
    · cases impossible

/-- A walk to a file ends there again when other contents are put into the file. -/
theorem walk_put_file {old : Bytes} (walked : fs.walk here parts = .ok (found, .file old)) :
    (fs.put found contents).walk here parts = .ok (found, .file contents) := by
  have file := (walk_file walked).2
  induction parts generalizing here with
  | nil => cases walked
  | cons part rest ih =>
    rcases walk_cons_cases walked with ⟨next, steps, later⟩ | ⟨_, plain, rfl, rfl, -, -⟩
    · have same : (fs.put found contents).Steps here part next := by
        refine steps.put fun nothing _ same => ?_
        rw [same, file] at nothing
        cases nothing
      rw [same.walk, ih later]
    · simp [walk, plain, contents?_put_same]

/-! ### Writing -/

/-- What it means that `after` differs from `before` in the file of one path, which holds `contents`. -/
structure WroteOnly (before after : FileSystem) (path : FilePath) (contents : Bytes) : Prop where
  read : after.read path = .ok contents
  others : ∀ parts, parts ≠ path.resolvedParts before.workingDirectory → after.contents? parts = before.contents? parts
  directories : after.directories = before.directories
  locked : after.locked = before.locked
  workingDirectory : after.workingDirectory = before.workingDirectory

theorem wroteOnly_put (unlocked : target ∉ fs.locked) (resolved : target = path.resolvedParts fs.workingDirectory)
    (reread : (fs.put target contents).find path = .ok (target, .file contents)) :
    WroteOnly fs (fs.put target contents) path contents where
  read := by
    have still : target ∉ (fs.put target contents).locked := unlocked
    simp [FileSystem.read, reread, still]
  others := by
    intro parts other
    rw [← resolved] at other
    exact contents?_put_other other
  directories := rfl
  locked := rfl
  workingDirectory := rfl

/-- A path that leads nowhere, while the path around it leads to a directory, has a last part of its own. -/
theorem parts_of_notFound (nowhere : fs.find path = .error .notFound)
    (around : fs.find path.parent = .ok (parts, .directory)) :
    path.parts = path.parent.parts ++ [path.name] ∧ path.name ≠ ".." ∧ fs.contents? (parts ++ [path.name]) = none ∧
      fs.isDirectory (parts ++ [path.name]) = false := by
  have split : path.parts = path.parent.parts ++ [path.name] := by
    rcases List.eq_nil_or_concat path.parts with none | ⟨front, last, same⟩
    · simp [find, none, walk] at nowhere
    · simp [FilePath.parent, FilePath.name, same]
  have last : fs.walk parts [path.name] = .error .notFound := by
    rw [← nowhere, find, split, ← walk_append around]
    rfl
  refine ⟨split, ?_⟩
  rw [walk] at last
  split at last
  · cases last
  · next down =>
    refine ⟨by simpa using down, ?_⟩
    split at last
    · cases last
    · next nothing =>
      split at last
      · cases last
      · next outside => exact ⟨nothing, by simpa using outside⟩

/-- A file is overwritten if it is not locked. -/
theorem overwrite_eq_ok {after : FileSystem} (written : fs.overwrite target contents = .ok after) :
    target ∉ fs.locked ∧ after = fs.put target contents := by
  unfold overwrite at written
  split at written
  · cases written
  · next unlocked =>
    cases written
    exact ⟨by simpa using unlocked, rfl⟩

/-- A write that succeeds changes one file, the one that the path leads to from then on. -/
theorem write_wroteOnly {after : FileSystem} (written : fs.write path contents = .ok after) :
    WroteOnly fs after path contents := by
  unfold write at written
  split at written
  · next parts old found =>
    obtain ⟨unlocked, rfl⟩ := overwrite_eq_ok written
    exact wroteOnly_put unlocked (walk_descend found) (walk_put_file found)
  · cases written
  · next nowhere =>
    split at written
    · next parts around =>
      obtain ⟨unlocked, rfl⟩ := overwrite_eq_ok written
      obtain ⟨split, down, nothing, outside⟩ := parts_of_notFound nowhere around
      refine wroteOnly_put unlocked ?_ ?_
      · -- the last part goes down one step from where the parts before it lead
        rw [FilePath.resolvedParts, split, FilePath.descend, List.foldl_append]
        change _ = if path.name == ".." then _ else FilePath.descend _ _ ++ [path.name]
        rw [if_neg (by simpa using down), walk_descend around]
        rfl
      · have inside : (fs.put (parts ++ [path.name]) contents).find path.parent = .ok (parts, .directory) :=
          walk_put_directory outside around
        rw [find, split, workingDirectory_put]
        refine (walk_append inside).trans ?_
        rw [walk, if_neg (by simpa using down), contents?_put_same]
        rfl
    · cases written
    · cases written
  · cases written

end FileSystem

namespace Cli

variable {convention : Convention} {arguments : List String} {env : Environment} {w : Workspace} {options : Options} {o : Outcome}

/-! ### Runs -/

/-- The crate root that options choose: the one they name, or else the library or the program of the crate
directory, which is the working directory unless they name one. -/
inductive Chooses (options : Options) : FilePath → Prop where
  | root {file : FilePath} (named : options.root = .named file) : Chooses options file
  | directory {directory : FilePath} (rootless : options.root = .absent)
      (named : options.crateDir = .named directory ∨ options.crateDir = .absent ∧ directory = {}) :
      Chooses options (directory.join ⟨0, ["src", if options.bin then "main.rs" else "lib.rs"]⟩)

theorem chooses_of_rootFile {file : FilePath} (chosen : rootFile options = .ok file) : Chooses options file := by
  unfold rootFile at chosen
  split at chosen
  · next named =>
    cases chosen
    exact .root named
  · next rootless =>
    obtain ⟨directory, found, rfl⟩ := map_eq_ok.mp chosen
    apply Chooses.directory rootless
    unfold crateDirectory at found
    split at found
    · next named =>
      cases found
      exact .inl named
    · next directoryless =>
      cases found
      exact .inr ⟨directoryless, rfl⟩
    · cases found
  · cases chosen

/-- The text of a bundle stands in one place: standard output, or the output file if there is one. -/
inductive Delivered (before : FileSystem) (text : String) : Place → Outcome → Prop where
  | stdout {o : Outcome} (printed : o.stdout = text) (same : o.fileSystem = before) : Delivered before text .absent o
  | file {o : Outcome} {path : FilePath} (silent : o.stdout = "")
      (wrote : FileSystem.WroteOnly before o.fileSystem path (Utf8.encode text)) :
      Delivered before text (.named path) o

/-- An outcome with code one, and nothing written. -/
structure Refused (before : FileSystem) (o : Outcome) : Prop where
  code : o.exitCode = 1
  silent : o.stdout = ""
  same : o.fileSystem = before

theorem deliver_cases {fs : FileSystem} {log text : String} (delivered : deliver options fs log text = .ok o) :
    Refused fs o ∨ o.exitCode = 0 ∧ Delivered fs text options.output o := by
  unfold deliver at delivered
  split at delivered
  · next unnamed =>
    cases delivered
    rw [unnamed]
    exact .inr ⟨rfl, .stdout rfl rfl⟩
  · cases delivered
  · next path named =>
    split at delivered
    · cases delivered
    · split at delivered
      · next written =>
        cases delivered
        rw [named]
        exact .inr ⟨rfl, .file rfl (FileSystem.write_wroteOnly written)⟩
      · cases delivered
        exact .inl ⟨rfl, rfl, rfl⟩

/-- A run with options is refused, or bundles the crate root that they choose and delivers its text. -/
theorem execute_cases (ended : (execute options env w).outcome = .ok o) :
    Refused w.fileSystem o ∨ o.exitCode = 0 ∧ ∃ file result, Chooses options file ∧
      (w.bundle file.text options.prune).outcome = .ok result ∧ result.error = none ∧
      Delivered w.fileSystem result.text options.output o := by
  unfold execute at ended
  rw [Traced.outcome_bind, bind_eq_ok] at ended
  obtain ⟨file, chosen, ended⟩ := ended
  rw [Traced.outcome_lift] at chosen
  split at ended
  · cases ended
    exact .inl ⟨rfl, rfl, rfl⟩
  · rw [Traced.outcome_bind, bind_eq_ok] at ended
    obtain ⟨result, bundled, ended⟩ := ended
    split at ended
    · cases ended
      exact .inl ⟨rfl, rfl, rfl⟩
    · next complete =>
      rw [Traced.outcome_lift] at ended
      rcases deliver_cases ended with refused | ⟨code, delivered⟩
      · exact .inl refused
      · exact .inr ⟨code, file, result, chooses_of_rootFile chosen, bundled, complete, delivered⟩

/-- A run that ends with a code other than zero leaves standard output empty and all files as they were. A run
that ends with zero has shown the help text, which its arguments ask for, or has put the text of the bundle in one place:
the bundle of the crate root, pruned or not, and the place, that its arguments ask for. Only arguments that ask for
neither options nor help are misuse. -/
theorem run_delivers (ended : (runUnder convention arguments env w).outcome = .ok o) :
    (o.exitCode ≠ 0 → o.stdout = "" ∧ o.fileSystem = w.fileSystem) ∧
      (o.exitCode = 0 →
        (AsksForHelp convention arguments ∧ o.stdout = helpText ∧ o.fileSystem = w.fileSystem) ∨
        ∃ options file result, AsksFor convention arguments options ∧ Chooses options file ∧
          (w.bundle file.text options.prune).outcome = .ok result ∧ result.error = none ∧
          Delivered w.fileSystem result.text options.output o) ∧
      (o.exitCode = 2 ↔ ¬ AsksForHelp convention arguments ∧ ∀ options, ¬ AsksFor convention arguments options) := by
  simp only [← parse_eq_ok_iff, ← parse_eq_help_iff]
  unfold runUnder at ended
  split at ended
  · next options parsed =>
    simp only [parsed]
    rcases execute_cases ended with refused | ⟨code, file, result, chosen, bundled, complete, delivered⟩
    · refine ⟨fun _ => ⟨refused.silent, refused.same⟩, ?_, ?_⟩
      · simp [refused.code]
      · simp [refused.code]
    · refine ⟨fun other => absurd code other, fun _ => .inr ?_, by simp [code]⟩
      exact ⟨options, file, result, rfl, chosen, bundled, complete, delivered⟩
  · next asked =>
    cases ended
    exact ⟨fun other => absurd rfl other, fun _ => .inl ⟨asked, rfl, rfl⟩, by simp [asked]⟩
  · next message misused =>
    cases ended
    refine ⟨fun _ => ⟨rfl, rfl⟩, ?_, by simp [misused]⟩
    intro zero
    cases zero

/-- A crate below the working directory whose only file, that of a program, holds a comment. -/
def commentOnly : Workspace where
  fileSystem := {
    workingDirectory := ["work"]
    files := [(["work", "sub", "src", "main.rs"], Utf8.encode "// f\n")]
    directories := [["work"], ["work", "sub"], ["work", "sub", "src"]] }
  grammar _ := ⟨{ kind := "source_file", named := true, start := 0, stop := 5 }, []⟩

/-- Arguments that ask for the pruned program in the directory `sub`. -/
def severalOptions : List String := ["--pru", "-vo=out.rs", "--crate-dir", "sub", "--bin"]

/-- With these arguments, the pruned bundle of this crate is written to a file of the given name, and nowhere else. -/
def WritesTo (convention : Convention) (name : String) : Prop :=
  ∃ o : Outcome, (runUnder convention severalOptions [] commentOnly).outcome = .ok o ∧ o.exitCode = 0 ∧ o.stdout = "" ∧
    ∃ result, (commentOnly.bundle "sub/src/main.rs" true).outcome = .ok result ∧ result.error = none ∧
      FileSystem.WroteOnly commentOnly.fileSystem o.fileSystem (FilePath.ofString name) (Utf8.encode result.text)

theorem run_delivers_commentOnly : WritesTo .lettered "=out.rs" ∧ WritesTo .assigning "out.rs" := by
  have each : ∀ convention name, Options.parse convention severalOptions = .ok {
        bin := true
        crateDir := .named (FilePath.ofString "sub")
        prune := true
        output := .named (FilePath.ofString name)
        verbose := true } →
      (runUnder convention severalOptions [] commentOnly).outcome.toOption.map Outcome.exitCode = some 0 →
        WritesTo convention name := by
    intro convention name parsed code
    cases ended : (runUnder convention severalOptions [] commentOnly).outcome with
    | error fault =>
      rw [ended] at code
      cases code
    | ok o =>
      have zero : o.exitCode = 0 := by simpa [ended, Except.toOption] using code
      rcases (run_delivers ended).2.1 zero with ⟨help, -⟩ | ⟨options, file, result, asked, chosen, bundled, complete, delivered⟩
      · cases parsed.symm.trans (parse_eq_help_iff.mpr help)
      · cases parsed.symm.trans (parse_eq_ok_iff.mpr asked)
        cases delivered with
        | file silent wrote =>
          refine ⟨o, ended, zero, silent, result, ?_, complete, wrote⟩
          cases chosen with
          | root named => cases named
          | directory rootless named =>
            obtain named | ⟨absent, -⟩ := named
            · cases named
              exact bundled
            · cases absent
  exact ⟨each .lettered "=out.rs" (by decide +kernel) (by decide +kernel),
    each .assigning "out.rs" (by decide +kernel) (by decide +kernel)⟩

end Cli

end CrateFold
