import CrateFold.Inline.Candidate
import CrateFold.ModulePath.Parse

/-!
# Where the inlining is

The context of the inlining is the module it is in, the file it is in and the chain of files that led
there from the crate root file. A file that is already in the chain cannot be entered; hence each entry
leaves fewer files that are not (`Context.unentered_enterFile_lt`).
-/

namespace CrateFold

/-- The place of the inlining. -/
structure Context where
  module : ModulePath
  file : FilePath
  /-- The resolved files that led here, the crate root file first. -/
  chain : List FilePath
deriving DecidableEq, Repr

/-- The absolute form of a path, by which the file that it leads to is known; a path with a NUL
character has none. -/
def FileSystem.resolve (fs : FileSystem) (path : FilePath) : Except Fault FilePath :=
  if path.hasNul then .error .nulInPath else .ok (path.resolve fs.workingDirectory)

/-- The absolute form is that seen from the working directory. -/
theorem FileSystem.resolve_eq_ok {fs : FileSystem} {path resolved : FilePath}
    (ok : fs.resolve path = .ok resolved) : path.resolve fs.workingDirectory = resolved := by
  unfold FileSystem.resolve at ok
  split at ok
  · cases ok
  · exact Except.ok.inj ok

namespace Context

/-- The context at the top of the crate root file. -/
def ofRoot (fs : FileSystem) (file : FilePath) : Except Fault Context := do
  return ⟨.crate, file, [← fs.resolve file]⟩

/-- The context inside a module. -/
def enterModule (c : Context) (name : String) : Except Fault Context := do
  return { c with module := ← c.module.joinText name }

/-- The error for a file that includes itself. -/
def circular (c : Context) (resolved : FilePath) (origin : Origin) : BundleError where
  problem := .circular (c.chain ++ [resolved])
  message := s!"module `{c.module}` includes its own file: " ++
    " -> ".intercalate ((c.chain ++ [resolved]).map FilePath.text)
  location := origin.location
  source := origin.source

/-- The context inside a file. -/
def enterFile (c : Context) (fs : FileSystem) (file : FilePath) (origin : Origin) : Except Fault Context := do
  let resolved ← fs.resolve file
  if c.chain.contains resolved then throw (.bundle (c.circular resolved origin))
  else return { c with file := file, chain := c.chain ++ [resolved] }

/-- A context inside a file is the context before with the file and its absolute form put in, which
was not in the chain. -/
theorem enterFile_eq_ok {fs : FileSystem} {c entered : Context} {file : FilePath} {origin : Origin}
    (ok : c.enterFile fs file origin = .ok entered) :
    ∃ resolved, fs.resolve file = .ok resolved ∧ resolved ∉ c.chain ∧
      entered = { c with file := file, chain := c.chain ++ [resolved] } := by
  unfold Context.enterFile at ok
  cases absolute : fs.resolve file with
  | error fault => rw [absolute] at ok; cases ok
  | ok resolved =>
    rw [absolute] at ok
    by_cases old : resolved ∈ c.chain
    · simp [bind, Except.bind, old, throw, throwThe, MonadExceptOf.throw] at ok
    · simp [bind, Except.bind, old, pure, Except.pure] at ok
      exact ⟨resolved, rfl, old, ok.symm⟩

end Context

/-! ## Files left to enter -/

/-- The number of files of a file system that are not in a chain. -/
def FileSystem.unentered (fs : FileSystem) (chain : List FilePath) : Nat :=
  fs.files.countP fun file => !chain.contains ⟨1, file.1⟩

/-- A stronger condition that one element fails counts fewer elements. -/
theorem countP_lt_of_imp {α : Type} {p q : α → Bool} {l : List α} (weaker : ∀ a, p a = true → q a = true)
    {a : α} (member : a ∈ l) (holds : q a = true) (fails : p a = false) : l.countP p < l.countP q := by
  induction l with
  | nil => cases member
  | cons b rest ih =>
    rcases List.mem_cons.1 member with rfl | inRest
    · have := List.countP_mono_left (l := rest) fun x _ => weaker x
      simp [holds, fails]
      omega
    · have := ih inRest
      rw [List.countP_cons, List.countP_cons]
      cases here : p b
      · simp; omega
      · simp [weaker b here]; omega

/-- Entering a file of the file system leaves fewer files to enter. -/
theorem Context.unentered_enterFile_lt {fs : FileSystem} {c entered : Context} {file : FilePath}
    {origin : Origin} (there : fs.isFile file = true) (ok : c.enterFile fs file origin = .ok entered) :
    fs.unentered entered.chain < fs.unentered c.chain := by
  obtain ⟨resolved, absolute, new, rfl⟩ := Context.enterFile_eq_ok ok
  obtain rfl := FileSystem.resolve_eq_ok absolute
  obtain ⟨contents, found⟩ := Option.isSome_iff_exists.1 (FileSystem.contents?_isSome_of_isFile there)
  obtain ⟨before, after, split, _⟩ := List.lookup_eq_some_iff.1 found
  refine countP_lt_of_imp (a := (file.resolvedParts fs.workingDirectory, contents)) ?_ ?_ ?_ ?_
  · intro f; simp +contextual
  · rw [split]; simp
  · simpa [FilePath.resolve] using new
  · simp [FilePath.resolve]

end CrateFold
