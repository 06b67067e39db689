import CrateFold.Inline.Context
import CrateFold.Inline.Declaration
import CrateFold.Tree.Edit

/-!
# Loading a crate

Loading folds the files of a crate into one unit: the semicolon of every module declaration is replaced
by the body of the module, which is the text of its file with the declarations in it replaced likewise.
A file is opened once; its unit is kept under its resolved path. Files that include themselves are
refused, so a crate of finitely many files is always loaded or refused.
-/

namespace CrateFold

/-- What loading has done so far; it is kept when loading ends in a fault. -/
structure Loading where
  /-- The units of the files opened, by resolved path, in the order opened. -/
  files : List (FilePath × SourceUnit) := []
  log : Log := []

/-- A step of loading. -/
abbrev Loader := ExceptT Fault (StateM Loading)

namespace Loader

variable {α : Type}

/-- A traced computation as a step of loading. -/
def ofTraced (x : Traced α) : Loader α :=
  ExceptT.mk fun s => (x.outcome, { s with log := s.log ++ x.log })

instance : MonadLift Traced Loader := ⟨ofTraced⟩

/-- Adds a debug record of the loader. -/
def note (message : String) : Loader Unit := ofTraced (.record .debug .loading message)

/-- Runs a loader from the start: its outcome and what it has done. -/
def start (x : Loader α) : Except Fault α × Loading := x.run.run {}

/-- A loader run from the start, as a traced computation. -/
def traced (x : Loader α) : Traced α := ⟨x.start.1, x.start.2.log⟩

end Loader

/-- The places where a crate is loaded from. -/
structure Workspace where
  fileSystem : FileSystem
  grammar : Grammar

namespace Workspace

/-- The error for a file that cannot be read. -/
def unreadable (file : FilePath) (module : ModulePath) (error : PathError) (origin : Origin) : BundleError :=
  .missingFile s!"couldn't read `{file}` for module `{module}`: {error.text}" (some module.text) [file]
    origin.location origin.source none

/-- The unit of a file: the one kept, or else the file is opened and read. -/
def openUnit (w : Workspace) (file : FilePath) (module : ModulePath) (origin : Origin) : Loader SourceUnit := do
  let resolved ← w.fileSystem.resolve file
  match (← get).files.lookup resolved with
  | some unit => return unit
  | none =>
    Loader.note s!"trying to open: {file}"
    match w.fileSystem.read file with
    | .error error => throw (.bundle (unreadable file module error origin))
    | .ok bytes =>
      Loader.note s!"opened: {file}"
      let unit ← SourceUnit.parse w.grammar bytes file.text
      modify fun s => { s with files := s.files ++ [(resolved, unit)] }
      return unit

/-- The body of a module as it replaces the semicolon of its declaration: in braces, the last line
ended. -/
def braced (body : Bytes) : Bytes :=
  let ended := if body.isEmpty || body.getLast? == some Bytes.newline then body else body ++ [Bytes.newline]
  Utf8.encode " \x7b\n" ++ ended ++ Utf8.encode "\x7d"

/-- The edits that put the bodies of declared modules in place, for declarations of the unit `u`. -/
def bodies (w : Workspace) (directory : FilePath) (u : SourceUnit) (c : Context)
    (declarations : List (Except Fault Declaration)) : Loader (List Edit) :=
  declarations.mapM fun
    | .error fault => throw fault
    | .ok declaration => do
      let origin : Origin := ⟨some declaration.location, some u.text⟩
      let module := declaration.module
      let file ← w.fileSystem.moduleFile directory module c.file declaration.override origin
      match _entered : Context.enterFile { c with module := module } w.fileSystem file.val origin with
      | .error fault => throw fault
      | .ok inner =>
        let unit ← w.openUnit file.val module origin
        let edits ← w.bodies directory unit inner (unit.declarations module)
        let body ← Loader.ofTraced (.ofExcept (unit.splice edits))
        match declaration.semicolon with
        | none => throw .missingSemicolon
        | some semicolon =>
          Loader.note s!"inlined module {module} from {file.val}"
          return ⟨semicolon.start, semicolon.stop, braced body⟩
termination_by w.fileSystem.unentered c.chain
decreasing_by
  have fewer := Context.unentered_enterFile_lt file.property _entered
  exact fewer

/-- The unit of the crate root file alone. -/
def loadFile (w : Workspace) (file : FilePath) : Loader SourceUnit := w.openUnit file .crate {}

/-- The text of the crate with all module files in place. -/
def inlined (w : Workspace) (file : FilePath) (root : SourceUnit) : Loader Bytes := do
  let context ← Context.ofRoot w.fileSystem file
  let edits ← w.bodies file.parent root context (root.declarations .crate)
  Loader.ofTraced (.ofExcept (root.splice edits))

/-- The crate with the given root file as one unit. -/
def load (w : Workspace) (file : FilePath) : Loader SourceUnit := do
  let root ← w.loadFile file
  let bytes ← w.inlined file root
  if bytes == root.bytes then return root
  else
    let count := (← get).files.length
    Loader.ofTraced (.record .info .loading s!"Bundled {count} files into {file}")
    SourceUnit.parse w.grammar bytes file.text

end Workspace

end CrateFold
