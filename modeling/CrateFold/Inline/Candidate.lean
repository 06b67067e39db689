import CrateFold.FileSystem
import CrateFold.Trace

/-!
# Files of modules

The body of the module `crate::a::b` is in `a/b.rs` or else in `a/b/mod.rs`, seen from the directory of
the crate root file. A `path` attribute names another file instead, seen from the directory of the file
that declares the module; there is no second choice then.
-/

namespace CrateFold

/-- A segment as a file name: a raw name without its `r#`. -/
def fileName (segment : String) : String :=
  match segment.toList with
  | 'r' :: '#' :: rest => String.ofList rest
  | _ => segment

/-- The conventional files of a module below a source directory, in the order tried. -/
def ModulePath.candidates (module : ModulePath) (directory : FilePath) : Except Fault (List FilePath) :=
  if !module.isCratePath || module.length < 2 then .error (.notBelowCrate module)
  else
    let path : FilePath := ⟨directory.slashes, directory.parts ++ module.suffix.segments.map fileName⟩
    .ok [path.parent.join ⟨0, [path.name ++ ".rs"]⟩, path.join ⟨0, ["mod.rs"]⟩]

/-- The file that a `path` attribute names in a declaring file. -/
def overrideCandidate (declaring : FilePath) (value : String) : FilePath :=
  declaring.parent.join (FilePath.ofString value)

/-- A declaration to which errors refer. -/
structure Origin where
  location : Option Location := none
  /-- The text of the file that it is in. -/
  source : Option String := none

namespace FileSystem

/-- The name of a module in messages. -/
def moduleName (module : ModulePath) : String := module.last?.getD "None"

/-- The error for a module without a file. -/
def noFile (module : ModulePath) (searched : List FilePath) (help : String) (origin : Origin) : BundleError :=
  .missingFile s!"file not found for module `{moduleName module}`" (some module.text) searched
    origin.location origin.source (some help)

/-- The first of the candidates that is a file. -/
def firstFile? (fs : FileSystem) : List FilePath → Option { file : FilePath // fs.isFile file = true }
  | [] => none
  | file :: rest => if there : fs.isFile file = true then some ⟨file, there⟩ else fs.firstFile? rest

/-- The file of a module that the file `declaring` declares, with the value of its `path` attribute. -/
def moduleFile (fs : FileSystem) (directory : FilePath) (module : ModulePath) (declaring : FilePath)
    (override : Option String) (origin : Origin) : Traced { file : FilePath // fs.isFile file = true } :=
  match override with
  | some value =>
    let candidate := overrideCandidate declaring value
    if [':', ':'].isPrefixOf value.toList then
      .fail (.bundle {
        problem := .unsupported
        message := s!"fully qualified module path override `{value}` is not supported"
        location := origin.location
        source := origin.source })
    else if there : fs.isFile candidate = true then do
      .record .debug .moduleFiles s!"PathResolver: {module} -> {candidate} (#[path])"
      return ⟨candidate, there⟩
    else
      .fail (.bundle (noFile module [candidate] s!"the `#[path]` attribute points at `{candidate}`" origin))
  | none => do
    let candidates ← module.candidates directory
    match fs.firstFile? candidates with
    | some file =>
      .record .debug .moduleFiles s!"PathResolver: {module} -> {file.val}"
      return file
    | none =>
      let choices := " or ".intercalate (candidates.map fun file => s!"`{file}`")
      let help := s!"to create the module `{moduleName module}`, create file {choices}"
      .fail (.bundle (noFile module candidates help origin))

end FileSystem

end CrateFold
