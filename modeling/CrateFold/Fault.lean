import CrateFold.BundleError
import CrateFold.ModulePath.Basic
import CrateFold.Text.Quoted
import CrateFold.Text.Utf8

/-!
# Faults

A fault ends a computation. Apart from errors of the bundling run itself, which are reported to the
user, there are faults of the data given to a single operation: texts that are no path, edits that
overlap, scope items and tree nodes of unexpected shape, modules that are not in the map, paths that are
not kept for what is asked of them, options that name no path.
-/

namespace CrateFold

/-- The reasons for which a computation ends without a result. -/
inductive Fault where
  | bundle (error : BundleError)
  /-- A segment of a module path is no name. -/
  | invalidSegment (segment path : String)
  /-- An edit starts before the end of an earlier one. -/
  | overlappingEdit (start : Nat) (file : FilePath)
  | noCrateRoot
  /-- A module path that has to lie below the crate root does not. -/
  | notBelowCrate (path : ModulePath)
  | nulInPath
  /-- The top of a scope tree is no file but an item of the named kind. -/
  | notAFile (kind : String)
  /-- A scope item of the named kind stands where none may stand. -/
  | unknownItem (kind : String)
  /-- A module is not in the module map. -/
  | unmapped (path : ModulePath)
  | emptyPath
  | missingName
  | missingTarget
  /-- A node owns a generic scope without being a function, a trait or an `impl` block. -/
  | unknownOwner
  | missingSemicolon
  /-- A path that is kept as a key is to be pushed. -/
  | pushedKey
  /-- A path that is kept as a key is to be popped. -/
  | poppedKey
  /-- A path that follows a walk is to serve as a key. -/
  | trailAsKey
  | unnamedRoot
  | unnamedDirectory
  | unnamedOutput
  | undecodable (run : Utf8.Invalid)
deriving DecidableEq, Repr

/-- The message of a fault. -/
def Fault.message : Fault → String
  | .bundle error => error.message
  | .invalidSegment segment path =>
    s!"invalid segment {Text.quote segment} in module path {Text.quote path}"
  | .overlappingEdit start file => s!"overlapping edit at byte {start} in {file}"
  | .noCrateRoot => "module map has no `crate` root"
  | .notBelowCrate path => s!"expected a crate-rooted module path, got `{path}`"
  | .nulInPath => "embedded null byte"
  | .notAFile kind => s!"expected FileScope at the top of the scope tree, got {kind}"
  | .unknownItem kind => s!"unknown scope item: {kind}"
  | .unmapped path => s!"no module `{path}` in the map"
  | .emptyPath => "a path without segments names nothing"
  | .missingName => "a node lacks its name"
  | .missingTarget => "a renaming import lacks its path"
  | .unknownOwner => "a node owns a generic scope without being a function, trait or impl block"
  | .missingSemicolon => "a module declaration lacks its semicolon"
  | .pushedKey => "a path that is a key cannot be pushed"
  | .poppedKey => "a path that is a key cannot be popped"
  | .trailAsKey => "a path that follows a walk is no key"
  | .unnamedRoot => "the option for the crate root file names no file"
  | .unnamedDirectory => "the option for the crate directory names no directory"
  | .unnamedOutput => "the option for the output file names no file"
  | .undecodable run => s!"invalid UTF-8 at byte {run.start} of a node"

end CrateFold
