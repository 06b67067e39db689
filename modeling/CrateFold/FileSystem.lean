import CrateFold.Bytes
import CrateFold.FilePath

/-!
# File systems

A file system is a finite collection of files and directories, each known by its parts from the root
directory. A path is walked part by part from the working directory or the root: every part but the
last has to be a directory, and `..` goes up. A path that walks to a file also resolves to it
(`walk_file`), so the resolved path identifies the file. A file that is there may be locked: it is found
but can be neither read nor written.
-/

namespace CrateFold

/-- Why a path cannot be used. -/
inductive PathError where
  | notFound
  /-- A file stands where a directory is needed. -/
  | notDirectory
  /-- A directory stands where a file is needed. -/
  | isDirectory
  /-- A file is locked. -/
  | denied
deriving DecidableEq, Repr

/-- The description of a path error. -/
def PathError.text : PathError → String
  | .notFound => "No such file or directory"
  | .notDirectory => "Not a directory"
  | .isDirectory => "Is a directory"
  | .denied => "Permission denied"

/-- The number of a path error. -/
def PathError.number : PathError → Nat
  | .notFound => 2
  | .notDirectory => 20
  | .isDirectory => 21
  | .denied => 13

/-- A finite file system. -/
structure FileSystem where
  /-- The parts of the directory that relative paths start from. -/
  workingDirectory : List String := []
  /-- The files, by their parts from the root directory. -/
  files : List (List String × Bytes) := []
  /-- The directories apart from the root directory. -/
  directories : List (List String) := []
  /-- The files that may be neither read nor written, nor made if they are not there. -/
  locked : List (List String) := []

/-- What a path leads to. -/
inductive Entry where
  | file (contents : Bytes)
  | directory
deriving DecidableEq, Repr

namespace FileSystem

/-- The contents of the file with the given parts. -/
def contents? (fs : FileSystem) (parts : List String) : Option Bytes := fs.files.lookup parts

/-- Whether the given parts are those of a directory. -/
def isDirectory (fs : FileSystem) (parts : List String) : Bool :=
  parts.isEmpty || fs.directories.contains parts

/-- Walks down from a directory: the parts of what is found, and what it is. -/
def walk (fs : FileSystem) : List String → List String → Except PathError (List String × Entry)
  | here, [] => .ok (here, .directory)
  | here, part :: rest =>
    if part == ".." then fs.walk here.dropLast rest
    else match fs.contents? (here ++ [part]) with
      | some contents => if rest.isEmpty then .ok (here ++ [part], .file contents) else .error .notDirectory
      | none =>
        if fs.isDirectory (here ++ [part]) then fs.walk (here ++ [part]) rest else .error .notFound

/-- What a path leads to. -/
def find (fs : FileSystem) (path : FilePath) : Except PathError (List String × Entry) :=
  fs.walk (path.origin fs.workingDirectory) path.parts

/-- Whether a path leads to a file. -/
def isFile (fs : FileSystem) (path : FilePath) : Bool :=
  match fs.find path with
  | .ok (_, .file _) => true
  | _ => false

/-- The contents of the file that a path leads to, unless it is locked. -/
def read (fs : FileSystem) (path : FilePath) : Except PathError Bytes :=
  match fs.find path with
  | .ok (parts, .file contents) => if fs.locked.contains parts then .error .denied else .ok contents
  | .ok (_, .directory) => .error .isDirectory
  | .error error => .error error

/-- Replaces the contents of a file in a list of files, or appends it. -/
def putFile (parts : List String) (contents : Bytes) :
    List (List String × Bytes) → List (List String × Bytes)
  | [] => [(parts, contents)]
  | file :: rest => if file.1 = parts then (parts, contents) :: rest else file :: putFile parts contents rest

/-- The file system after writing the file with the given parts, unless it is locked. -/
def overwrite (fs : FileSystem) (parts : List String) (contents : Bytes) : Except PathError FileSystem :=
  if fs.locked.contains parts then .error .denied
  else .ok { fs with files := putFile parts contents fs.files }

/-- The file system after writing a file. -/
def write (fs : FileSystem) (path : FilePath) (contents : Bytes) : Except PathError FileSystem :=
  match fs.find path with
  | .ok (parts, .file _) => fs.overwrite parts contents
  | .ok (_, .directory) => .error .isDirectory
  | .error .notFound =>
    match fs.find path.parent with
    | .ok (parts, .directory) => fs.overwrite (parts ++ [path.name]) contents
    | .ok (_, .file _) => .error .notDirectory
    | .error error => .error error
  | .error error => .error error

/-- All parts lists on the way to the given one, itself included. -/
def leadingParts (parts : List String) : List (List String) :=
  (List.range parts.length).map fun n => parts.take (n + 1)

/-- The file system that holds the given files and empty directories, by their paths from the working
directory, and the directories that they need. -/
def ofListing (working : List String) (listing : List (FilePath × Option Bytes)) : FileSystem where
  workingDirectory := working
  files := listing.filterMap fun (path, contents) => contents.map fun c => (path.resolvedParts working, c)
  directories := leadingParts working ++ listing.flatMap fun (path, contents) =>
    let parts := path.resolvedParts working
    leadingParts (if contents.isSome then parts.dropLast else parts)

/-! ## Walking and resolving agree -/

/-- A walk that ends at a file ends where the parts resolve to, and the file is there. -/
theorem walk_file {fs : FileSystem} {here parts found : List String} {contents : Bytes}
    (walked : fs.walk here parts = .ok (found, .file contents)) :
    found = FilePath.descend here parts ∧ fs.contents? found = some contents := by
  induction parts generalizing here with
  | nil => simp [walk] at walked
  | cons part rest ih =>
    rw [walk] at walked
    split at walked
    · next isUp =>
      have up : part = ".." := by simpa using isUp
      have := ih walked
      simpa [FilePath.descend, up] using this
    · next isDown =>
      have down : part ≠ ".." := by simpa using isDown
      split at walked
      · next inner file =>
        split at walked
        · next last =>
          simp only [Except.ok.injEq, Prod.mk.injEq, Entry.file.injEq] at walked
          obtain ⟨rfl, rfl⟩ := walked
          have : rest = [] := by simpa using last
          subst this
          exact ⟨by simp [FilePath.descend, down], file⟩
        · cases walked
      · split at walked
        · have := ih walked
          simpa [FilePath.descend, down] using this
        · cases walked

/-- A path that leads to a file resolves to the parts of a file. -/
theorem contents?_isSome_of_isFile {fs : FileSystem} {path : FilePath} (file : fs.isFile path = true) :
    (fs.contents? (path.resolvedParts fs.workingDirectory)).isSome = true := by
  unfold isFile at file
  split at file
  · next parts contents found =>
    obtain ⟨same, there⟩ := walk_file found
    unfold FilePath.resolvedParts
    rw [← same, there]
    rfl
  · cases file

end FileSystem

end CrateFold
