import CrateFold.Cli.Run
import CrateFold.Tree.Listing

/-!
# The program

Runs the command line on the files below the working directory. The trees of the sources are read from
the listing in the file that `RSBUNDLE_TREES` names.
-/

namespace CrateFold.Program

/-- The names of the environment variables that the program looks at. -/
def variableNames : List String := ["NO_COLOR", "RSBUNDLE_COLOR", "RSBUNDLE_LOG"]

/-- The values of those of the variables that are set. -/
def environment : IO Environment :=
  variableNames.filterMapM fun name => return (← IO.getEnv name).map (name, ·)

/-- The bytes of a file, if it can be read. -/
def contents? (path : String) : IO (Option Bytes) := do
  try
    return some (← IO.FS.readBinFile path).toList
  catch _ => return none

/-- The files and directories below a directory, by their paths from the working directory, and the files among them
that cannot be read. -/
partial def listing (directory : String) : IO (List (FilePath × Option Bytes) × List FilePath) := do
  let mut found := [(FilePath.ofString directory, none)]
  let mut unread := []
  for entry in ← (← IO.FS.realPath directory).readDir do
    let path := s!"{directory}/{entry.fileName}"
    if ← entry.path.isDir then
      let (more, others) ← listing path
      found := found ++ more
      unread := unread ++ others
    else
      let bytes ← contents? path
      found := found ++ [(FilePath.ofString path, some (bytes.getD []))]
      if bytes.isNone then unread := unread ++ [FilePath.ofString path]
  return (found, unread)

/-- The file system below the working directory. -/
def fileSystem : IO FileSystem := do
  let working := (FilePath.ofString (← IO.currentDir).toString).parts
  let (found, unread) ← listing "."
  return { FileSystem.ofListing working found with locked := unread.map (·.resolvedParts working) }

/-- The listed trees. -/
def trees : IO Listing := do
  match ← IO.getEnv "RSBUNDLE_TREES" with
  | some file => return .ofText (← IO.FS.readFile file)
  | none => return []

/-- Writes the files that a run has changed. -/
def writeChanges (before after : FileSystem) : IO Unit := do
  for (parts, contents) in after.files do
    if before.contents? parts != some contents then
      IO.FS.writeBinFile (FilePath.mk 1 parts).text (ByteArray.mk contents.toArray)

end CrateFold.Program

/-- Runs the command line. -/
def main (arguments : List String) : IO UInt32 := do
  let files ← CrateFold.Program.fileSystem
  let workspace : CrateFold.Workspace := ⟨files, (← CrateFold.Program.trees).grammar⟩
  match (CrateFold.Cli.run arguments (← CrateFold.Program.environment) workspace).outcome with
  | .ok outcome =>
    CrateFold.Program.writeChanges files outcome.fileSystem
    IO.print outcome.stdout
    IO.eprint outcome.stderr
    return UInt32.ofNat outcome.exitCode
  | .error fault =>
    IO.eprintln fault.message
    return 1
