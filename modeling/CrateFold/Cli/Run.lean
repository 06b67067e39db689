import CrateFold.Bundle
import CrateFold.Cli.Options

/-!
# The command line

A run of the program takes arguments, an environment and a workspace, and gives an exit code, what it
writes to the two output streams and the files afterwards. The bundle goes to the output file if one is
given and to standard output else; a run that fails writes to neither.
-/

namespace CrateFold.Cli

/-- What a run of the program leaves. -/
structure Outcome where
  exitCode : Nat
  stdout : String := ""
  stderr : String := ""
  /-- The files after the run. -/
  fileSystem : FileSystem

/-! ## Texts -/

/-- The usage lines. -/
def usage : String :=
  "usage: rsbundle [-h] [--bin] [--crate-dir CRATE_DIR] [--root ROOT] [--prune]\n" ++
  "                [-o OUTPUT] [-v]\n"

/-- The help text. -/
def helpText : String := usage ++ "\n" ++
  "Bundle a multi-file Rust crate into one source file.\n" ++
  "\n" ++
  "options:\n" ++
  "  -h, --help            show this help message and exit\n" ++
  "  --bin                 Bundle the binary root (src/main.rs) instead of\n" ++
  "                        src/lib.rs\n" ++
  "  --crate-dir CRATE_DIR\n" ++
  "                        Crate directory (default: current directory)\n" ++
  "  --root ROOT           Explicit crate root file (overrides --bin)\n" ++
  "  --prune               Drop modules unreachable from the crate root\n" ++
  "  -o OUTPUT, --output OUTPUT\n" ++
  "                        Write the bundle here instead of stdout\n" ++
  "  -v, --verbose         Debug logging on stderr\n"

/-- A line on standard error that names the program. -/
def errorLine (message : String) : String := s!"rsbundle: error: {message}\n"

/-! ## The log on standard error -/

/-- The capital of a letter, for the letters whose capital is one of A to Z. -/
def capital (c : Char) : Char :=
  if c == 'ı' then 'I' else if c == 'ſ' then 'S' else c.toUpper

/-- The least rank that a level name shows. -/
def rankOf? (name : String) : Option Nat :=
  match String.ofList (name.toList.map capital) with
  | "CRITICAL" | "FATAL" => some 50
  | "ERROR" => some 40
  | "WARN" | "WARNING" => some 30
  | "INFO" => some 20
  | "DEBUG" => some 10
  | "NOTSET" => some 0
  | _ => none

/-- The least rank shown: all records if asked for, else as `RSBUNDLE_LOG` says, else warnings. -/
def threshold (options : Options) (env : Environment) : Nat :=
  if options.verbose then Level.debug.rank
  else ((env.lookup "RSBUNDLE_LOG").bind rankOf?).getD Level.warning.rank

/-- The records of a log that are shown, a line each. -/
def shown (least : Nat) (log : Log) : String :=
  String.join <| (log.filter fun record => least ≤ record.level.rank).map fun record =>
    s!"[{record.level.text} {record.component.text}] {record.message}\n"

/-! ## Running -/

/-- The crate directory that the options choose: the working directory unless they name one. -/
def crateDirectory (options : Options) : Except Fault FilePath :=
  match options.crateDir with
  | .named directory => .ok directory
  | .absent => .ok {}
  | .unnamed => .error .unnamedDirectory

/-- The crate root file that the options choose. -/
def rootFile (options : Options) : Except Fault FilePath :=
  match options.root with
  | .named file => .ok file
  | .absent => (crateDirectory options).map
      (·.join ⟨0, ["src", if options.bin then "main.rs" else "lib.rs"]⟩)
  | .unnamed => .error .unnamedRoot

/-- Writes the text of a bundle where the options say; `log` is what standard error shows before. -/
def deliver (options : Options) (fs : FileSystem) (log text : String) : Except Fault Outcome :=
  match options.output with
  | .absent => .ok { exitCode := 0, stdout := text, stderr := log, fileSystem := fs }
  | .unnamed => .error .unnamedOutput
  | .named file =>
    if file.hasNul then .error .nulInPath
    else match fs.write file (Utf8.encode text) with
      | .ok written => .ok { exitCode := 0, stderr := log, fileSystem := written }
      | .error error =>
        let reason := s!"[Errno {error.number}] {error.text}: {Text.quote file.text}"
        .ok { exitCode := 1, stderr := log ++ errorLine s!"could not write {file}: {reason}", fileSystem := fs }

/-- Runs the program with the given options. -/
def execute (options : Options) (env : Environment) (w : Workspace) : Traced Outcome := do
  let file ← rootFile options
  if !w.fileSystem.isFile file then
    return {
      exitCode := 1
      stderr := errorLine s!"crate root not found: {file}"
      fileSystem := w.fileSystem }
  else
    let run := w.bundle file.text options.prune
    let log := shown (threshold options env) run.log
    let result ← run
    match result.error with
    | some error => return {
        exitCode := 1
        stderr := log ++ error.render (wantsColour env) ++ "\n"
        fileSystem := w.fileSystem }
    | none => deliver options w.fileSystem log result.text

/-- Runs the program with its options read as a convention has it. -/
def runUnder (convention : Convention) (arguments : List String) (env : Environment) (w : Workspace) : Traced Outcome :=
  match Options.parse convention arguments with
  | .ok options => execute options env w
  | .error .help => return { exitCode := 0, stdout := helpText, fileSystem := w.fileSystem }
  | .error (.misuse message) =>
    return { exitCode := 2, stderr := usage ++ errorLine message, fileSystem := w.fileSystem }

/-- Runs the program. -/
def run (arguments : List String) (env : Environment) (w : Workspace) : Traced Outcome :=
  runUnder .lettered arguments env w

end CrateFold.Cli
