import CrateFold.Diagnostic
import CrateFold.FilePath

/-!
# Errors of a bundling run

A bundling run is aborted by a `BundleError`: what kind of problem it is, the message, and the place
it is about. Every error can be shown as a diagnostic.
-/

namespace CrateFold

/-- The kinds of problem that abort a bundling run. -/
inductive Problem where
  | general
  /-- The file of a module is missing or cannot be read. -/
  | missingFile (module : Option String) (searched : List FilePath)
  | malformed (file : String)
  /-- A construct that cannot be resolved, such as a path with a leading `::`. -/
  | unsupported
  /-- A module file includes itself through the given chain of files. -/
  | circular (chain : List FilePath)
deriving DecidableEq, Repr

/-- The code of a problem. -/
def Problem.code : Problem → Option String
  | .general => none
  | .missingFile _ _ => some "E0583"
  | .malformed _ => some "E0001"
  | .unsupported => some "E0433"
  | .circular _ => some "E0584"

/-- An error that aborts a bundling run. -/
structure BundleError where
  problem : Problem
  message : String
  location : Option Location := none
  /-- The text of the file that the location is in. -/
  source : Option String := none
  help : Option String := none
  note : Option String := none
  label : Option String := none
deriving DecidableEq, Repr

namespace BundleError

/-- The note that lists the files looked for; none if no file was. -/
def searchNote (searched : List FilePath) : Option String :=
  if searched.isEmpty then none else some ("searched: " ++ ", ".intercalate (searched.map FilePath.text))

/-- A missing file; the files looked for make the note. -/
def missingFile (message : String) (module : Option String) (searched : List FilePath)
    (location : Option Location) (source help : Option String) : BundleError where
  problem := .missingFile module searched
  message := message
  location := location
  source := source
  help := help
  note := searchNote searched

/-- An error as a diagnostic. -/
def diagnostic (e : BundleError) : Diagnostic where
  message := e.message
  location := e.location
  code := e.problem.code
  help := e.help
  note := e.note
  label := e.label

/-- The source text that belongs to the location of an error. -/
def sources (e : BundleError) : SourceTexts :=
  match e.location, e.source with
  | some l, some text => [(l.file, text)]
  | _, _ => []

/-- The text of an error with its source line. -/
def render (e : BundleError) (colour : Bool) : String := e.diagnostic.render e.sources colour

/-- The message, followed by the place if it is known. -/
def summary (e : BundleError) : String :=
  match e.location with
  | some l => s!"{e.message} ({l.text})"
  | none => e.message

end BundleError

end CrateFold
