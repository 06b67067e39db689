import CrateFold.Fault
import CrateFold.Text.Blank
import CrateFold.Text.Split
import CrateFold.Text.Word

/-!
# Reading module paths

The text of a path is its segments with `::` between them, with white space allowed around the whole
and around each segment. A segment is a name, a raw name `r#x`, a variable `$x` of a pattern or the
glob `*`. A leading `::` is refused as unsupported; text of white space only is the empty path.
-/

namespace CrateFold

namespace ModulePath

/-- Whether a text is a segment. -/
def isSegment : List Char → Bool
  | ['*'] => true
  | '$' :: name => Text.isName name
  | 'r' :: '#' :: name => Text.isName name
  | name => Text.isName name

/-- The error for a path with a leading `::`. -/
def leadingSeparator (text : String) : BundleError where
  problem := .unsupported
  message := s!"fully qualified path `{text}` is not supported"

/-- Reads a path. -/
def parse (s : String) : Except Fault ModulePath :=
  let trimmed := Text.trim s.toList
  let pieces := (Text.splitAtColons trimmed).map Text.trim
  if trimmed.isEmpty then .ok empty
  else if [':', ':'].isPrefixOf trimmed then .error (.bundle (leadingSeparator (String.ofList trimmed)))
  else match pieces.find? (!isSegment ·) with
    | some piece => .error (.invalidSegment (String.ofList piece) (String.ofList trimmed))
    | none => .ok ⟨pieces.map String.ofList⟩

/-- Reads the path made of the given texts with `::` between them. -/
def ofSegments (segments : List String) : Except Fault ModulePath := parse ("::".intercalate segments)

/-- Reads a path and joins it to `p`. -/
def joinText (p : ModulePath) (s : String) : Except Fault ModulePath := do
  return p.join (← parse s)

/-- Whether every segment of a path is one that reading could have given. -/
def IsValid (p : ModulePath) : Prop := ∀ segment ∈ p.segments, isSegment segment.toList = true

end ModulePath

end CrateFold
