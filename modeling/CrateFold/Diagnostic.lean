import CrateFold.Location
import CrateFold.Text.Blank
import CrateFold.Text.Split

/-!
# Diagnostics

A diagnostic is a message with, as far as they are known, its place in the sources, a code, a label
for the place and two remarks. `Diagnostic.layout` arranges it in lines of styled fragments:
a headline, the place, the source line with carets under it, the remarks. `Diagnostic.render`
prints the layout, with or without colour.
-/

namespace CrateFold

/-! ## Styles -/

/-- What a fragment of a diagnostic is, which decides its colour. -/
inductive Style where
  | plain
  /-- The word that opens the headline, and the carets. -/
  | alarm
  | strong
  /-- The margin left of the source line. -/
  | margin
  /-- The margin left of a remark. -/
  | remark
deriving DecidableEq, Repr

/-- The escape codes that switch a style on. -/
def Style.codes : Style → String
  | .plain => ""
  | .alarm => "\x1b[1m\x1b[31m"
  | .strong => "\x1b[1m"
  | .margin => "\x1b[1m\x1b[34m"
  | .remark => "\x1b[1m\x1b[36m"

/-- The escape code that switches every style off. -/
def Style.reset : String := "\x1b[0m"

/-- A stretch of text of one style. -/
structure Fragment where
  style : Style
  text : String
deriving DecidableEq, Repr

/-- The text of a fragment, between escape codes if colour is wanted. -/
def Fragment.paint (colour : Bool) (f : Fragment) : String :=
  if colour && f.style != .plain then f.style.codes ++ f.text ++ Style.reset else f.text

/-! ## Layout -/

/-- A message about a place in the sources. -/
structure Diagnostic where
  message : String
  location : Option Location := none
  code : Option String := none
  help : Option String := none
  note : Option String := none
  /-- What the carets point at. -/
  label : Option String := none
deriving DecidableEq, Repr

/-- Source texts by the name of their file. -/
abbrev SourceTexts := List (String × String)

namespace Diagnostic

/-- An optional text that is there and not empty. -/
def present : Option String → Option String
  | some "" => none
  | text => text

/-- The first line: `error`, the code in brackets, and the message. -/
def headline (d : Diagnostic) : List Fragment :=
  let code := match present d.code with
    | some code => s!"[{code}]"
    | none => ""
  [⟨.alarm, "error" ++ code⟩, ⟨.strong, ": " ++ d.message⟩]

/-- One remark, under a margin of the given width. -/
def remark (width : Nat) (title : String) : Option String → List (List Fragment)
  | none => []
  | some text =>
    [[⟨.remark, Text.repeated (width + 1) ' ' ++ "= "⟩, ⟨.strong, title ++ ": "⟩, ⟨.plain, text⟩]]

/-- The remarks, after an empty margin; nothing if there are none. -/
def remarks (d : Diagnostic) (width : Nat) : List (List Fragment) :=
  let lines := remark width "help" (present d.help) ++ remark width "note" (present d.note)
  if lines.isEmpty then [] else [⟨.margin, Text.repeated (width + 1) ' ' ++ "|"⟩] :: lines

/-- The width of the margin: that of the line number. -/
def marginWidth (l : Location) : Nat := (toString l.line).length

/-- The number of characters left of the carets. -/
def indent (l : Location) : Nat := (max l.column 1 - 1).toNat

/-- The number of carets: the length of a stretch that ends on its own line after its start, else
all that is left of the line without the white space at its end, and never less than one. -/
def caretCount (l : Location) (sourceLine : String) : Nat :=
  let length : Int :=
    if l.endLine == l.line && l.column < l.endColumn then l.endColumn - l.column
    else (Text.trimEnd sourceLine.toList).length - (indent l : Int)
  max 1 length.toNat

/-- The carets under a source line. -/
def carets (l : Location) (sourceLine : String) : String :=
  Text.repeated (indent l) ' ' ++ Text.repeated (caretCount l sourceLine) '^'

/-- The line of a text that a location is on. -/
def sourceLine? (l : Location) (source : String) : Option String :=
  if 0 < l.line then (Text.lines source)[(l.line - 1).toNat]? else none

/-- The source line between margins, with the carets and the label under it. -/
def excerpt (d : Diagnostic) (l : Location) (sourceLine : String) : List (List Fragment) :=
  let width := marginWidth l
  let label := match present d.label with
    | some label => " " ++ label
    | none => ""
  [[⟨.margin, Text.repeated (width + 1) ' ' ++ "|"⟩],
   [⟨.margin, toString l.line ++ " | "⟩, ⟨.plain, sourceLine⟩],
   [⟨.margin, Text.repeated (width + 1) ' ' ++ "| "⟩, ⟨.alarm, carets l sourceLine ++ label⟩]]

/-- The lines of a diagnostic. -/
def layout (d : Diagnostic) (sources : SourceTexts) : List (List Fragment) :=
  match d.location with
  | none => d.headline :: d.remarks 1
  | some l =>
    let place := [⟨.margin, Text.repeated (marginWidth l) ' ' ++ "--> "⟩, ⟨.plain, l.text⟩]
    let shown := match (sources.lookup l.file).bind (sourceLine? l) with
      | some sourceLine => d.excerpt l sourceLine
      | none => []
    d.headline :: place :: shown ++ d.remarks (marginWidth l)

/-- The text of a diagnostic. -/
def render (d : Diagnostic) (sources : SourceTexts) (colour : Bool) : String :=
  "\n".intercalate ((d.layout sources).map fun line => String.join (line.map (Fragment.paint colour)))

end Diagnostic

/-! ## Choice of colour -/

/-- The variables of the environment. -/
abbrev Environment := List (String × String)

/-- The words that turn colour off. -/
def noColourWords : List String := ["0", "false", "no", "never"]

/-- Colour is wanted unless `NO_COLOR` is set to something or `RSBUNDLE_COLOR` is a word for no. -/
def wantsColour (env : Environment) : Bool :=
  if (Diagnostic.present (env.lookup "NO_COLOR")).isSome then false
  else !noColourWords.contains ((env.lookup "RSBUNDLE_COLOR").getD "").toLower

end CrateFold
