import CrateFold.Tree.Node
import CrateFold.Trace

/-!
# Source units

A source unit is one source file read: its path, its bytes and the syntax tree over them. The
grammar itself is a parameter, a function from bytes to a tree. `SourceUnit.parse` accepts bytes that
are UTF-8 and whose tree has no flaw; anything else is reported at its first fault.
-/

namespace CrateFold

/-- What reads the bytes of a source as a tree. -/
abbrev Grammar := Bytes → Node

/-- A source file that has been read. -/
structure SourceUnit where
  path : FilePath
  bytes : Bytes
  /-- The tree over its contents. -/
  root : Node

/-- The location of a stretch of bytes. -/
def Bytes.location (l : Bytes) (file : String) (start stop : Nat) : Location where
  file := file
  line := l.row start + 1
  column := l.column start + 1
  start := start
  stop := stop
  endLine := l.row stop + 1
  endColumn := l.column stop + 1

namespace SourceUnit

/-- The text of a unit. -/
def text (u : SourceUnit) : String := Utf8.decodeLossy u.bytes

/-- The text of a node. -/
def textOf (u : SourceUnit) (t : Tag) : Except Fault String :=
  (Utf8.decode (u.bytes.slice t.start t.stop)).mapError .undecodable

/-- The text of a node that has to be there. -/
def nameOf (u : SourceUnit) : Option Node → Except Fault String
  | some n => u.textOf n.toTag
  | none => .error .missingName

/-- The location of a node. -/
def locate (u : SourceUnit) (t : Tag) : Location := u.bytes.location u.path.text t.start t.stop

/-! ## Reading -/

/-- The error for a source that is no UTF-8 text. -/
def notUtf8 (bytes : Bytes) (file : String) (run : Utf8.Invalid) : BundleError where
  problem := .malformed file
  message := s!"{file}: stream did not contain valid UTF-8"
  location := some
    { bytes.location file run.start run.start with
      stop := run.stop
      endColumn := bytes.column run.start + 1 + (run.stop - run.start) }
  source := some (Utf8.decodeLossy bytes)
  label := some "invalid UTF-8"

/-- What the error for a flawed tree calls the flaw. -/
def describeFlaw (u : SourceUnit) (flaw : Tag) : Except Fault String :=
  if flaw.missing then .ok s!"missing `{flaw.kind}`"
  else do
    let text := Text.takeChars 40 (← u.textOf flaw)
    return s!"unexpected `{text}`"

/-- The error for a flawed tree. -/
def malformed (u : SourceUnit) (file : String) (flaw : Tag) (description : String) : BundleError where
  problem := .malformed file
  message := s!"{description} while parsing {file}"
  location := some (u.locate flaw)
  source := some u.text
  label := some "syntax error"

/-- Refuses a tree that has a flaw. -/
def checkTree (u : SourceUnit) (file : String) : Except Fault Unit :=
  if u.root.flawed then do
    let flaw := (u.root.firstFlaw?.getD u.root).toTag
    throw (.bundle (u.malformed file flaw (← u.describeFlaw flaw)))
  else
    return ()

/-- Reads a source; `file` is the path as messages write it. -/
def parse (grammar : Grammar) (bytes : Bytes) (file : String) : Traced SourceUnit := do
  match Utf8.invalid? bytes with
  | some run => .fail (.bundle (notUtf8 bytes file run))
  | none =>
    let unit : SourceUnit := ⟨FilePath.ofString file, bytes, grammar bytes⟩
    unit.checkTree file
    .record .debug .reading s!"Parsed {file}: {bytes.length} bytes"
    return unit

end SourceUnit

end CrateFold
