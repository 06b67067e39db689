import CrateFold.Bytes

/-!
# UTF-8

`encode` writes characters as bytes. `pieces` reads any byte string as a sequence of characters and
invalid runs: an invalid run is a byte that starts no character, or the longest beginning of a
character that is then broken off. From the pieces come the strict reading (`decode`), which reports
the first invalid run, and the forgiving one (`decodeLossy`), which shows each invalid run as one
replacement character.
-/

namespace CrateFold.Utf8

/-- The bytes of a text. -/
def encode (s : String) : Bytes := s.toList.flatMap String.utf8EncodeChar

/-- Why a run of bytes is no character. -/
inductive Reason where
  /-- The byte starts no character. -/
  | start
  /-- A byte that cannot continue the character follows. -/
  | continuation
  /-- The text ends inside the character. -/
  | truncated
deriving DecidableEq, Repr

/-- What the bytes of a text are read as. -/
inductive Piece where
  /-- A character of so many bytes. -/
  | char (c : Char) (width : Nat)
  /-- So many bytes that are no character. -/
  | invalid (width : Nat) (reason : Reason)
deriving DecidableEq, Repr

/-- The number of bytes of a piece. -/
def Piece.width : Piece → Nat
  | .char _ width => width
  | .invalid width _ => width

/-- The character that stands for a piece; U+FFFD for an invalid run. -/
def Piece.shown : Piece → Char
  | .char c _ => c
  | .invalid _ _ => '\uFFFD'

/-- Whether a piece is a character. -/
def Piece.valid : Piece → Bool
  | .char _ _ => true
  | .invalid _ _ => false

/-- A character whose last bytes are still to come. -/
structure Opened where
  /-- The number of bytes to come. -/
  owed : Nat
  low : UInt8
  high : UInt8
  /-- The bits read so far. -/
  value : Nat
  taken : Nat
deriving DecidableEq, Repr

/-- Reads the first byte of a piece: a piece that is complete, or a character to be continued. -/
def first (b : UInt8) : List Piece × Option Opened :=
  if b < 0x80 then ([.char (Char.ofNat b.toNat) 1], none)
  else if b < 0xC2 then ([.invalid 1 .start], none)
  else if b < 0xE0 then ([], some ⟨1, 0x80, 0xBF, b.toNat - 0xC0, 1⟩)
  else if b == 0xE0 then ([], some ⟨2, 0xA0, 0xBF, 0, 1⟩)
  else if b == 0xED then ([], some ⟨2, 0x80, 0x9F, 0xD, 1⟩)
  else if b < 0xF0 then ([], some ⟨2, 0x80, 0xBF, b.toNat - 0xE0, 1⟩)
  else if b == 0xF0 then ([], some ⟨3, 0x90, 0xBF, 0, 1⟩)
  else if b < 0xF4 then ([], some ⟨3, 0x80, 0xBF, b.toNat - 0xF0, 1⟩)
  else if b == 0xF4 then ([], some ⟨3, 0x80, 0x8F, 4, 1⟩)
  else ([.invalid 1 .start], none)

/-- Reads one byte: the pieces it completes and the character left open after it. -/
def step : Option Opened → UInt8 → List Piece × Option Opened
  | none, b => first b
  | some o, b =>
    if o.low ≤ b && b ≤ o.high then
      let value := o.value * 64 + (b.toNat - 0x80)
      if o.owed ≤ 1 then ([.char (Char.ofNat value) (o.taken + 1)], none)
      else ([], some ⟨o.owed - 1, 0x80, 0xBF, value, o.taken + 1⟩)
    else
      let (done, opened) := first b
      (.invalid o.taken .continuation :: done, opened)

/-- The pieces of a byte string that goes on after an opened character. -/
def piecesFrom : Option Opened → Bytes → List Piece
  | none, [] => []
  | some o, [] => [.invalid o.taken .truncated]
  | opened, b :: rest => (step opened b).1 ++ piecesFrom (step opened b).2 rest

/-- The pieces of a byte string. -/
def pieces (l : Bytes) : List Piece := piecesFrom none l

/-- The text of a byte string, each invalid run shown as one replacement character. -/
def decodeLossy (l : Bytes) : String := String.ofList ((pieces l).map Piece.shown)

/-- The first run of bytes that is no character. -/
structure Invalid where
  start : Nat
  stop : Nat
  /-- The first byte of the run. -/
  byte : UInt8
  reason : Reason
deriving DecidableEq, Repr

/-- The first invalid run among pieces that start at an offset. -/
def firstInvalid (l : Bytes) : Nat → List Piece → Option Invalid
  | _, [] => none
  | offset, .char _ width :: rest => firstInvalid l (offset + width) rest
  | offset, .invalid width reason :: _ => some ⟨offset, offset + width, l.getD offset 0, reason⟩

/-- The first invalid run of a byte string, if it is no UTF-8 text. -/
def invalid? (l : Bytes) : Option Invalid := firstInvalid l 0 (pieces l)

/-- The text of a byte string, or its first invalid run. -/
def decode (l : Bytes) : Except Invalid String :=
  match invalid? l with
  | none => .ok (decodeLossy l)
  | some run => .error run

end CrateFold.Utf8
