import CrateFold.Tree.SourceUnit

/-!
# Listed trees

The trees that a parser has made can be kept as text. A listing holds for each source a line `source`
with the hexadecimal digits of its bytes, and then its nodes, one a line, parents first: the depth, the
kind, the marks `n` (named), `m` (missing), `b` (broken) and `f` (flawed) or `-` for none of them, the
two offsets and, if there is one, the field. `Listing.grammar` is the grammar that knows these trees.
-/

namespace CrateFold

/-- Trees by the bytes of their sources. -/
abbrev Listing := List (Bytes × Node)

namespace Listing

/-- The value of a hexadecimal digit. -/
def hexValue? (c : Char) : Option Nat :=
  if c.isDigit then some (c.toNat - 48)
  else if 'a' ≤ c && c ≤ 'f' then some (c.toNat - 87)
  else none

/-- The bytes that hexadecimal digits stand for, two digits each. -/
def bytesOfHex? : List Char → Option Bytes
  | [] => some []
  | [_] => none
  | a :: b :: rest => do
    let high ← hexValue? a
    let low ← hexValue? b
    return UInt8.ofNat (high * 16 + low) :: (← bytesOfHex? rest)

/-- What a line of a listing says. -/
inductive Line where
  /-- The nodes of this source follow. -/
  | source (bytes : Bytes)
  | node (depth : Nat) (tag : Tag)

/-- The tag with the given marks. -/
def marked (kind marks : String) (start stop : Nat) (field : Option String) : Tag where
  kind := kind
  named := marks.toList.contains 'n'
  missing := marks.toList.contains 'm'
  broken := marks.toList.contains 'b'
  flawed := marks.toList.contains 'f'
  start := start
  stop := stop
  field := field

/-- Reads the words of a line. -/
def lineOfWords? : List String → Option Line
  | ["source"] => some (.source [])
  | ["source", digits] => (bytesOfHex? digits.toList).map .source
  | depth :: kind :: marks :: start :: stop :: field => do
    return .node (← depth.toNat?) (marked kind marks (← start.toNat?) (← stop.toNat?) field.head?)
  | _ => none

/-- Reads a line. -/
def line? (s : String) : Option Line :=
  lineOfWords? (((Text.splitAtChar ' ' s.toList).filter (!·.isEmpty)).map String.ofList)

/-- The nodes that follow a line, with their depths, and the trees after them. -/
structure Pending where
  /-- The nodes whose parents stand further up. -/
  nodes : List (Nat × Node) := []
  /-- The trees that are complete. -/
  trees : Listing := []

/-- Takes in the line before those already read: a node becomes the parent of the deeper ones. -/
def Pending.add (p : Pending) : Line → Pending
  | .node depth tag =>
    let node : Node := ⟨tag, (p.nodes.takeWhile (depth < ·.1)).map Prod.snd⟩
    { p with nodes := (depth, node) :: p.nodes.dropWhile (depth < ·.1) }
  | .source bytes =>
    match p.nodes with
    | (_, root) :: _ => { nodes := [], trees := (bytes, root) :: p.trees }
    | [] => p

/-- Reads a listing; lines that say nothing are passed over. -/
def ofText (s : String) : Listing :=
  (((Text.lines s).filterMap line?).foldr (fun line (p : Pending) => p.add line) {}).trees

/-- The tree of a source that is not listed: all of it is unreadable. -/
def unlisted (bytes : Bytes) : Node where
  kind := "ERROR"
  named := true
  broken := true
  flawed := true
  stop := bytes.length

/-- The grammar that knows the trees of a listing. -/
def grammar (l : Listing) : Grammar := fun bytes => (l.lookup bytes).getD (unlisted bytes)

end Listing

end CrateFold
