import CrateFold.Proofs.SourceLines

/-!
Carets under a source line. Columns count bytes, while the line that is printed is text: the carets under a node begin as
many characters into the line as there are bytes before the node, and so stand under the node exactly if these bytes and those of
the node are ASCII (`carets_drawn`).
-/
namespace CrateFold

open Bytes (newline)
open Utf8 (Valid Boundary encode decodeLossy)

/-! ### Characters and bytes -/

theorem Utf8.utf8Size_eq_one_iff (c : Char) : c.utf8Size = 1 ↔ Text.isAscii c = true := by
  rw [Char.utf8Size_eq_one_iff, UInt32.le_iff_toNat_le, Text.isAscii, decide_eq_true_eq]
  exact Nat.lt_succ_iff.symm

/-- A text has as many characters as bytes if and only if all its characters are ASCII. -/
theorem Utf8.length_encode_eq_iff (s : String) :
    (encode s).length = s.length ↔ ∀ c ∈ s.toList, Text.isAscii c = true := by
  have size : ∀ cs : List Char, cs.length ≤ (cs.flatMap String.utf8EncodeChar).length ∧
      ((cs.flatMap String.utf8EncodeChar).length = cs.length ↔ ∀ c ∈ cs, Text.isAscii c = true) := by
    intro cs
    induction cs with
    | nil => simp
    | cons c rest ih =>
      have positive := c.utf8Size_pos
      obtain ⟨least, same⟩ := ih
      rw [List.forall_mem_cons, ← same, ← utf8Size_eq_one_iff]
      simp only [List.flatMap_cons, List.length_append, String.length_utf8EncodeChar, List.length_cons]
      omega
  rw [encode, ← String.length_toList]
  exact (size s.toList).2

theorem Utf8.encode_eq_nil_iff (s : String) : encode s = [] ↔ s = "" := by
  constructor
  · intro empty
    have same := decodeLossy_encode s
    rw [empty] at same
    exact same.symm
  · rintro rfl
    rfl

theorem Utf8.Valid.lastLine {l : Bytes} (valid : Valid l) : Valid (Bytes.lastLine l) := by
  rcases Bytes.lastLine_cases l with ⟨-, same⟩ | ⟨before, same⟩
  · rwa [same]
  · rw [same] at valid
    exact valid.of_newline.2

/-! ### Carets -/

/-- What a rendered error shows of a source line: the line behind its number, and under it so many blanks and carets. -/
def BundleError.Draws (e : BundleError) (number : Int) (line : String) (blanks carets : Nat) : Prop :=
  ∃ above below, e.render false = "\n".intercalate (above ++ [toString number ++ " | " ++ line,
    Text.repeated ((toString number).length + 1) ' ' ++ "| " ++
      (Text.repeated blanks ' ' ++ Text.repeated carets '^' ++ e.afterCarets)] ++ below)

namespace SourceUnit

variable {u : SourceUnit} {t : Tag} {e : BundleError} {before node after : String}

/-- A node that stands on one line of a text, between characters. -/
structure OnOneLine (u : SourceUnit) (t : Tag) : Prop where
  valid : Valid u.bytes
  start : Boundary u.bytes t.start
  stop : Boundary u.bytes t.stop
  forward : t.start ≤ t.stop
  row : u.bytes.row t.start = u.bytes.row t.stop

/-- The line of a node in parts: the text before the node, that of the node and the text behind it. -/
structure LineParts (u : SourceUnit) (t : Tag) (before node after : String) : Prop where
  ahead : encode before = u.bytes.slice (u.bytes.lineStart t.start) t.start
  own : encode node = u.bytes.slice t.start t.stop
  line : (Text.lines u.text)[u.bytes.row t.start]? = some (before ++ node ++ after)

theorem OnOneLine.split (fits : OnOneLine u t) : (u.bytes.drop t.start).takeWhile (· != newline) =
    u.bytes.slice t.start t.stop ++ (u.bytes.drop t.stop).takeWhile (· != newline) := by
  have plain := (Bytes.row_eq_iff fits.forward).mp fits.row
  rw [← Bytes.slice_append_drop fits.forward, List.takeWhile_append_of_pos (Bytes.bne_newline plain)]

theorem OnOneLine.parts (fits : OnOneLine u t) : ∃ before node after, LineParts u t before node after := by
  have first : Valid (Bytes.lastLine (u.bytes.take t.start)) := fits.start.valid.lastLine
  have middle := fits.start.slice fits.stop fits.forward
  refine ⟨decodeLossy (Bytes.lastLine (u.bytes.take t.start)), decodeLossy (u.bytes.slice t.start t.stop),
    decodeLossy ((u.bytes.drop t.stop).takeWhile (· != newline)), ?_, ?_, ?_⟩
  · rw [Utf8.encode_decodeLossy first, Bytes.slice_lineStart]
  · exact Utf8.encode_decodeLossy middle
  · rw [text, Utf8.lines_decodeLossy, List.getElem?_map, Bytes.line_of_row, Option.map_some, fits.split,
      Utf8.decodeLossy_append first, Utf8.decodeLossy_append middle, String.append_assoc]

theorem LineParts.sourceLine? (parts : LineParts u t before node after) :
    Diagnostic.sourceLine? (u.locate t) u.text = some (before ++ node ++ after) := by
  have line := parts.line
  rw [text, Utf8.lines_decodeLossy, List.getElem?_map, Bytes.line_of_row, Option.map_some] at line
  rw [locate, text, sourceLine?_location, line]

/-- The blanks before the carets are as many as the bytes before the node. -/
theorem LineParts.indent_eq (parts : LineParts u t before node after) (fits : OnOneLine u t) :
    Diagnostic.indent (u.locate t) = (encode before).length := by
  rw [parts.ahead, Bytes.slice_lineStart, ← Bytes.column_eq fits.start.inside]
  simp only [Diagnostic.indent, locate, Bytes.location]
  omega

theorem LineParts.length_node (parts : LineParts u t before node after) (fits : OnOneLine u t) :
    (encode node).length = t.stop - t.start := by
  rw [parts.own, Bytes.length_slice fits.stop.inside]

/-- The carets are as many as the bytes of the node; under an empty node they are as many as there are
characters on the line, less the bytes before the node. -/
theorem LineParts.caretCount_eq (parts : LineParts u t before node after) (fits : OnOneLine u t) :
    Diagnostic.caretCount (u.locate t) (before ++ node ++ after) =
      if node = "" then max 1 ((Text.trimEnd (before ++ after).toList).length - (encode before).length)
      else (encode node).length := by
  have length := parts.length_node fits
  have plain := (Bytes.row_eq_iff fits.forward).mp fits.row
  have column := Bytes.column_add fits.forward fits.stop.inside plain
  have indent := parts.indent_eq fits
  rw [Diagnostic.caretCount, indent]
  simp only [locate, Bytes.location, fits.row, column]
  by_cases empty : node = ""
  · rw [if_pos empty]
    have none : (encode node).length = 0 := by simp [empty, encode]
    rw [if_neg (by simp; omega), empty]
    simp
  · have some : (encode node).length ≠ 0 := by
      intro none
      exact empty ((Utf8.encode_eq_nil_iff node).mp (List.length_eq_zero_iff.mp none))
    rw [if_neg empty, if_pos (by simp; omega)]
    omega

/-- The carets under a node that stands on one line. The source line is shown with as many blanks under it as there are bytes
before the node, and then as many carets as the node has bytes, or, if it is empty, as the line has characters beyond
them. So the carets stand under the characters of the node, if and only if what is before it is ASCII and it is ASCII
itself, or is empty and has at most one character behind it. -/
theorem carets_drawn (fits : OnOneLine u t) (located : e.location = some (u.locate t))
    (known : e.source = some u.text) :
    ∃ before node after blanks carets, LineParts u t before node after ∧
      e.Draws (u.bytes.row t.start + 1) (before ++ node ++ after) blanks carets ∧
      blanks = (encode before).length ∧
      carets = (if node = "" then max 1 ((Text.trimEnd (before ++ after).toList).length - (encode before).length)
        else (encode node).length) ∧
      (blanks = before.length ∧ carets = max 1 node.length ↔ (∀ c ∈ before.toList, Text.isAscii c = true) ∧
        if node = "" then (Text.trimEnd (before ++ after).toList).length ≤ before.length + 1
        else ∀ c ∈ node.toList, Text.isAscii c = true) := by
  obtain ⟨before, node, after, parts⟩ := fits.parts
  obtain ⟨above, below, same⟩ := BundleError.render_excerpt located known parts.sourceLine?
  refine ⟨before, node, after, _, _, parts, ⟨above, below, same⟩, parts.indent_eq fits, parts.caretCount_eq fits, ?_⟩
  rw [parts.indent_eq fits, parts.caretCount_eq fits, ← Utf8.length_encode_eq_iff, ← Utf8.length_encode_eq_iff]
  refine and_congr_right fun blanks => ?_
  split
  · next empty =>
    rw [blanks, empty]
    simp [Nat.add_comm]
  · next some =>
    have positive : 0 < node.length := Nat.pos_of_ne_zero fun none => some (String.length_eq_zero_iff.mp none)
    rw [Nat.max_eq_right positive]

/-- A source with an accented letter in a comment before a path that is refused. -/
def accented : SourceUnit := ⟨⟨0, ["lib.rs"]⟩, encode "/* é */ use ::a;\n", default⟩

/-- The path in it. -/
def accentedPath : Tag := { kind := "scoped_identifier", named := true, start := 13, stop := 16 }

theorem carets_drawn_accented : OnOneLine accented accentedPath ∧
    (accented.leadingSeparator accentedPath "::a").location = some (accented.locate accentedPath) ∧
    (accented.leadingSeparator accentedPath "::a").source = some accented.text ∧
    ∃ before node after, LineParts accented accentedPath before node after ∧ before.length = 12 ∧ node.length = 3 ∧
      (accented.leadingSeparator accentedPath "::a").Draws 1 (before ++ node ++ after) 13 3 := by
  have fits : OnOneLine accented accentedPath := ⟨by decide, by decide, by decide, by decide, by decide⟩
  obtain ⟨before, node, after, blanks, carets, parts, drawn, rfl, rfl, -⟩ :=
    carets_drawn (e := accented.leadingSeparator accentedPath "::a") fits rfl rfl
  have ahead : before = "/* é */ use " := by
    rw [← Utf8.decodeLossy_encode before, parts.ahead]
    decide
  have own : node = "::a" := by
    rw [← Utf8.decodeLossy_encode node, parts.own]
    decide
  refine ⟨fits, rfl, rfl, before, node, after, parts, ?_, ?_, ?_⟩
  · rw [ahead]
    decide
  · rw [own]
    decide
  · subst ahead own
    exact drawn

end SourceUnit

end CrateFold
