import CrateFold.Proofs.Decoding
import CrateFold.Tree.SourceUnit
import Mathlib.Data.List.DropRight

/-!
Lines of a source. The lines of the text of any bytes are the texts of the lines of the bytes (`lines_decodeLossy`), and the
row and the column of an offset are the number of the line and of the bytes on it that stand before the offset (`line_of_row`,
`column_eq`). An error whose place is known is shown with the line of that place and carets under it (`render_excerpt`).
-/
namespace CrateFold

open Bytes (newline)

/-! ### Pieces of a list between marks -/

theorem not_mem_of_mem_splitOn {α : Type} [BEq α] [LawfulBEq α] {mark : α} {l piece : List α}
    (listed : piece ∈ l.splitOn mark) : mark ∉ piece := by
  induction l generalizing piece with
  | nil =>
    rw [List.splitOn_nil, List.mem_singleton] at listed
    simp [listed]
  | cons a rest ih =>
    rw [List.splitOn_cons_eq_if_modifyHead] at listed
    split at listed
    · rcases List.mem_cons.mp listed with rfl | later
      · simp
      · exact ih later
    · next other =>
      obtain ⟨first, more, same⟩ := List.exists_cons_of_ne_nil (List.splitOn_ne_nil mark rest)
      rw [same] at ih listed
      rcases List.mem_cons.mp listed with rfl | later
      · have plain := ih List.mem_cons_self
        have apart : ¬mark = a := fun equal => other (by simp [equal])
        simp [plain, apart]
      · exact ih (List.mem_cons_of_mem _ later)

theorem subset_of_mem_splitOn {α : Type} [BEq α] [LawfulBEq α] {mark : α} {l piece : List α}
    (listed : piece ∈ l.splitOn mark) : piece ⊆ l := by
  induction l generalizing piece with
  | nil =>
    rw [List.splitOn_nil, List.mem_singleton] at listed
    simp [listed]
  | cons a rest ih =>
    rw [List.splitOn_cons_eq_if_modifyHead] at listed
    obtain ⟨first, more, same⟩ := List.exists_cons_of_ne_nil (List.splitOn_ne_nil mark rest)
    rw [same] at ih listed
    split at listed
    · rcases List.mem_cons.mp listed with rfl | later
      · simp
      · exact List.subset_cons_of_subset a (ih later)
    · rcases List.mem_cons.mp listed with rfl | later
      · exact List.cons_subset_cons a (ih List.mem_cons_self)
      · exact List.subset_cons_of_subset a (ih (List.mem_cons_of_mem _ later))

theorem length_splitOn {α : Type} [BEq α] [LawfulBEq α] (mark : α) (l : List α) : (l.splitOn mark).length = l.count mark + 1 := by
  induction l with
  | nil => simp
  | cons a rest ih =>
    rw [List.splitOn_cons_eq_if_modifyHead, List.count_cons]
    split <;> simp [ih]

theorem head?_splitOn {α : Type} [BEq α] [LawfulBEq α] (mark : α) (l : List α) :
    (l.splitOn mark).head? = some (l.takeWhile (· != mark)) := by
  induction l with
  | nil => simp
  | cons a rest ih =>
    rw [List.splitOn_cons_eq_if_modifyHead, List.takeWhile_cons]
    by_cases same : a = mark
    · simp [same]
    · simp [same, List.head?_modifyHead, ih]

theorem mem_splitOn_intercalate {α : Type} [BEq α] [LawfulBEq α] {mark : α} {pieces : List (List α)} {piece : List α}
    (listed : piece ∈ pieces) (plain : mark ∉ piece) : piece ∈ ([mark].intercalate pieces).splitOn mark := by
  induction pieces with
  | nil => cases listed
  | cons first rest ih =>
    cases rest with
    | nil =>
      rw [List.mem_singleton] at listed
      rw [List.intercalate_singleton, ← listed, List.splitOn_eq_singleton plain]
      exact List.mem_singleton.mpr rfl
    | cons second rest =>
      rw [List.intercalate_cons_cons, List.append_assoc, List.singleton_append, List.splitOn_append_cons_self, List.mem_append]
      rcases List.mem_cons.mp listed with rfl | later
      · rw [List.splitOn_eq_singleton plain]
        exact .inl (List.mem_singleton.mpr rfl)
      · exact .inr (ih later)

namespace Text

theorem splitAtChar_eq_splitOn (mark : Char) (s : List Char) : splitAtChar mark s = s.splitOn mark := by
  induction s with
  | nil => rfl
  | cons c rest ih =>
    rw [splitAtChar, List.splitOn_cons_eq_if_modifyHead, ih]
    split
    · rfl
    · cases same : rest.splitOn mark with
      | nil => exact absurd same (List.splitOn_ne_nil mark rest)
      | cons first more => rfl

theorem lines_eq (s : String) : lines s = (s.toList.splitOn '\n').map String.ofList := by
  rw [lines, splitAtChar_eq_splitOn]

/-- Lines put together are found again. -/
theorem lines_intercalate {texts : List String} (plain : ∀ s ∈ texts, '\n' ∉ s.toList) (some : texts ≠ []) :
    lines ("\n".intercalate texts) = texts := by
  have split : (['\n'].intercalate (texts.map String.toList)).splitOn '\n' = texts.map String.toList :=
    List.splitOn_intercalate '\n' (by simpa using plain) (by simpa using some)
  rw [lines_eq, String.toList_intercalate]
  change ((['\n'].intercalate (texts.map String.toList)).splitOn '\n').map String.ofList = texts
  rw [split, List.map_map]
  exact (List.map_congr_left fun s _ => String.ofList_toList).trans (List.map_id _)

theorem mem_lines_intercalate {texts : List String} {s : String} (listed : s ∈ texts) (plain : '\n' ∉ s.toList) :
    s ∈ lines ("\n".intercalate texts) := by
  have found := mem_splitOn_intercalate (List.mem_map_of_mem (f := String.toList) listed) plain
  rw [lines_eq, String.toList_intercalate]
  exact List.mem_map.mpr ⟨s.toList, found, String.ofList_toList⟩

end Text

/-! ### Lines of bytes -/

namespace Utf8

theorem decodeLossy_intercalate (parts : List Bytes) :
    decodeLossy ([newline].intercalate parts) = "\n".intercalate (parts.map decodeLossy) := by
  induction parts with
  | nil => rfl
  | cons first rest ih =>
    cases rest with
    | nil => simp
    | cons second rest =>
      rw [List.intercalate_cons_cons, List.append_assoc, List.singleton_append, decodeLossy_newline, ih]
      simp

/-- The lines of the text of bytes are the texts of the lines of the bytes, valid or not. -/
theorem lines_decodeLossy (l : Bytes) : Text.lines (decodeLossy l) = (l.splitOn newline).map decodeLossy := by
  have whole := decodeLossy_intercalate (l.splitOn newline)
  rw [List.intercalate_splitOn] at whole
  rw [whole]
  apply Text.lines_intercalate
  · simp only [List.forall_mem_map]
    exact fun line listed => newline_decodeLossy (not_mem_of_mem_splitOn listed)
  · simp

theorem decodeLossy_append {x : Bytes} (valid : Valid x) (y : Bytes) : decodeLossy (x ++ y) = decodeLossy x ++ decodeLossy y := by
  simp only [decodeLossy, pieces_append valid, List.map_append, String.ofList_append]

end Utf8

namespace Bytes

variable {l x y : Bytes} {start stop : Nat}

theorem bne_newline (absent : newline ∉ l) : ∀ b ∈ l, (b != newline) = true := by
  intro b member
  simp only [bne_iff_ne]
  rintro rfl
  exact absent member

/-- What follows the last line end. -/
def lastLine (l : Bytes) : Bytes := l.rtakeWhile (· != newline)

theorem lastLine_plain (l : Bytes) : newline ∉ lastLine l := by
  intro member
  have other := List.mem_rtakeWhile_imp member
  simp at other

/-- Bytes are one line, or the lines before the last line end and the last line. -/
theorem lastLine_cases (l : Bytes) : newline ∉ l ∧ lastLine l = l ∨ ∃ before, l = before ++ newline :: lastLine l := by
  have split : l.rdropWhile (· != newline) ++ lastLine l = l := List.rdropWhile_append_rtakeWhile
  by_cases empty : l.rdropWhile (· != newline) = []
  · rw [empty, List.nil_append] at split
    exact .inl ⟨split ▸ lastLine_plain l, split⟩
  · have last := List.rdropWhile_last_not (· != newline) l empty
    simp only [bne_iff_ne, ne_eq, Decidable.not_not] at last
    have ends := List.dropLast_append_getLast empty
    rw [last] at ends
    refine .inr ⟨(l.rdropWhile (· != newline)).dropLast, ?_⟩
    rw [← List.singleton_append, ← List.append_assoc, ends, split]

theorem lastLine_append (absent : newline ∉ y) (x : Bytes) : lastLine (x ++ y) = lastLine x ++ y := by
  have other : ∀ b ∈ y.reverse, (b != newline) = true := bne_newline (by simpa using absent)
  rw [lastLine, List.rtakeWhile, List.reverse_append, List.takeWhile_append_of_pos other, List.reverse_append,
    List.reverse_reverse, lastLine, List.rtakeWhile]

/-- The line of a byte string that an offset is on. -/
theorem splitOn_row (x y : Bytes) :
    ((x ++ y).splitOn newline)[x.count newline]? = some (lastLine x ++ y.takeWhile (· != newline)) := by
  have joined : ∀ last : Bytes, newline ∉ last →
      ((last ++ y).splitOn newline)[0]? = some (last ++ y.takeWhile (· != newline)) := by
    intro last plain
    rw [← List.head?_eq_getElem?, head?_splitOn, List.takeWhile_append_of_pos (bne_newline plain)]
  rcases lastLine_cases x with ⟨absent, same⟩ | ⟨before, same⟩
  · rw [same, List.count_eq_zero_of_not_mem absent]
    exact joined x absent
  · have index : x.count newline = (before.splitOn newline).length := by
      rw [length_splitOn, same, List.count_append, List.count_cons_self, List.count_eq_zero_of_not_mem (lastLine_plain x)]
    have split : (x ++ y).splitOn newline = before.splitOn newline ++ (lastLine x ++ y).splitOn newline := by
      conv => lhs; rw [same, List.append_assoc, List.cons_append, List.splitOn_append_cons_self]
    rw [split, index, List.getElem?_append_right (Nat.le_refl _), Nat.sub_self]
    exact joined _ (lastLine_plain x)

/-! ### Rows and columns -/

theorem row_add (forward : start ≤ stop) (l : Bytes) : l.row stop = l.row start + (l.slice start stop).count newline := by
  rw [row, row, ← take_append_slice forward, List.count_append]

/-- A stretch of bytes that ends on the line on which it starts has no line end in it, and the reverse. -/
theorem row_eq_iff (forward : start ≤ stop) : l.row start = l.row stop ↔ newline ∉ l.slice start stop := by
  rw [row_add forward, ← List.count_eq_zero]
  omega

theorem lineStart_eq (l : Bytes) (offset : Nat) : l.lineStart offset = (l.take offset).length - (lastLine (l.take offset)).length := by
  simp [lineStart, lastLine, List.rtakeWhile]

theorem length_lastLine_le (l : Bytes) : (lastLine l).length ≤ l.length := (List.rtakeWhile_suffix _ l).length_le

/-- What stands before an offset on its line. -/
theorem slice_lineStart (l : Bytes) (offset : Nat) : l.slice (l.lineStart offset) offset = lastLine (l.take offset) := by
  obtain ⟨before, split⟩ : lastLine (l.take offset) <:+ l.take offset := List.rtakeWhile_suffix _ _
  have size : l.lineStart offset = before.length := by
    rw [lineStart_eq, ← congrArg List.length split, List.length_append, Nat.add_sub_cancel]
  rw [slice, ← List.drop_take, size, ← split, List.drop_left, split]

theorem column_eq (inside : start ≤ l.length) : l.column start = (lastLine (l.take start)).length := by
  have bound := length_lastLine_le (l.take start)
  rw [List.length_take, Nat.min_eq_left inside] at bound
  rw [column, lineStart_eq, List.length_take, Nat.min_eq_left inside]
  omega

theorem column_add (forward : start ≤ stop) (inside : stop ≤ l.length) (plain : newline ∉ l.slice start stop) :
    l.column stop = l.column start + (stop - start) := by
  rw [column_eq inside, column_eq (Nat.le_trans forward inside), ← take_append_slice forward, lastLine_append plain,
    List.length_append, length_slice inside]

/-- The line of an offset. -/
theorem line_of_row (l : Bytes) (offset : Nat) :
    (l.splitOn newline)[l.row offset]? = some (lastLine (l.take offset) ++ (l.drop offset).takeWhile (· != newline)) := by
  have found := splitOn_row (l.take offset) (l.drop offset)
  rwa [List.take_append_drop] at found

end Bytes

/-! ### Excerpts of a source -/

/-- The line that is shown for a place in bytes is the line of that place. -/
theorem sourceLine?_location (bytes : Bytes) (file : String) (start stop : Nat) :
    Diagnostic.sourceLine? (bytes.location file start stop) (Utf8.decodeLossy bytes) =
      some (Utf8.decodeLossy (Bytes.lastLine (bytes.take start) ++ (bytes.drop start).takeWhile (· != newline))) := by
  have positive : (0 : Int) < bytes.row start + 1 := by omega
  have index : ((bytes.row start : Int) + 1 - 1).toNat = bytes.row start := by omega
  rw [Diagnostic.sourceLine?, Bytes.location, if_pos positive, index, Utf8.lines_decodeLossy, List.getElem?_map,
    Bytes.line_of_row, Option.map_some]

/-- What follows the carets. -/
def BundleError.afterCarets (e : BundleError) : String :=
  match Diagnostic.present e.label with
  | some label => " " ++ label
  | none => ""

/-- A number is written in digits, with a sign if it is negative. -/
theorem not_mem_toString {c : Char} (digit : c.isDigit = false) (sign : c ≠ '-') (n : Int) : c ∉ (toString n).toList := by
  have natural : ∀ k : Nat, c ∉ (toString k).toList := by
    intro k listed
    rw [Nat.toString_eq_repr, Nat.toList_repr] at listed
    have found := Nat.isDigit_of_mem_toDigits (by decide) (by decide) listed
    rw [digit] at found
    cases found
  cases n with
  | ofNat k => exact natural k
  | negSucc k =>
    have whole : toString (Int.negSucc k) = "-" ++ toString (k + 1) := rfl
    rw [whole, String.toList_append, List.mem_append, not_or]
    exact ⟨by simpa using sign, natural _⟩

/-- A line of a diagnostic without colour. -/
def Fragment.plainText (line : List Fragment) : String := String.join (line.map Fragment.text)

theorem Diagnostic.render_false (d : Diagnostic) (sources : SourceTexts) :
    d.render sources false = "\n".intercalate ((d.layout sources).map Fragment.plainText) := rfl

/-- An error whose place is known is shown with the source line and the carets under it. -/
theorem BundleError.render_excerpt {e : BundleError} {place : Location} {source line : String}
    (located : e.location = some place) (known : e.source = some source) (shown : Diagnostic.sourceLine? place source = some line) :
    ∃ above below, e.render false = "\n".intercalate (above ++ [toString place.line ++ " | " ++ line,
      Text.repeated (Diagnostic.marginWidth place + 1) ' ' ++ "| " ++ (Diagnostic.carets place line ++ e.afterCarets)] ++ below) := by
  have found : (e.sources.lookup place.file).bind (Diagnostic.sourceLine? place) = some line := by
    simp [BundleError.sources, located, known, shown]
  obtain ⟨start, same⟩ : ∃ start, e.diagnostic.layout e.sources = start ++
      [[⟨.margin, toString place.line ++ " | "⟩, ⟨.plain, line⟩],
        [⟨.margin, Text.repeated (Diagnostic.marginWidth place + 1) ' ' ++ "| "⟩,
          ⟨.alarm, Diagnostic.carets place line ++ e.afterCarets⟩]] ++ e.diagnostic.remarks (Diagnostic.marginWidth place) := by
    have place' : e.diagnostic.location = some place := located
    simp only [Diagnostic.layout, place', found]
    exact ⟨[_, _, _], rfl⟩
  refine ⟨start.map Fragment.plainText, (e.diagnostic.remarks (Diagnostic.marginWidth place)).map Fragment.plainText, ?_⟩
  rw [BundleError.render, Diagnostic.render_false, same]
  simp [Fragment.plainText]

end CrateFold
