import CrateFold.Proofs.SourceLines

/-!
Diagnostics in colour. Escape codes stand around the fragments of a layout only, and removing a code does not touch the text
behind it (`withoutCodes_code`), so that a diagnostic in colour differs from one without in its codes alone
(`withoutCodes_render`).
-/
namespace CrateFold

namespace Text

/-! ### Escape codes -/

/-- A digit or a semicolon, of which the numbers in an escape code are made. -/
def isCodeDigit (c : Char) : Bool := c.isDigit || c == ';'

/-- What is behind an escape code at the start of a text: the escape character, `[`, digits and semicolons, and `m`. -/
def afterCode? : List Char → Option (List Char)
  | '\x1b' :: '[' :: rest =>
    match rest.dropWhile isCodeDigit with
    | 'm' :: more => some more
    | _ => none
  | _ => none

theorem length_afterCode? {s more : List Char} (found : afterCode? s = some more) : more.length < s.length := by
  unfold afterCode? at found
  split at found
  · next rest =>
    have shorter := (List.dropWhile_suffix (l := rest) isCodeDigit).length_le
    split at found
    · next same =>
      cases found
      rw [same] at shorter
      simp only [List.length_cons] at shorter ⊢
      omega
    · cases found
  · cases found

/-- Text without its escape codes. -/
def withoutCodes : List Char → List Char
  | [] => []
  | c :: rest =>
    match found : afterCode? (c :: rest) with
    | some more =>
      have := length_afterCode? found
      withoutCodes more
    | none => c :: withoutCodes rest
termination_by s => s.length
decreasing_by
  · exact this
  · exact Nat.lt_succ_self rest.length

theorem withoutCodes_of_some {c : Char} {rest more : List Char} (found : afterCode? (c :: rest) = some more) :
    withoutCodes (c :: rest) = withoutCodes more := by
  rw [withoutCodes]
  split
  · next same =>
    rw [found] at same
    cases same
    rfl
  · next none =>
    rw [found] at none
    cases none

theorem withoutCodes_cons {c : Char} (plain : c ≠ '\x1b') (rest : List Char) :
    withoutCodes (c :: rest) = c :: withoutCodes rest := by
  have none : afterCode? (c :: rest) = none := by
    unfold afterCode?
    split
    · next same =>
      cases same
      exact absurd rfl plain
    · rfl
  rw [withoutCodes]
  split
  · next found => rw [none] at found; cases found
  · rfl

/-- Text without the escape character is left as it is. -/
theorem withoutCodes_append {s : List Char} (plain : '\x1b' ∉ s) (t : List Char) :
    withoutCodes (s ++ t) = s ++ withoutCodes t := by
  induction s with
  | nil => rfl
  | cons c rest ih =>
    simp only [List.mem_cons, not_or] at plain
    rw [List.cons_append, withoutCodes_cons (Ne.symm plain.1), ih plain.2, List.cons_append]

/-- An escape code is removed, and nothing behind it. -/
theorem withoutCodes_code (digits : List Char) (all : digits.all isCodeDigit = true) (t : List Char) :
    withoutCodes ('\x1b' :: '[' :: (digits ++ 'm' :: t)) = withoutCodes t := by
  have found : afterCode? ('\x1b' :: '[' :: (digits ++ 'm' :: t)) = some t := by
    have rest : (digits ++ 'm' :: t).dropWhile isCodeDigit = 'm' :: t := by
      rw [List.dropWhile_append_of_pos (List.all_eq_true.mp all)]
      rfl
    simp only [afterCode?, rest]
  exact withoutCodes_of_some found

/-- Text in which no escape code starts. -/
def Uncoded (s : String) : Prop := '\x1b' ∉ s.toList

instance (s : String) : Decidable (Uncoded s) := inferInstanceAs (Decidable (_ ∉ _))

theorem uncoded_append {s t : String} : Uncoded (s ++ t) ↔ Uncoded s ∧ Uncoded t := by
  simp [Uncoded, not_or]

theorem uncoded_repeated {c : Char} (plain : c ≠ '\x1b') (n : Nat) : Uncoded (repeated n c) := by
  simp [Uncoded, repeated, List.mem_replicate, Ne.symm plain]

theorem uncoded_toString (n : Int) : Uncoded (toString n) := not_mem_toString (by decide) (by decide) n

theorem uncoded_of_mem_lines {s line : String} (plain : Uncoded s) (listed : line ∈ lines s) : Uncoded line := by
  rw [lines_eq] at listed
  obtain ⟨piece, among, rfl⟩ := List.mem_map.mp listed
  rw [Uncoded, String.toList_ofList]
  exact fun member => plain (subset_of_mem_splitOn among member)

theorem uncoded_join {texts : List String} (plain : ∀ s ∈ texts, Uncoded s) : Uncoded (String.join texts) := by
  rw [Uncoded, String.toList_join, List.mem_flatMap]
  rintro ⟨s, listed, member⟩
  exact plain s listed member

theorem uncoded_intercalate {texts : List String} (plain : ∀ s ∈ texts, Uncoded s) : Uncoded ("\n".intercalate texts) := by
  induction texts with
  | nil => decide
  | cons first rest ih =>
    obtain ⟨here, later⟩ := List.forall_mem_cons.mp plain
    cases rest with
    | nil => simpa using here
    | cons second rest =>
      rw [String.intercalate_cons_cons, uncoded_append, uncoded_append]
      exact ⟨⟨here, by decide⟩, ih later⟩

end Text

/-! ### Fragments -/

open Text (Uncoded withoutCodes)

theorem Style.withoutCodes_codes (style : Style) (t : List Char) :
    withoutCodes (style.codes.toList ++ t) = withoutCodes t := by
  have bold (t : List Char) : withoutCodes ("\x1b[1m".toList ++ t) = withoutCodes t :=
    Text.withoutCodes_code ['1'] (by decide) t
  cases style with
  | plain => rfl
  | alarm => exact (bold _).trans (Text.withoutCodes_code ['3', '1'] (by decide) t)
  | strong => exact bold t
  | margin => exact (bold _).trans (Text.withoutCodes_code ['3', '4'] (by decide) t)
  | remark => exact (bold _).trans (Text.withoutCodes_code ['3', '6'] (by decide) t)

theorem Style.withoutCodes_reset (t : List Char) : withoutCodes (Style.reset.toList ++ t) = withoutCodes t :=
  Text.withoutCodes_code ['0'] (by decide) t

namespace Fragment

theorem withoutCodes_paint {f : Fragment} (plain : Uncoded f.text) (colour : Bool) (t : List Char) :
    withoutCodes ((f.paint colour).toList ++ t) = f.text.toList ++ withoutCodes t := by
  unfold paint
  split
  · rw [String.toList_append, String.toList_append, List.append_assoc, List.append_assoc, Style.withoutCodes_codes,
      Text.withoutCodes_append plain, Style.withoutCodes_reset]
  · exact Text.withoutCodes_append plain t

theorem withoutCodes_line {line : List Fragment} (plain : ∀ f ∈ line, Uncoded f.text) (colour : Bool) (t : List Char) :
    withoutCodes ((String.join (line.map (paint colour))).toList ++ t) = (plainText line).toList ++ withoutCodes t := by
  induction line with
  | nil => rfl
  | cons f rest ih =>
    obtain ⟨here, later⟩ := List.forall_mem_cons.mp plain
    rw [plainText, List.map_cons, List.map_cons, String.join_cons, String.join_cons, String.toList_append, String.toList_append,
      List.append_assoc, List.append_assoc, withoutCodes_paint here, ih later, plainText]

theorem withoutCodes_lines {lines : List (List Fragment)} (plain : ∀ line ∈ lines, ∀ f ∈ line, Uncoded f.text)
    (colour : Bool) :
    withoutCodes ("\n".intercalate (lines.map fun line => String.join (line.map (paint colour)))).toList =
      ("\n".intercalate (lines.map plainText)).toList := by
  induction lines with
  | nil => simp [withoutCodes]
  | cons line rest ih =>
    obtain ⟨here, later⟩ := List.forall_mem_cons.mp plain
    cases rest with
    | nil =>
      have alone := withoutCodes_line here colour []
      simpa [withoutCodes] using alone
    | cons second rest =>
      have others := ih later
      simp only [List.map_cons, String.intercalate_cons_cons, String.toList_append, List.append_assoc] at others ⊢
      rw [withoutCodes_line here, Text.withoutCodes_append (by decide), others]

end Fragment

namespace Diagnostic

variable {d : Diagnostic} {sources : SourceTexts}

/-- A diagnostic and sources in whose texts no escape code starts. -/
structure Uncoded (d : Diagnostic) (sources : SourceTexts) : Prop where
  message : Text.Uncoded d.message
  code : ∀ code, d.code = some code → Text.Uncoded code
  help : ∀ help, d.help = some help → Text.Uncoded help
  note : ∀ note, d.note = some note → Text.Uncoded note
  label : ∀ label, d.label = some label → Text.Uncoded label
  file : ∀ place, d.location = some place → Text.Uncoded place.file
  sources : ∀ entry ∈ sources, Text.Uncoded entry.2

theorem eq_some_of_present {text : Option String} {s : String} (found : present text = some s) : text = some s := by
  unfold present at found
  split at found
  · cases found
  · exact found

theorem headline_uncoded (plain : d.Uncoded sources) : ∀ f ∈ d.headline, Text.Uncoded f.text := by
  obtain ⟨code, free, same⟩ : ∃ code, Text.Uncoded code ∧
      d.headline = [⟨.alarm, "error" ++ code⟩, ⟨.strong, ": " ++ d.message⟩] := by
    cases found : present d.code with
    | none => exact ⟨"", by decide, by simp only [headline, found]⟩
    | some code =>
      have given := plain.code code (eq_some_of_present found)
      refine ⟨"[" ++ code ++ "]", ?_, by simp only [headline, found]; rfl⟩
      exact Text.uncoded_append.mpr ⟨Text.uncoded_append.mpr ⟨by decide, given⟩, by decide⟩
  simp only [same, List.forall_mem_cons, Text.uncoded_append]
  exact ⟨⟨by decide, free⟩, ⟨by decide, plain.message⟩, by simp⟩

theorem remark_uncoded {title : String} {text : Option String} (titled : Text.Uncoded title)
    (plain : ∀ s, text = some s → Text.Uncoded s) (width : Nat) :
    ∀ line ∈ remark width title (present text), ∀ f ∈ line, Text.Uncoded f.text := by
  cases found : present text with
  | none => simp [remark]
  | some s =>
    have blanks := Text.uncoded_repeated (c := ' ') (by decide) (width + 1)
    simp only [remark, List.forall_mem_singleton, List.forall_mem_cons, Text.uncoded_append]
    exact ⟨⟨blanks, by decide⟩, ⟨titled, by decide⟩, plain s (eq_some_of_present found)⟩

theorem remarks_uncoded (plain : d.Uncoded sources) (width : Nat) :
    ∀ line ∈ d.remarks width, ∀ f ∈ line, Text.Uncoded f.text := by
  have blanks := Text.uncoded_repeated (c := ' ') (by decide) (width + 1)
  unfold remarks
  dsimp only
  split
  · simp
  · rw [List.forall_mem_cons, List.forall_mem_append]
    refine ⟨?_, remark_uncoded (by decide) plain.help width, remark_uncoded (by decide) plain.note width⟩
    simp only [List.forall_mem_singleton, Text.uncoded_append]
    exact ⟨blanks, by decide⟩

theorem carets_uncoded (place : Location) (shown : String) : Text.Uncoded (carets place shown) :=
  Text.uncoded_append.mpr ⟨Text.uncoded_repeated (by decide) _, Text.uncoded_repeated (by decide) _⟩

theorem excerpt_uncoded {shown : String} (plain : d.Uncoded sources) (clear : Text.Uncoded shown) (place : Location) :
    ∀ line ∈ d.excerpt place shown, ∀ f ∈ line, Text.Uncoded f.text := by
  obtain ⟨label, free, same⟩ : ∃ label, Text.Uncoded label ∧ d.excerpt place shown =
      [[⟨.margin, Text.repeated (marginWidth place + 1) ' ' ++ "|"⟩],
       [⟨.margin, toString place.line ++ " | "⟩, ⟨.plain, shown⟩],
       [⟨.margin, Text.repeated (marginWidth place + 1) ' ' ++ "| "⟩, ⟨.alarm, carets place shown ++ label⟩]] := by
    cases found : present d.label with
    | none => exact ⟨"", by decide, by simp only [excerpt, found]⟩
    | some label =>
      have given := plain.label label (eq_some_of_present found)
      exact ⟨" " ++ label, Text.uncoded_append.mpr ⟨by decide, given⟩, by simp only [excerpt, found]⟩
  have blanks := Text.uncoded_repeated (c := ' ') (by decide) (marginWidth place + 1)
  simp only [same, List.forall_mem_cons, List.not_mem_nil, IsEmpty.forall_iff, implies_true, and_true, Text.uncoded_append]
  exact ⟨⟨blanks, by decide⟩, ⟨⟨Text.uncoded_toString _, by decide⟩, clear⟩, ⟨blanks, by decide⟩,
    carets_uncoded place shown, free⟩

theorem sourceLine?_uncoded {place : Location} {source shown : String} (plain : Text.Uncoded source)
    (found : sourceLine? place source = some shown) : Text.Uncoded shown := by
  unfold sourceLine? at found
  split at found
  · exact Text.uncoded_of_mem_lines plain (List.mem_of_getElem? found)
  · cases found

theorem layout_uncoded (plain : d.Uncoded sources) : ∀ line ∈ d.layout sources, ∀ f ∈ line, Text.Uncoded f.text := by
  unfold layout
  split
  · exact List.forall_mem_cons.mpr ⟨headline_uncoded plain, remarks_uncoded plain 1⟩
  · next place located =>
    have blanks := Text.uncoded_repeated (c := ' ') (by decide) (marginWidth place)
    have written : Text.Uncoded place.text := by
      have whole : place.text = place.file ++ ":" ++ toString place.line ++ ":" ++ toString place.column := rfl
      simp only [whole, Text.uncoded_append]
      exact ⟨⟨⟨⟨plain.file place located, by decide⟩, Text.uncoded_toString _⟩, by decide⟩, Text.uncoded_toString _⟩
    simp only [List.cons_append, List.forall_mem_cons, List.forall_mem_append, Text.uncoded_append]
    refine ⟨headline_uncoded plain, ⟨⟨blanks, by decide⟩, written, by simp⟩, ?_, remarks_uncoded plain _⟩
    split
    · next line found =>
      obtain ⟨source, kept, shown⟩ := Option.bind_eq_some_iff.mp found
      obtain ⟨first, rest, rfl, -⟩ := List.lookup_eq_some_iff.mp kept
      have clear := plain.sources (place.file, source) (by simp)
      exact excerpt_uncoded plain (sourceLine?_uncoded clear shown) place
    · simp

/-- A diagnostic in colour starts with the codes of its first word. -/
theorem codes_isPrefix_render (d : Diagnostic) (sources : SourceTexts) :
    Style.alarm.codes.toList <+: (d.render sources true).toList := by
  obtain ⟨rest, same⟩ : ∃ rest, d.layout sources = d.headline :: rest := by
    unfold layout
    split <;> exact ⟨_, rfl⟩
  rw [render, same, List.map_cons, headline, List.map_cons, String.join_cons, Fragment.paint]
  simp only [Bool.true_and, bne_iff_ne, ne_eq, reduceCtorEq, not_false_eq_true, if_true, String.append_assoc,
    String.intercalate_cons_append, String.toList_append]
  exact List.prefix_append _ _

/-- Colour adds escape codes and nothing else: without them, a diagnostic in colour is the diagnostic without colour, in which
there are none, for a diagnostic and sources in whose texts no escape code starts. -/
theorem withoutCodes_render (plain : d.Uncoded sources) :
    String.ofList (withoutCodes (d.render sources true).toList) = d.render sources false ∧
      Text.Uncoded (d.render sources false) ∧ Style.alarm.codes.toList <+: (d.render sources true).toList := by
  have clear := layout_uncoded plain
  refine ⟨?_, ?_, codes_isPrefix_render d sources⟩
  · rw [render, Fragment.withoutCodes_lines clear, String.ofList_toList, render_false]
  · rw [render_false]
    apply Text.uncoded_intercalate
    simp only [List.forall_mem_map, Fragment.plainText]
    exact fun line listed => Text.uncoded_join (by simpa using clear line listed)

/-- A diagnostic on two lines whose texts look like parts of escape codes. -/
def numbered : Diagnostic where
  message := "31m"
  location := some { file := "m.rs", line := 1, column := 2, endLine := 2, endColumn := 1 }
  code := some "0m"
  note := some "[1;31m"

theorem withoutCodes_render_numbered : numbered.Uncoded [("m.rs", "m [0m\n9m")] ∧
    String.ofList (withoutCodes (numbered.render [("m.rs", "m [0m\n9m")] true).toList) =
      "error[0m]: 31m\n --> m.rs:1:2\n  |\n1 | m [0m\n  |  ^^^^\n  |\n  = note: [1;31m" := by
  have plain : numbered.Uncoded [("m.rs", "m [0m\n9m")] := by
    refine ⟨by decide, ?_, ?_, ?_, ?_, ?_, by decide⟩
    · rintro _ ⟨⟩
      decide
    · rintro _ ⟨⟩
    · rintro _ ⟨⟩
      decide
    · rintro _ ⟨⟩
    · rintro _ ⟨⟩
      decide
  exact ⟨plain, (withoutCodes_render plain).1.trans (by decide)⟩

end Diagnostic

end CrateFold
