import CrateFold.Proofs.SourceLines

/-!
Sources that are no text. Reading bytes fails for their encoding exactly if they are no text, and the error then names the
first invalid stretch: where it is, as for a node that stands there, and on which line (`parse_encoding`).
-/
namespace CrateFold

open Bytes (newline)
open Utf8 (IsText decodeLossy)

namespace SourceUnit

variable {grammar : Grammar} {bytes : Bytes} {file : String}

/-- The location in the error for bytes that are no text is that of the invalid run. -/
theorem location_notUtf8 {run : Utf8.Invalid} (first : Utf8.FirstRun bytes run)
    (plain : newline ∉ bytes.slice run.start run.stop) (file : String) :
    (notUtf8 bytes file run).location = some (bytes.location file run.start run.stop) := by
  have forward := Nat.le_of_lt first.forward
  have row := (Bytes.row_eq_iff forward).mpr plain
  have column := Bytes.column_add forward first.inside plain
  simp only [notUtf8, Bytes.location, row, column]
  congr 2
  push_cast [forward]
  ring

/-- The error for a flawed tree has not the message for bytes that are no text: there is one letter too many in it. -/
theorem message_malformed (u : SourceUnit) (file : String) (flaw : Tag) (description : String) :
    (u.malformed file flaw description).message ≠ file ++ ": stream did not contain valid UTF-8" := by
  intro same
  have written : (u.malformed file flaw description).message = description ++ " while parsing " ++ file := rfl
  have count := congrArg (fun s : String => s.toList.count 'w') (written.symm.trans same)
  have one : " while parsing ".toList.count 'w' = 1 := by decide
  have none : ": stream did not contain valid UTF-8".toList.count 'w' = 0 := by decide
  simp only [String.toList_append, List.count_append, one, none] at count
  omega

theorem parse_of_invalid? {run : Utf8.Invalid} (found : Utf8.invalid? bytes = some run) :
    (parse grammar bytes file).outcome = .error (.bundle (notUtf8 bytes file run)) := by
  simp [parse, found]

/-- Bytes that are a text are refused for their tree only. -/
theorem message_of_parse {e : BundleError} (text : IsText bytes)
    (refused : (parse grammar bytes file).outcome = .error (.bundle e)) :
    e.message ≠ file ++ ": stream did not contain valid UTF-8" := by
  have fine : Utf8.invalid? bytes = none := Utf8.valid_iff_isText.mpr text
  simp only [parse, fine, Traced.outcome_bind, Traced.outcome_lift] at refused
  rcases bind_eq_error.mp refused with flawed | ⟨_, -, impossible⟩
  · obtain ⟨flaw, description, rfl⟩ := malformed_of_checkTree flawed
    exact message_malformed _ file flaw description
  · cases impossible

/-- What is said about bytes that are no text: the stretch from `start` to `stop` is reported, which begins where the longest
text that the bytes start with ends and lies on one line; its location is that of a node there; and the text that is
shown has the lines of the bytes, that of the stretch among those printed. -/
structure EncodingReport (bytes : Bytes) (file : String) (e : BundleError) (start stop : Nat) : Prop where
  problem : e.problem = .malformed file
  longest : IsGreatest {n | n ≤ bytes.length ∧ IsText (bytes.take n)} start
  forward : start < stop
  inside : stop ≤ bytes.length
  plain : newline ∉ bytes.slice start stop
  location : ∀ (u : SourceUnit) (t : Tag), u.bytes = bytes → t.start = start → t.stop = stop →
    e.location = some { u.locate t with file := file }
  source : e.source = some (decodeLossy bytes)
  lines : Text.lines (decodeLossy bytes) = (bytes.splitOn newline).map decodeLossy
  shown : ∃ line, (bytes.splitOn newline)[bytes.row start]? = some line ∧
    toString (bytes.row start + 1) ++ " | " ++ decodeLossy line ∈ Text.lines (e.render false)

theorem encodingReport_notUtf8 {run : Utf8.Invalid} (found : Utf8.invalid? bytes = some run) (file : String) :
    EncodingReport bytes file (notUtf8 bytes file run) run.start run.stop := by
  have first := Utf8.firstRun_of_invalid? found
  have plain : newline ∉ bytes.slice run.start run.stop := by
    intro member
    have high := first.high _ member
    exact absurd high (by decide)
  have location := location_notUtf8 first plain file
  have line := Bytes.line_of_row bytes run.start
  refine ⟨rfl, first.longest, first.forward, first.inside, plain, ?_, rfl, Utf8.lines_decodeLossy bytes, _, line, ?_⟩
  · rintro u t rfl start stop
    rw [location, locate, start, stop]
    rfl
  · obtain ⟨above, below, same⟩ :=
      BundleError.render_excerpt location rfl (sourceLine?_location bytes file run.start run.stop)
    rw [same]
    apply Text.mem_lines_intercalate
    · exact List.mem_append_left _ (List.mem_append_right _ List.mem_cons_self)
    · have number := not_mem_toString (c := '\n') (by decide) (by decide) ((bytes.row run.start : Int) + 1)
      have alone := Utf8.newline_decodeLossy (not_mem_of_mem_splitOn (List.mem_of_getElem? line))
      simp only [String.toList_append, List.mem_append, not_or]
      exact ⟨⟨number, by decide⟩, alone⟩

/-- Bytes are refused for their encoding exactly if they are no text, and then the error says where that shows first. -/
theorem parse_encoding (grammar : Grammar) (bytes : Bytes) (file : String) :
    ((∃ e, (parse grammar bytes file).outcome = .error (.bundle e) ∧
      e.message = file ++ ": stream did not contain valid UTF-8") ↔ ¬IsText bytes) ∧
    ∀ e, (parse grammar bytes file).outcome = .error (.bundle e) →
      e.message = file ++ ": stream did not contain valid UTF-8" → ∃ start stop, EncodingReport bytes file e start stop := by
  cases found : Utf8.invalid? bytes with
  | none =>
    have text : IsText bytes := Utf8.valid_iff_isText.mp found
    have other : ∀ e, (parse grammar bytes file).outcome = .error (.bundle e) →
        e.message ≠ file ++ ": stream did not contain valid UTF-8" := fun e => message_of_parse text
    refine ⟨⟨?_, fun wrong => absurd text wrong⟩, fun e refused message => absurd message (other e refused)⟩
    rintro ⟨e, refused, message⟩
    exact absurd message (other e refused)
  | some run =>
    have refused : (parse grammar bytes file).outcome = .error (.bundle (notUtf8 bytes file run)) :=
      parse_of_invalid? found
    have wrong : ¬IsText bytes := by
      intro text
      have fine : Utf8.invalid? bytes = none := Utf8.valid_iff_isText.mpr text
      rw [found] at fine
      cases fine
    refine ⟨⟨fun _ => wrong, fun _ => ⟨_, refused, rfl⟩⟩, ?_⟩
    intro e raised _
    rw [refused] at raised
    cases raised
    exact ⟨run.start, run.stop, encodingReport_notUtf8 found file⟩

/-- Three lines, the second of which ends in a character that is cut short. -/
def cutShort : Bytes := [0x6F, 0x0A, 0xC3, 0xA9, 0xE2, 0x82, 0x0A, 0x7A]

theorem parse_encoding_cutShort : ¬IsText cutShort ∧ ∃ e,
    (parse (fun _ => default) cutShort "lib.rs").outcome = .error (.bundle e) ∧
    e.location = some { file := "lib.rs", line := 2, column := 3, start := 4, stop := 6, endLine := 2, endColumn := 5 } ∧
    ∃ start stop, EncodingReport cutShort "lib.rs" e start stop := by
  have refused : (parse (fun _ => default) cutShort "lib.rs").outcome =
      .error (.bundle (notUtf8 cutShort "lib.rs" ⟨4, 6, 0xE2, .continuation⟩)) := parse_of_invalid? (by decide)
  obtain ⟨exactly, report⟩ := parse_encoding (fun _ => default) cutShort "lib.rs"
  exact ⟨exactly.mp ⟨_, refused, rfl⟩, _, refused, by decide, report _ refused rfl⟩

end SourceUnit

end CrateFold
