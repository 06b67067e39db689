import Mathlib.Data.List.Basic
import Mathlib.Data.List.TakeWhile
import CrateFold.ModulePath.Trail
import CrateFold.Proofs.Outcomes

/-!
The text of a path. Reading accepts white space only, or segments with `::` between them and white space
around them (`Written`), refuses a leading `::` as unsupported and everything else as a bad segment
(`parse_eq_ok_iff`, `parse_unsupported_iff`, `parse_invalid_iff`). Segments hold neither white space nor
colons, so the text of a path whose segments are segments reads back as that path (`parse_text`), and
whatever is done with paths that were read keeps their segments so (`Reachable.isValid`).
-/
namespace CrateFold

namespace Text

variable {lead body trail piece rest : List Char} {c : Char}

/-! ### Characters -/

/-- The code points of a table, one by one. -/
def Ranges.codes (r : Ranges) : List Nat := r.flatMap fun (low, high) => List.range' low (high + 1 - low)

theorem Ranges.mem_codes {r : Ranges} {n : Nat} (listed : r.has n = true) : n ∈ r.codes := by
  induction r with
  | nil => simp [has] at listed
  | cons range more ih =>
    obtain ⟨low, high⟩ := range
    simp only [has] at listed
    by_cases below : n < low
    · simp [below] at listed
    · simp only [below, if_false, Bool.or_eq_true, decide_eq_true_eq] at listed
      rw [codes, List.flatMap_cons, List.mem_append]
      rcases listed with within | later
      · left
        rw [List.mem_range'_1]
        omega
      · right
        exact ih later

/-- White space is no part of a name, nor of what may stand in front of one. -/
theorem isBlank_cases (blank : isBlank c = true) : isWord c = false ∧ c ∉ [':', '*', '$', '#'] := by
  have all : ∀ n ∈ blanks.codes, isWord (Char.ofNat n) = false ∧ Char.ofNat n ∉ [':', '*', '$', '#'] := by
    decide +kernel
  have here := all c.toNat (Ranges.mem_codes blank)
  rwa [Char.ofNat_toNat] at here

theorem isWord_of_isName {name : List Char} (named : isName name = true) : ∀ c ∈ name, isWord c = true := by
  intro c member
  cases name with
  | nil => cases member
  | cons first more =>
    simp only [isName, isWordStart, Bool.and_eq_true, List.all_eq_true] at named
    rcases List.mem_cons.mp member with rfl | later
    · exact named.1.1
    · exact named.2 c later

theorem isName_ne_nil {name : List Char} (named : isName name = true) : name ≠ [] := by
  rintro rfl
  cases named

/-! ### Trimming -/

/-- White space only. -/
def Blank (l : List Char) : Prop := ∀ c ∈ l, isBlank c = true

theorem blank_nil : Blank [] := by
  intro c member
  cases member

theorem Blank.append (first : Blank lead) (last : Blank trail) : Blank (lead ++ trail) := by
  intro c member
  rcases List.mem_append.mp member with left | right
  · exact first c left
  · exact last c right

/-- A text that neither starts nor ends with white space. -/
def Tight (l : List Char) : Prop :=
  (∀ c ∈ l.head?, isBlank c = false) ∧ ∀ c ∈ l.reverse.head?, isBlank c = false

theorem dropWhile_of_blank (blank : Blank lead) (tight : ∀ c ∈ body.head?, isBlank c = false) :
    (lead ++ body).dropWhile isBlank = body := by
  rw [List.dropWhile_append_of_pos blank]
  cases body with
  | nil => rfl
  | cons c more => rw [List.dropWhile_cons_of_neg (by simp [tight c rfl])]

theorem trim_around (first : Blank lead) (last : Blank trail) (tight : Tight body) :
    trim (lead ++ body ++ trail) = body := by
  have back : Blank trail.reverse := fun c member => last c (List.mem_reverse.mp member)
  rw [trim, trimEnd, dropEndWhile]
  cases body with
  | nil =>
    have front := dropWhile_of_blank (first.append last) tight.1
    simp only [List.append_nil] at front ⊢
    rw [front]
    rfl
  | cons c more =>
    rw [List.append_assoc, dropWhile_of_blank first (by simpa using tight.1), List.reverse_append,
      dropWhile_of_blank back tight.2, List.reverse_reverse]

theorem exists_of_trim (l : List Char) : ∃ lead trail, l = lead ++ trim l ++ trail ∧ Blank lead ∧ Blank trail := by
  have blank : ∀ l : List Char, Blank (l.takeWhile isBlank) := fun l c member => List.mem_takeWhile_imp member
  have front := List.takeWhile_append_dropWhile (p := isBlank) (l := l)
  have back := List.takeWhile_append_dropWhile (p := isBlank) (l := (l.dropWhile isBlank).reverse)
  refine ⟨l.takeWhile isBlank, ((l.dropWhile isBlank).reverse.takeWhile isBlank).reverse, ?_, blank l, ?_⟩
  · rw [trim, trimEnd, dropEndWhile, List.append_assoc, ← List.reverse_append, back, List.reverse_reverse, front]
  · intro c member
    exact blank _ c (List.mem_reverse.mp member)

/-! ### Splitting -/

theorem splitAtColons_ne_nil (l : List Char) : splitAtColons l ≠ [] := by
  unfold splitAtColons
  split
  · simp
  · simp
  · next c rest other =>
    cases splitAtColons rest <;> simp [consFirst]

theorem intercalate_consFirst (c : Char) (pieces : List (List Char)) (nonempty : pieces ≠ []) :
    [':', ':'].intercalate (consFirst c pieces) = c :: [':', ':'].intercalate pieces := by
  match pieces with
  | [] => exact absurd rfl nonempty
  | [piece] => simp [consFirst]
  | piece :: next :: more => simp [consFirst, List.intercalate_cons_cons]

theorem intercalate_splitAtColons (l : List Char) : [':', ':'].intercalate (splitAtColons l) = l := by
  fun_induction splitAtColons l with
  | case1 => simp
  | case2 rest ih =>
    obtain ⟨piece, more, split⟩ := List.exists_cons_of_ne_nil (splitAtColons_ne_nil rest)
    rw [split] at ih ⊢
    rw [List.intercalate_cons_cons, ih]
    rfl
  | case3 c rest other ih => rw [intercalate_consFirst c _ (splitAtColons_ne_nil rest), ih]

theorem splitAtColons_cons (plain : c ≠ ':') (l : List Char) :
    splitAtColons (c :: l) = consFirst c (splitAtColons l) := by
  rw [splitAtColons]
  rintro rest rfl
  exact absurd rfl plain

theorem splitAtColons_plain (plain : ':' ∉ piece) : splitAtColons piece = [piece] := by
  induction piece with
  | nil => rfl
  | cons c more ih =>
    rw [List.mem_cons, not_or] at plain
    rw [splitAtColons_cons (Ne.symm plain.1), ih plain.2]
    rfl

theorem splitAtColons_append (plain : ':' ∉ piece) :
    splitAtColons (piece ++ ':' :: ':' :: rest) = piece :: splitAtColons rest := by
  induction piece with
  | nil => simp [splitAtColons]
  | cons c more ih =>
    rw [List.mem_cons, not_or] at plain
    rw [List.cons_append, splitAtColons_cons (Ne.symm plain.1), ih plain.2]
    rfl

end Text

namespace ModulePath

open Text

variable {s : String} {p q : ModulePath} {lead body trail seg : List Char} {segs : List (List Char)}

/-! ### Segments -/

/-- A segment: a name, a raw name, a variable of a pattern or the glob. -/
inductive Segment : List Char → Prop where
  | name {n : List Char} (named : isName n = true) : Segment n
  | raw {n : List Char} (named : isName n = true) : Segment ('r' :: '#' :: n)
  | pattern {n : List Char} (named : isName n = true) : Segment ('$' :: n)
  | glob : Segment ['*']

theorem isSegment_iff : isSegment seg = true ↔ Segment seg := by
  constructor
  · intro accepted
    unfold isSegment at accepted
    split at accepted
    · exact .glob
    · exact .pattern accepted
    · exact .raw accepted
    · exact .name accepted
  · intro segment
    cases segment with
    | glob => rfl
    | pattern named => exact named
    | raw named => exact named
    | name named =>
      unfold isSegment
      split
      · rfl
      · next rest => exact absurd (isWord_of_isName named '$' (by simp)) (by decide)
      · next rest => exact absurd (isWord_of_isName named '#' (by simp)) (by decide)
      · exact named

/-- What stands in a segment: word characters and the marks of its form. -/
theorem Segment.chars (segment : Segment seg) : ∀ c ∈ seg, isWord c = true ∨ c ∈ ['*', '$', '#'] := by
  intro c member
  cases segment with
  | name named => exact .inl (isWord_of_isName named c member)
  | raw named =>
    rcases List.mem_cons.mp member with rfl | member
    · exact .inl (by decide)
    · rcases List.mem_cons.mp member with rfl | member
      · exact .inr (by decide)
      · exact .inl (isWord_of_isName named c member)
  | pattern named =>
    rcases List.mem_cons.mp member with rfl | member
    · exact .inr (by decide)
    · exact .inl (isWord_of_isName named c member)
  | glob => exact .inr (by simp_all)

theorem Segment.solid (segment : Segment seg) : ∀ c ∈ seg, isBlank c = false := by
  intro c member
  rw [← Bool.not_eq_true]
  intro blank
  obtain ⟨word, mark⟩ := isBlank_cases blank
  rcases segment.chars c member with isWord | isMark
  · simp [word] at isWord
  · exact mark (List.mem_cons_of_mem _ isMark)

theorem Segment.plain (segment : Segment seg) : ':' ∉ seg := by
  intro member
  rcases segment.chars ':' member with isWord | isMark
  · exact absurd isWord (by decide)
  · exact absurd isMark (by decide)

theorem Segment.ne_nil (segment : Segment seg) : seg ≠ [] := by
  cases segment with
  | name named => exact isName_ne_nil named
  | raw _ | pattern _ | glob => simp

theorem Segment.tight (segment : Segment seg) : Tight seg := by
  constructor
  · intro c first
    exact segment.solid c (List.mem_of_mem_head? first)
  · intro c last
    exact segment.solid c (List.mem_reverse.mp (List.mem_of_mem_head? last))

theorem not_colon_of_blank (blank : Blank lead) : ':' ∉ lead := by
  intro member
  exact absurd (blank ':' member) (by decide)

/-! ### Texts of paths -/

/-- Segments with `::` between them, and white space around each `::`. -/
inductive Spaced : List Char → List (List Char) → Prop where
  | last {seg : List Char} (segment : Segment seg) : Spaced seg [seg]
  | next {seg before after rest : List Char} {segs : List (List Char)} (segment : Segment seg) (left : Blank before)
      (right : Blank after) (more : Spaced rest segs) :
      Spaced (seg ++ before ++ ':' :: ':' :: (after ++ rest)) (seg :: segs)

/-- The texts that stand for a path: white space only, or spaced segments with white space around them. -/
inductive Written : List Char → ModulePath → Prop where
  | blank {text : List Char} (nothing : Blank text) : Written text empty
  | path {lead body trail : List Char} {segs : List (List Char)} (left : Blank lead) (right : Blank trail)
      (spaced : Spaced body segs) : Written (lead ++ body ++ trail) ⟨segs.map String.ofList⟩

theorem Spaced.segments (spaced : Spaced body segs) : ∀ seg ∈ segs, Segment seg := by
  induction spaced with
  | last segment => simpa using segment
  | next segment _ _ _ ih => simpa using ⟨segment, ih⟩

theorem Spaced.head (spaced : Spaced body segs) : ∃ seg rest, Segment seg ∧ body = seg ++ rest := by
  cases spaced with
  | last segment => exact ⟨body, [], segment, by simp⟩
  | next segment _ _ _ => exact ⟨_, _, segment, List.append_assoc ..⟩

theorem Spaced.ends (spaced : Spaced body segs) : ∃ seg front, Segment seg ∧ body = front ++ seg := by
  induction spaced with
  | @last seg segment => exact ⟨seg, [], segment, by simp⟩
  | @next seg before after rest segs segment left right more ih =>
    obtain ⟨final, front, isSegment, same⟩ := ih
    exact ⟨final, seg ++ before ++ ':' :: ':' :: (after ++ front), isSegment, by simp [same]⟩

theorem Spaced.tight (spaced : Spaced body segs) : Tight body := by
  constructor
  · obtain ⟨seg, rest, segment, rfl⟩ := spaced.head
    intro c first
    rw [List.head?_append_of_ne_nil _ segment.ne_nil] at first
    exact segment.tight.1 c first
  · obtain ⟨seg, front, segment, rfl⟩ := spaced.ends
    intro c last
    rw [List.reverse_append, List.head?_append_of_ne_nil _ (by simpa using segment.ne_nil)] at last
    exact segment.tight.2 c last

/-- Splitting finds the segments again, whatever white space leads. -/
theorem Spaced.pieces (spaced : Spaced body segs) : ∀ {lead : List Char}, Blank lead →
    (splitAtColons (lead ++ body)).map trim = segs := by
  induction spaced with
  | @last seg segment =>
    intro lead blank
    have plain : ':' ∉ lead ++ seg := by simp [not_colon_of_blank blank, segment.plain]
    have trimmed := trim_around blank blank_nil segment.tight
    rw [List.append_nil] at trimmed
    rw [splitAtColons_plain plain, List.map_singleton, trimmed]
  | @next seg before after rest segs segment left right more ih =>
    intro lead blank
    have plain : ':' ∉ lead ++ seg ++ before := by
      simp [not_colon_of_blank blank, segment.plain, not_colon_of_blank left]
    rw [← List.append_assoc, ← List.append_assoc, splitAtColons_append plain, List.map_cons,
      trim_around blank left segment.tight, ih right]

/-- Pieces that are segments with white space around them make up a text of spaced segments. -/
theorem spaced_of_pieces : ∀ pieces : List (List Char), pieces ≠ [] → (∀ piece ∈ pieces, Segment (trim piece)) →
    ∃ lead body trail, [':', ':'].intercalate pieces = lead ++ body ++ trail ∧ Blank lead ∧ Blank trail ∧
      Spaced body (pieces.map trim)
  | [], nonempty, _ => absurd rfl nonempty
  | [piece], _, all => by
    obtain ⟨lead, trail, same, left, right⟩ := exists_of_trim piece
    exact ⟨lead, trim piece, trail, by rw [List.intercalate_singleton]; exact same, left, right,
      .last (all piece (by simp))⟩
  | piece :: next :: more, _, all => by
    obtain ⟨lead, before, same, left, around⟩ := exists_of_trim piece
    obtain ⟨after, rest, trail, later, right, final, spaced⟩ :=
      spaced_of_pieces (next :: more) (by simp) (fun other member => all other (List.mem_cons_of_mem _ member))
    refine ⟨lead, trim piece ++ before ++ ':' :: ':' :: (after ++ rest), trail, ?_, left, final,
      .next (all piece (by simp)) around right spaced⟩
    calc [':', ':'].intercalate (piece :: next :: more)
        = piece ++ [':', ':'] ++ (after ++ rest ++ trail) := by rw [List.intercalate_cons_cons, later]
      _ = lead ++ trim piece ++ before ++ [':', ':'] ++ (after ++ rest ++ trail) := by rw [← same]
      _ = lead ++ (trim piece ++ before ++ ':' :: ':' :: (after ++ rest)) ++ trail := by simp

/-! ### Reading -/

theorem trim_eq_nil_iff {l : List Char} : trim l = [] ↔ Blank l := by
  constructor
  · intro nothing
    obtain ⟨lead, trail, same, left, right⟩ := exists_of_trim l
    rw [nothing, List.append_nil] at same
    rw [same]
    exact left.append right
  · intro blank
    have tight : Tight [] := by simp [Tight]
    simpa using trim_around blank blank_nil tight

/-- What reading a text comes to: the empty path, a refusal of a leading `::`, the path of the pieces, or the refusal of
the first piece that is no segment. -/
inductive Reading (s : String) : Except Fault ModulePath → Prop where
  | blank (nothing : Blank s.toList) : Reading s (.ok empty)
  | leading (led : [':', ':'] <+: trim s.toList) :
      Reading s (.error (.bundle (leadingSeparator (String.ofList (trim s.toList)))))
  | path (unled : ¬ [':', ':'] <+: trim s.toList) (all : ∀ piece ∈ splitAtColons (trim s.toList), Segment (trim piece)) :
      Reading s (.ok ⟨((splitAtColons (trim s.toList)).map trim).map String.ofList⟩)
  | bad {piece : List Char} (unled : ¬ [':', ':'] <+: trim s.toList) (nonblank : ¬ Blank s.toList)
      (member : piece ∈ splitAtColons (trim s.toList)) (refused : ¬ Segment (trim piece)) :
      Reading s (.error (.invalidSegment (String.ofList (trim piece)) (String.ofList (trim s.toList))))

theorem parse_reading (s : String) : Reading s (parse s) := by
  unfold parse
  dsimp only
  split
  · next nothing => exact .blank (trim_eq_nil_iff.mp (List.isEmpty_iff.mp nothing))
  · next something =>
    have nonblank : ¬ Blank s.toList := by
      rw [← trim_eq_nil_iff]
      simpa using something
    split
    · next led => exact .leading (List.isPrefixOf_iff_prefix.mp led)
    · next apart =>
      have unled : ¬ [':', ':'] <+: trim s.toList := fun led => apart (List.isPrefixOf_iff_prefix.mpr led)
      split
      · next piece found =>
        obtain ⟨raw, member, rfl⟩ := List.mem_map.mp (List.mem_of_find?_eq_some found)
        refine .bad unled nonblank member ?_
        rw [← isSegment_iff]
        simpa using List.find?_some found
      · next accepted =>
        refine .path unled fun piece member => ?_
        have fine := List.find?_eq_none.mp accepted (trim piece) (List.mem_map_of_mem member)
        exact isSegment_iff.mp (by simpa using fine)

/-- Text that stands for a path does not start with `::` behind its white space. -/
theorem Spaced.unled (spaced : Spaced body segs) : ¬ [':', ':'] <+: body := by
  obtain ⟨seg, rest, segment, rfl⟩ := spaced.head
  obtain ⟨c, others, rfl⟩ := List.exists_cons_of_ne_nil segment.ne_nil
  rintro ⟨more, same⟩
  have first : ':' = c := (List.cons.inj same).1
  exact segment.plain (by rw [first]; exact List.mem_cons_self ..)

theorem Reading.written {result : Except Fault ModulePath} (reading : Reading s result) (read : result = .ok p) :
    Written s.toList p := by
  cases reading with
  | blank nothing =>
    cases read
    exact .blank nothing
  | leading _ => cases read
  | bad _ _ _ _ => cases read
  | path _ all =>
    cases read
    obtain ⟨lead, trail, outer, left, right⟩ := exists_of_trim s.toList
    obtain ⟨before, body, after, inner, first, last, spaced⟩ := spaced_of_pieces _ (splitAtColons_ne_nil _) all
    rw [intercalate_splitAtColons] at inner
    have whole := Written.path (left.append first) (last.append right) spaced
    have text : lead ++ before ++ body ++ (after ++ trail) = s.toList := by
      rw [outer, inner]
      simp
    rwa [text] at whole

theorem Reading.eq_ok {result : Except Fault ModulePath} {l : List Char} (reading : Reading s result)
    (text : s.toList = l) (written : Written l p) : result = .ok p := by
  cases written with
  | blank nothing =>
    rw [← text] at nothing
    have empty := trim_eq_nil_iff.mpr nothing
    cases reading with
    | blank _ => rfl
    | leading led => simp [empty] at led
    | path _ all => exact absurd rfl (all [] (by simp [empty, splitAtColons])).ne_nil
    | bad _ nonblank _ _ => exact absurd nothing nonblank
  | @path lead body trail segs left right spaced =>
    have trimmed : trim s.toList = body := by rw [text, trim_around left right spaced.tight]
    have pieces := spaced.pieces blank_nil
    rw [List.nil_append, ← trimmed] at pieces
    cases reading with
    | blank nothing =>
      obtain ⟨seg, rest, segment, rfl⟩ := spaced.head
      rw [trim_eq_nil_iff.mpr nothing] at trimmed
      simp [segment.ne_nil] at trimmed
    | leading led => exact absurd (trimmed ▸ led) spaced.unled
    | path _ _ => rw [pieces]
    | bad _ _ member refused =>
      refine absurd (spaced.segments _ ?_) refused
      rw [← pieces]
      exact List.mem_map_of_mem member

theorem parse_eq_ok_iff : parse s = .ok p ↔ Written s.toList p := by
  constructor
  · intro parsed
    exact (parse_reading s).written parsed
  · intro written
    exact (parse_reading s).eq_ok rfl written

/-- A leading `::` is refused with an error of the run, and nothing else is. -/
theorem parse_eq_bundle_iff {error : BundleError} : parse s = .error (.bundle error) ↔
    [':', ':'] <+: trim s.toList ∧ error = leadingSeparator (String.ofList (trim s.toList)) := by
  have reading := parse_reading s
  generalize parse s = result at reading
  constructor
  · rintro rfl
    cases reading with
    | leading led => exact ⟨led, rfl⟩
  · rintro ⟨led, rfl⟩
    cases reading with
    | blank nothing => simp [trim_eq_nil_iff.mpr nothing] at led
    | leading _ => rfl
    | path unled _ => exact absurd led unled
    | bad unled _ _ _ => exact absurd led unled

theorem parse_unsupported_iff :
    (∃ error : BundleError, error.problem = .unsupported ∧ parse s = .error (.bundle error)) ↔
      [':', ':'] <+: trim s.toList := by
  constructor
  · rintro ⟨error, -, refused⟩
    exact (parse_eq_bundle_iff.mp refused).1
  · intro led
    exact ⟨leadingSeparator (String.ofList (trim s.toList)), rfl, parse_eq_bundle_iff.mpr ⟨led, rfl⟩⟩

/-- All that is neither a path nor refused as unsupported has a bad segment. -/
theorem parse_invalid_iff :
    (∃ segment path, parse s = .error (.invalidSegment segment path)) ↔
      (∀ p, ¬ Written s.toList p) ∧ ¬ [':', ':'] <+: trim s.toList := by
  constructor
  · rintro ⟨segment, path, refused⟩
    constructor
    · intro p written
      rw [parse_eq_ok_iff.mpr written] at refused
      cases refused
    · intro led
      rw [parse_eq_bundle_iff.mpr ⟨led, rfl⟩] at refused
      cases refused
  · rintro ⟨unwritten, unled⟩
    have reading := parse_reading s
    generalize read : parse s = result at reading
    cases reading with
    | bad _ _ _ _ => exact ⟨_, _, rfl⟩
    | leading led => exact absurd led unled
    | blank _ => exact absurd (parse_eq_ok_iff.mp read) (unwritten _)
    | path _ _ => exact absurd (parse_eq_ok_iff.mp read) (unwritten _)

/-! ### Valid paths -/

theorem isValid_iff : p.IsValid ↔ ∀ segment ∈ p.segments, Segment segment.toList := by
  simp only [IsValid, isSegment_iff]

theorem Written.isValid {l : List Char} (written : Written l p) : p.IsValid := by
  rw [isValid_iff]
  intro segment member
  cases written with
  | blank _ => cases member
  | path _ _ spaced =>
    obtain ⟨seg, found, rfl⟩ := List.mem_map.mp member
    simpa using spaced.segments seg found

theorem isValid_of_parse (parsed : parse s = .ok p) : p.IsValid := (parse_eq_ok_iff.mp parsed).isValid

theorem spaced_of_segments : ∀ {segs : List (List Char)}, segs ≠ [] → (∀ seg ∈ segs, Segment seg) →
    Spaced ([':', ':'].intercalate segs) segs
  | [], nonempty, _ => absurd rfl nonempty
  | [seg], _, all => by
    rw [List.intercalate_singleton]
    exact .last (all seg (by simp))
  | seg :: next :: more, _, all => by
    have rest : Spaced ([':', ':'].intercalate (next :: more)) (next :: more) :=
      spaced_of_segments (by simp) (fun other member => all other (List.mem_cons_of_mem _ member))
    have whole := Spaced.next (all seg (by simp)) blank_nil blank_nil rest
    rw [List.intercalate_cons_cons]
    simpa using whole

/-- The text of a valid path reads back as the path. -/
theorem parse_text (valid : p.IsValid) : parse p.text = .ok p := by
  obtain ⟨segments⟩ := p
  have chars : (ModulePath.text ⟨segments⟩).toList = [':', ':'].intercalate (segments.map String.toList) :=
    String.toList_intercalate
  rw [parse_eq_ok_iff, chars]
  by_cases none : segments = []
  · subst none
    exact .blank blank_nil
  · have all : ∀ seg ∈ segments.map String.toList, Segment seg := by
      intro seg member
      obtain ⟨segment, found, rfl⟩ := List.mem_map.mp member
      exact isValid_iff.mp valid segment found
    have whole := Written.path blank_nil blank_nil (spaced_of_segments (by simpa using none) all)
    simpa [Function.comp_def] using whole

/-- Valid paths are told apart by their texts. -/
theorem text_inj (left : p.IsValid) (right : q.IsValid) : p = q ↔ p.text = q.text := by
  constructor
  · rintro rfl
    rfl
  · intro same
    have again := parse_text left
    rw [same, parse_text right] at again
    exact (Except.ok.inj again).symm

theorem IsValid.join (left : p.IsValid) (right : q.IsValid) : (p.join q).IsValid := by
  unfold ModulePath.join
  split
  · exact right
  · intro segment member
    rcases List.mem_append.mp member with inner | outer
    · exact left segment inner
    · exact right segment outer

theorem IsValid.suffix (valid : p.IsValid) : p.suffix.IsValid := by
  intro segment member
  exact valid segment (List.mem_of_mem_drop member)

theorem IsValid.parent (valid : p.IsValid) : p.parent.IsValid := by
  intro segment member
  exact valid segment (List.dropLast_subset _ member)

theorem IsValid.pop (valid : p.IsValid) : p.pop.IsValid := by
  unfold ModulePath.pop pop?
  split
  · exact valid
  · exact valid.parent

theorem IsValid.joinText {r : ModulePath} (valid : p.IsValid) (joined : p.joinText s = .ok r) : r.IsValid := by
  obtain ⟨q, parsed, result⟩ := bind_eq_ok.mp joined
  cases result
  exact valid.join (isValid_of_parse parsed)

end ModulePath

namespace KeptPath

open ModulePath

variable {k : KeptPath}

/-! ### Everything that is done with paths -/

/-- What can be done with a kept path, apart from looking at it. -/
inductive Operation where
  | push (s : String)
  | pushPath (other : KeptPath)
  | pop
  | join (s : String)
  | joinPath (other : KeptPath)
  | suffix
  | parent
  | toTrail
  | toKey
  | ofSegments (segments : List String)

/-- The other path that an operation takes. -/
def Operation.other? : Operation → Option KeptPath
  | .pushPath other | .joinPath other => some other
  | _ => none

/-- The path that an operation gives, which for a push or a pop is the same path afterwards. -/
def apply (k : KeptPath) : Operation → Except Fault KeptPath
  | .push s => k.push s
  | .pushPath other =>
    match k with
    | .key _ => .error .pushedKey
    | .trail p => .ok (.trail (p.join other.path))
  | .pop => Prod.snd <$> k.pop
  | .join s => key <$> k.path.joinText s
  | .joinPath other => .ok (.key (k.path.join other.path))
  | .suffix => .ok (.key k.path.suffix)
  | .parent => .ok (.key k.path.parent)
  | .toTrail => .ok (.trail k.path)
  | .toKey => .ok (.key k.path)
  | .ofSegments segments => k.replace <$> ModulePath.ofSegments segments

/-- The path to go on with: the one that the operation gives, or the one before if it is refused. -/
def after (k : KeptPath) (operation : Operation) : KeptPath :=
  match k.apply operation with
  | .ok next => next
  | .error _ => k

/-- The paths that can be made: those that are read, and those that operations make of such paths. -/
inductive Reachable : KeptPath → Prop where
  | start {k : KeptPath} (s : String) (parsed : parse s = .ok k.path) : Reachable k
  | after {k : KeptPath} (operation : Operation) (before : Reachable k)
      (argument : ∀ other, operation.other? = some other → Reachable other) : Reachable (k.after operation)

@[simp] theorem path_replace (k : KeptPath) (p : ModulePath) : (k.replace p).path = p := by
  cases k <;> rfl

/-- An operation on valid paths gives a valid path. -/
theorem isValid_apply {operation : Operation} {next : KeptPath} (valid : k.path.IsValid)
    (argument : ∀ other, operation.other? = some other → other.path.IsValid)
    (applied : k.apply operation = .ok next) : next.path.IsValid := by
  cases operation with
  | push s =>
    cases k with
    | key p => cases applied
    | trail p =>
      obtain ⟨joined, made, rfl⟩ := map_eq_ok.mp applied
      exact IsValid.joinText valid made
  | pushPath other =>
    cases k with
    | key p => cases applied
    | trail p =>
      cases applied
      exact IsValid.join valid (argument other rfl)
  | pop =>
    cases k with
    | key p => cases applied
    | trail p =>
      cases applied
      exact IsValid.pop valid
  | join s =>
    obtain ⟨joined, made, rfl⟩ := map_eq_ok.mp applied
    exact IsValid.joinText valid made
  | joinPath other =>
    cases applied
    exact valid.join (argument other rfl)
  | suffix =>
    cases applied
    exact valid.suffix
  | parent =>
    cases applied
    exact valid.parent
  | toTrail | toKey =>
    cases applied
    exact valid
  | ofSegments segments =>
    obtain ⟨made, parsed, rfl⟩ := map_eq_ok.mp applied
    rw [path_replace]
    exact isValid_of_parse parsed

theorem Reachable.isValid (reachable : Reachable k) : k.path.IsValid := by
  induction reachable with
  | start s parsed => exact isValid_of_parse parsed
  | @after k operation before argument valid others =>
    unfold KeptPath.after
    split
    · next next applied => exact isValid_apply valid others applied
    · exact valid

/-- Reading accepts exactly the texts that stand for a path; a leading `::` is unsupported, all else is a bad
segment. A path that was made of such paths in any way has segments only, and its text stands for it. -/
theorem text_format :
    (∀ s p, parse s = .ok p ↔ Written s.toList p) ∧
      (∀ s, (∃ error : BundleError, error.problem = .unsupported ∧ parse s = .error (.bundle error)) ↔
        [':', ':'] <+: Text.trim s.toList) ∧
      (∀ s, (∃ segment path, parse s = .error (.invalidSegment segment path)) ↔
        (∀ p, ¬ Written s.toList p) ∧ ¬ [':', ':'] <+: Text.trim s.toList) ∧
      ∀ k, Reachable k →
        (∀ segment ∈ k.path.segments, Segment segment.toList) ∧ parse k.path.text = .ok k.path ∧
          ModulePath.ofSegments k.path.segments = .ok k.path ∧
          ∀ other, Reachable other → (k.path = other.path ↔ k.path.text = other.path.text) := by
  refine ⟨fun s p => parse_eq_ok_iff, fun s => parse_unsupported_iff, fun s => parse_invalid_iff, ?_⟩
  intro k reachable
  have valid := reachable.isValid
  refine ⟨isValid_iff.mp valid, parse_text valid, parse_text valid, ?_⟩
  intro other made
  exact text_inj valid made.isValid

/-- A walk that enters two modules at once and is then refused a third. -/
def walked : KeptPath := ((trail ⟨["crate", "a"]⟩).after (.push " b ::\tr#c ")).after (.push "::d")

theorem text_format_walked :
    walked = .trail ⟨["crate", "a", "b", "r#c"]⟩ ∧ parse walked.path.text = .ok walked.path ∧
      (walked.path = (key ⟨["crate"]⟩).path ↔ walked.path.text = (key ⟨["crate"]⟩).path.text) := by
  have start : Reachable (trail ⟨["crate", "a"]⟩) := .start "crate :: a" (by decide +kernel)
  have reachable : Reachable walked :=
    .after _ (.after _ start (fun _ none => nomatch none)) (fun _ none => nomatch none)
  have root : Reachable (key ⟨["crate"]⟩) := .start "crate" (by decide +kernel)
  obtain ⟨-, -, -, made⟩ := text_format
  obtain ⟨-, again, -, apart⟩ := made walked reachable
  exact ⟨by decide +kernel, again, apart _ root⟩

end KeptPath

end CrateFold
