import CrateFold.Proofs.Boundaries
import Mathlib.Order.Bounds.Basic

/-!
What bytes are read as, whatever they are. A byte starts a piece (`Starts`) or follows what is open (`Follows`); from these
two come all facts on whole byte strings. What a text is written as is read back character by character
(`pieces_encode`), so that the bytes read without an invalid run are those of the texts (`valid_iff_isText`). The first
invalid run begins where the longest text that the bytes start with ends (`firstRun_of_invalid?`). A line end breaks off
what is open, so that each line is read as it is by itself (`decodeLossy_newline`).
-/
namespace CrateFold.Utf8

variable {o : Opened} {read l x y : Bytes} {b : UInt8} {v : Nat}

/-! ### What one byte does -/

theorem Begun.spells (begun : Begun (some o) read) : Spells o read := by
  cases begun with
  | part spells => exact spells

/-- What the first byte of a piece may be: a character, a byte that starts none, or the opening of one. -/
inductive Starts (b : UInt8) : Prop where
  | char (small : b.toNat < 0x80) (same : first b = ([.char (Char.ofNat b.toNat) 1], none))
  | invalid (high : 0x80 ≤ b.toNat) (same : first b = ([.invalid 1 .start], none))
  | opens (o : Opened) (high : 0x80 ≤ b.toNat) (same : first b = ([], some o)) (taken : o.taken = 1)
      (spells : Spells o [b])

theorem starts (b : UInt8) : Starts b := by
  by_cases small : b.toNat < 0x80
  · refine .char small ?_
    rw [first, if_pos (UInt8.lt_iff_toNat_lt.mpr small)]
  have high : 0x80 ≤ b.toNat := Nat.le_of_not_lt small
  have known : first b = ([.invalid 1 .start], none) ∨ ∃ o, first b = ([], some o) ∧ o.taken = 1 := by
    rw [first, if_neg fun less => small (UInt8.lt_iff_toNat_lt.mp less)]
    repeat' split
    all_goals simp
  rcases known with stray | ⟨o, same, taken⟩
  · exact .invalid high stray
  · obtain ⟨part, whole, begun⟩ := first_reads (b := b) (by simp [same])
    rw [same] at whole begun
    exact .opens o high same taken (by simpa [written, ← whole] using begun.spells)

/-- What a byte may do behind an open character: complete it, continue it, or break it off. -/
inductive Follows (o : Opened) (read : Bytes) (b : UInt8) : Prop where
  | completes (c : Char) (same : step (some o) b = ([.char c (o.taken + 1)], none))
      (bytes : String.utf8EncodeChar c = read ++ [b])
  | continues (more : Opened) (high : 0x80 ≤ b.toNat) (same : step (some o) b = ([], some more))
      (taken : more.taken = o.taken + 1) (spells : Spells more (read ++ [b]))
  | breaks (same : step (some o) b = (.invalid o.taken .continuation :: (first b).1, (first b).2))

theorem follows (spells : Spells o read) (b : UInt8) : Follows o read b := by
  by_cases within : (o.low ≤ b && b ≤ o.high) = true
  · by_cases last : o.owed ≤ 1
    · have same : step (some o) b = ([.char (Char.ofNat (o.value * 64 + (b.toNat - 0x80))) (o.taken + 1)], none) := by
        rw [step, if_pos within, if_pos last]
      obtain ⟨part, whole, begun⟩ := step_reads (b := b) (.part spells) (by simp [same, Piece.valid])
      rw [same] at whole begun
      cases begun
      exact .completes _ same (by simpa [written, Piece.shown] using whole)
    · have same : step (some o) b = ([], some ⟨o.owed - 1, 0x80, 0xBF, o.value * 64 + (b.toNat - 0x80), o.taken + 1⟩) := by
        rw [step, if_pos within, if_neg last]
      obtain ⟨part, whole, begun⟩ := step_reads (b := b) (.part spells) (by simp [same])
      rw [same] at whole begun
      have low := spells.low
      simp only [Bool.and_eq_true, decide_eq_true_eq, UInt8.le_iff_toNat_le] at within
      exact .continues _ (by omega) same rfl (by simpa [written, ← whole] using begun.spells)
  · exact .breaks (by rw [step, if_neg within])

/-- A byte below 128 breaks an open character off. -/
theorem step_ascii (spells : Spells o read) (small : b.toNat < 0x80) :
    step (some o) b = ([.invalid o.taken .continuation, .char (Char.ofNat b.toNat) 1], none) := by
  have outside : ¬(o.low ≤ b && b ≤ o.high) = true := by
    have low := spells.low
    simp only [Bool.and_eq_true, decide_eq_true_eq, UInt8.le_iff_toNat_le]
    omega
  have single : first b = ([.char (Char.ofNat b.toNat) 1], none) := by
    rw [first, if_pos (UInt8.lt_iff_toNat_lt.mpr small)]
  rw [step, if_neg outside, single]

theorem piecesFrom_cons (opened : Option Opened) (b : UInt8) (l : Bytes) :
    piecesFrom opened (b :: l) = (step opened b).1 ++ piecesFrom (step opened b).2 l := by
  cases opened <;> rfl

theorem step_begun {opened : Option Opened} (begun : Begun opened read) (b : UInt8) :
    ∃ part, Begun (step opened b).2 part := by
  have fresh : ∃ part, Begun (first b).2 part := by
    cases starts b with
    | char _ same => exact ⟨[], same ▸ .nothing⟩
    | invalid _ same => exact ⟨[], same ▸ .nothing⟩
    | opens o _ same _ spells => exact ⟨[b], same ▸ .part spells⟩
  cases begun with
  | nothing => exact fresh
  | @part o read spells =>
    cases follows spells b with
    | completes _ same _ => exact ⟨[], same ▸ .nothing⟩
    | continues _ _ same _ more => exact ⟨read ++ [b], same ▸ .part more⟩
    | breaks same => exact same ▸ fresh

/-! ### Characters read back -/

/-- The first group of a value within the bounds of an open character is a byte that continues it. -/
theorem group_within {count x : Nat} (low : 0x80 ≤ o.low.toNat) (high : o.high.toNat ≤ 0xBF)
    (least : (o.low.toNat - 0x80) * 64 ^ count ≤ x) (most : x < (o.high.toNat - 0x7F) * 64 ^ count) :
    (UInt8.ofNat (0x80 + x / 64 ^ count % 64)).toNat = 0x80 + x / 64 ^ count ∧
      (o.low ≤ UInt8.ofNat (0x80 + x / 64 ^ count % 64) && UInt8.ofNat (0x80 + x / 64 ^ count % 64) ≤ o.high) = true := by
  have positive : 0 < 64 ^ count := Nat.pow_pos (by decide)
  have above : o.low.toNat - 0x80 ≤ x / 64 ^ count := (Nat.le_div_iff_mul_le positive).mpr least
  have below : x / 64 ^ count < o.high.toNat - 0x7F := (Nat.div_lt_iff_lt_mul positive).mpr most
  have byte : (UInt8.ofNat (0x80 + x / 64 ^ count % 64)).toNat = 0x80 + x / 64 ^ count := by
    rw [UInt8.toNat_ofNat']
    omega
  refine ⟨byte, ?_⟩
  simp only [Bool.and_eq_true, decide_eq_true_eq, UInt8.le_iff_toNat_le, byte]
  omega

/-- The groups that complete an open character within its bounds are read as that character. -/
theorem piecesFrom_groups {count x : Nat} (owed : o.owed = count + 1) (low : 0x80 ≤ o.low.toNat) (high : o.high.toNat ≤ 0xBF)
    (least : (o.low.toNat - 0x80) * 64 ^ count ≤ x) (most : x < (o.high.toNat - 0x7F) * 64 ^ count) (l : Bytes) :
    piecesFrom (some o) (groups (count + 1) x ++ l) =
      .char (Char.ofNat (o.value * 64 ^ (count + 1) + x)) (o.taken + count + 1) :: pieces l := by
  induction count generalizing o x with
  | zero =>
    obtain ⟨byte, within⟩ := group_within low high least most
    rw [groups, List.cons_append, piecesFrom_cons, step, if_pos within, if_pos (by omega), byte]
    simp [groups, pieces]
  | succ count ih =>
    obtain ⟨byte, within⟩ := group_within low high least most
    have split : x = x / 64 ^ (count + 1) * 64 ^ (count + 1) + x % 64 ^ (count + 1) := (Nat.div_add_mod' x _).symm
    have rest : groups (count + 1) x = groups (count + 1) (x % 64 ^ (count + 1)) := by
      conv => lhs; rw [split, groups_add]
    have value : (o.value * 64 + x / 64 ^ (count + 1)) * 64 ^ (count + 1) + x % 64 ^ (count + 1) =
        o.value * 64 ^ (count + 1 + 1) + x := by
      conv => rhs; rw [split]
      ring
    have short : x % 64 ^ (count + 1) < 64 * 64 ^ count := by
      rw [← pow_succ']
      exact Nat.mod_lt _ (Nat.pow_pos (by decide))
    rw [groups, List.cons_append, piecesFrom_cons, step, if_pos within, if_neg (by omega), byte, Nat.add_sub_cancel_left, rest,
      List.nil_append, ih (by simp [owed]) (by simp) (by simp) (by simp) (by simpa using short), value]
    congr 2
    change o.taken + 1 + count + 1 = o.taken + (count + 1) + 1
    omega

/-- The bytes of a character of several bytes: its first one opens it, and the groups that follow are within bounds. -/
theorem pieces_lead {count v : Nat} (same : first b = ([], some o)) (taken : o.taken = 1) (owed : o.owed = count + 1)
    (low : 0x80 ≤ o.low.toNat) (high : o.high.toNat ≤ 0xBF) (value : o.value = v / 64 ^ (count + 1))
    (least : (o.low.toNat - 0x80) * 64 ^ count ≤ v % 64 ^ (count + 1))
    (most : v % 64 ^ (count + 1) < (o.high.toNat - 0x7F) * 64 ^ count) (l : Bytes) :
    pieces (b :: groups (count + 1) v ++ l) = .char (Char.ofNat v) (count + 2) :: pieces l := by
  have split : v = v / 64 ^ (count + 1) * 64 ^ (count + 1) + v % 64 ^ (count + 1) := (Nat.div_add_mod' v _).symm
  have rest : groups (count + 1) v = groups (count + 1) (v % 64 ^ (count + 1)) := by
    conv => lhs; rw [split, groups_add]
  rw [List.cons_append, pieces, piecesFrom_cons, step, same, rest, List.nil_append,
    piecesFrom_groups owed low high least most, taken, value, ← split]
  congr 2
  omega

theorem first_two : ∀ lead < 32, 2 ≤ lead → first (UInt8.ofNat (0xC0 + lead)) = ([], some ⟨1, 0x80, 0xBF, lead, 1⟩) := by
  decide

theorem first_three : ∀ lead < 16, first (UInt8.ofNat (0xE0 + lead)) =
    ([], some ⟨2, if lead = 0 then 0xA0 else 0x80, if lead = 0xD then 0x9F else 0xBF, lead, 1⟩) := by
  decide

theorem first_four : ∀ lead < 5, first (UInt8.ofNat (0xF0 + lead)) =
    ([], some ⟨3, if lead = 0 then 0x90 else 0x80, if lead = 4 then 0x8F else 0xBF, lead, 1⟩) := by
  decide

/-- The bytes of a character are read as that character. -/
theorem pieces_encodeChar (c : Char) (l : Bytes) :
    pieces (String.utf8EncodeChar c ++ l) = .char c (String.utf8EncodeChar c).length :: pieces l := by
  obtain ⟨v, scalar, rfl⟩ : ∃ v : Nat, v.isValidChar ∧ Char.ofNat v = c := ⟨c.toNat, c.valid, c.ofNat_toNat⟩
  by_cases one : v < 0x80
  · have byte : (UInt8.ofNat v).toNat = v := by
      rw [UInt8.toNat_ofNat']
      omega
    rw [encode_one one, List.singleton_append, pieces, piecesFrom_cons, step, first,
      if_pos (UInt8.lt_iff_toNat_lt.mpr (byte.symm ▸ one)), byte]
    rfl
  by_cases two : v < 0x800
  · have lead := first_two (v / 64) (by omega) (by omega)
    have bytes : String.utf8EncodeChar (Char.ofNat v) = UInt8.ofNat (0xC0 + v / 64) :: groups 1 v := by
      simp [encode_two (by omega) two, groups]
    rw [bytes, pieces_lead lead rfl rfl (by simp) (by simp) (by simp) (by simp) (by simp; omega)]
    simp [groups]
  by_cases three : v < 0x10000
  · have lead := first_three (v / 4096) (by omega)
    have bytes : String.utf8EncodeChar (Char.ofNat v) = UInt8.ofNat (0xE0 + v / 4096) :: groups 2 v := by
      simp [encode_three (by omega) three scalar, groups]
    rw [bytes, pieces_lead lead rfl rfl (by dsimp only; split <;> decide) (by dsimp only; split <;> decide) (by simp) ?_ ?_]
    · simp [groups]
    · -- behind the lowest lead there is no value that two bytes can write
      dsimp only
      split
      · simp only [UInt8.reduceToNat]
        omega
      · simp
    · -- behind the lead of the surrogates there is none of them
      dsimp only
      unfold Nat.isValidChar at scalar
      split
      · simp only [UInt8.reduceToNat]
        omega
      · simp only [UInt8.reduceToNat]
        omega
  · have bound : v < 0x110000 := by
      unfold Nat.isValidChar at scalar
      omega
    have lead := first_four (v / 262144) (by omega)
    have bytes : String.utf8EncodeChar (Char.ofNat v) = UInt8.ofNat (0xF0 + v / 262144) :: groups 3 v := by
      simp [encode_four (by omega) bound, groups]
    rw [bytes, pieces_lead lead rfl rfl (by dsimp only; split <;> decide) (by dsimp only; split <;> decide) (by simp) ?_ ?_]
    · simp [groups]
    · dsimp only
      split
      · simp only [UInt8.reduceToNat]
        omega
      · simp
    · dsimp only
      split
      · simp only [UInt8.reduceToNat]
        omega
      · simp only [UInt8.reduceToNat]
        omega

/-- The piece that a character is read as. -/
def Piece.ofChar (c : Char) : Piece := .char c (String.utf8EncodeChar c).length

theorem pieces_encode_append (s : String) (l : Bytes) : pieces (encode s ++ l) = s.toList.map Piece.ofChar ++ pieces l := by
  rw [encode]
  induction s.toList with
  | nil => rfl
  | cons c rest ih => rw [List.flatMap_cons, List.append_assoc, pieces_encodeChar, ih, List.map_cons, List.cons_append, Piece.ofChar]

theorem pieces_encode (s : String) : pieces (encode s) = s.toList.map Piece.ofChar := by
  simpa [pieces, piecesFrom] using pieces_encode_append s []

/-- A text that is written is read back. -/
theorem decodeLossy_encode (s : String) : decodeLossy (encode s) = s := by
  rw [decodeLossy, pieces_encode, List.map_map]
  exact (congrArg String.ofList (List.map_id _)).trans String.ofList_toList

/-- Bytes that some text is written as. -/
def IsText (l : Bytes) : Prop := ∃ s : String, encode s = l

/-- The bytes that are read without an invalid run are those that texts are written as. -/
theorem valid_iff_isText : Valid l ↔ IsText l := by
  constructor
  · exact fun valid => ⟨decodeLossy l, encode_decodeLossy valid⟩
  · rintro ⟨s, rfl⟩
    rw [valid_iff, pieces_encode]
    simp [Piece.ofChar, Piece.valid]

/-! ### The bytes of each piece -/

/-- Pieces and the bytes that they stand for: a character for the bytes that it is written as, an invalid run for bytes
none of which is ASCII. -/
inductive Covers : List Piece → Bytes → Prop where
  | nil : Covers [] []
  | char {c : Char} {rest : List Piece} {l : Bytes} (later : Covers rest l) :
    Covers (.char c (String.utf8EncodeChar c).length :: rest) (String.utf8EncodeChar c ++ l)
  | invalid {run : Bytes} {reason : Reason} {rest : List Piece} {l : Bytes} (solid : run ≠ [])
    (high : ∀ b ∈ run, 0x80 ≤ b.toNat) (later : Covers rest l) : Covers (.invalid run.length reason :: rest) (run ++ l)

/-- What is open counts the bytes read of it, none of which is ASCII. -/
inductive Underway : Option Opened → Bytes → Prop where
  | nothing : Underway none []
  | part {o : Opened} {read : Bytes} (spells : Spells o read) (taken : o.taken = read.length) (solid : read ≠ [])
    (high : ∀ b ∈ read, 0x80 ≤ b.toNat) : Underway (some o) read

theorem covers_piecesFrom {opened : Option Opened} (underway : Underway opened read) (l : Bytes) :
    Covers (piecesFrom opened l) (read ++ l) := by
  induction l generalizing opened read with
  | nil =>
    cases underway with
    | nothing => exact .nil
    | part spells taken solid high =>
      rw [piecesFrom, taken]
      exact .invalid solid high .nil
  | cons b rest ih =>
    have fresh : Covers (piecesFrom none (b :: rest)) (b :: rest) := by
      rw [piecesFrom_cons, step]
      cases starts b with
      | char small same =>
        have bytes : String.utf8EncodeChar (Char.ofNat b.toNat) = [b] := by rw [encode_one small, UInt8.ofNat_toNat]
        rw [same]
        simpa [bytes] using Covers.char (c := Char.ofNat b.toNat) (ih .nothing)
      | invalid high same =>
        rw [same]
        have solid : [b] ≠ [] := by simp
        exact .invalid solid (by simpa using high) (ih .nothing)
      | opens o high same taken spells =>
        rw [same]
        exact ih (.part spells taken (by simp) (by simpa using high))
    cases underway with
    | nothing => exact fresh
    | @part o read spells taken solid high =>
      rw [piecesFrom_cons]
      cases follows spells b with
      | completes c same bytes =>
        have width : o.taken + 1 = (String.utf8EncodeChar c).length := by simp [bytes, taken]
        have whole : read ++ b :: rest = String.utf8EncodeChar c ++ rest := by simp [bytes]
        rw [same, width, whole]
        exact .char (ih .nothing)
      | continues more above same grown further =>
        rw [same, List.append_cons]
        refine ih (.part further (by simp [grown, taken]) (by simp) ?_)
        exact List.forall_mem_append.mpr ⟨high, by simpa using above⟩
      | breaks same =>
        rw [same, taken]
        exact .invalid solid high fresh

theorem covers_pieces (l : Bytes) : Covers (pieces l) l := covers_piecesFrom .nothing l

/-! ### The first invalid run -/

theorem firstInvalid_eq_some {offset : Nat} {found : List Piece} {run : Invalid} (covers : Covers found x)
    (first : firstInvalid l offset found = some run) : ∃ (s : String) (bad rest : Bytes) (reason : Reason) (later : List Piece),
      x = encode s ++ (bad ++ rest) ∧ found = s.toList.map Piece.ofChar ++ .invalid bad.length reason :: later ∧
      run.start = offset + (encode s).length ∧ run.stop = run.start + bad.length ∧ bad ≠ [] ∧ ∀ b ∈ bad, 0x80 ≤ b.toNat := by
  induction covers generalizing offset with
  | nil => cases first
  | @char c rest l later ih =>
    obtain ⟨s, bad, more, reason, others, rfl, rfl, start, stop, solid, high⟩ := ih first
    refine ⟨String.ofList (c :: s.toList), bad, more, reason, others, ?_, ?_, ?_, stop, solid, high⟩
    · simp [encode]
    · simp [Piece.ofChar]
    · rw [start]
      simp [encode]
      omega
  | @invalid bad reason later rest solid high _ _ =>
    cases first
    exact ⟨"", bad, rest, reason, later, rfl, rfl, rfl, rfl, solid, high⟩

/-- No text starts with the first byte of an invalid run. -/
theorem not_valid_of_invalid {width : Nat} {reason : Reason} {later : List Piece} (stuck : pieces l = .invalid width reason :: later)
    (start : x <+: l) (solid : x ≠ []) : ¬Valid x := by
  intro valid
  obtain ⟨rest, rfl⟩ := start
  rw [pieces_append valid] at stuck
  have covers := covers_pieces x
  cases read : pieces x with
  | nil =>
    rw [read] at covers
    cases covers
    exact solid rfl
  | cons piece more =>
    rw [read] at stuck
    cases stuck
    have all := valid_iff.mp valid
    simp [read, Piece.valid] at all

/-- The first invalid run of bytes starts where the longest text that the bytes start with ends, and none of its own bytes is
ASCII. -/
structure FirstRun (l : Bytes) (run : Invalid) : Prop where
  forward : run.start < run.stop
  inside : run.stop ≤ l.length
  longest : IsGreatest {n | n ≤ l.length ∧ IsText (l.take n)} run.start
  high : ∀ b ∈ l.slice run.start run.stop, 0x80 ≤ b.toNat

theorem firstRun_of_invalid? {run : Invalid} (found : invalid? l = some run) : FirstRun l run := by
  obtain ⟨s, bad, rest, reason, later, whole, split, start, stop, solid, high⟩ := firstInvalid_eq_some (covers_pieces l) found
  have stuck : pieces (bad ++ rest) = .invalid bad.length reason :: later := by
    rw [whole, pieces_encode_append] at split
    exact List.append_cancel_left split
  have some : 0 < bad.length := List.length_pos_iff.mpr solid
  rw [Nat.zero_add] at start
  have good : l.take run.start = encode s := by rw [whole, start, List.take_left]
  have size : l.length = run.stop + rest.length := by
    rw [whole, stop, start]
    simp
    omega
  refine ⟨by omega, by omega, ⟨⟨by omega, s, good.symm⟩, ?_⟩, ?_⟩
  · rintro n ⟨inside, text⟩
    by_contra beyond
    obtain ⟨more, count⟩ : ∃ more, n = run.start + (more + 1) := ⟨n - run.start - 1, by omega⟩
    have further : l.take n = encode s ++ (bad ++ rest).take (more + 1) := by
      rw [whole, count, start, List.take_length_add_append]
    have valid : Valid (encode s) := valid_iff_isText.mpr ⟨s, rfl⟩
    rw [further] at text
    refine not_valid_of_invalid stuck (List.take_prefix _ _) ?_ ((valid.append_iff _).mp (valid_iff_isText.mpr text))
    cases bad with
    | nil => exact absurd rfl solid
    | cons b bad => simp
  · have same : l.slice run.start run.stop = bad := by
      rw [Bytes.slice, whole, stop, start, List.drop_left, Nat.add_sub_cancel_left, List.take_left]
    rw [same]
    exact high

/-! ### Line ends -/

open Bytes (newline)

/-- A line end is read as one, whatever is open before it, and nothing is open behind it. -/
theorem piecesFrom_newline {opened : Option Opened} (begun : Begun opened read) (x y : Bytes) :
    ∃ closed, piecesFrom opened (x ++ newline :: y) = closed ++ .char '\n' 1 :: pieces y ∧
      closed.map Piece.shown = (piecesFrom opened x).map Piece.shown ∧
      closed.map Piece.valid = (piecesFrom opened x).map Piece.valid := by
  induction x generalizing opened read with
  | nil =>
    cases begun with
    | nothing => exact ⟨[], rfl, rfl, rfl⟩
    | @part o read spells =>
      refine ⟨[.invalid o.taken .continuation], ?_, rfl, rfl⟩
      rw [List.nil_append, piecesFrom_cons, step_ascii spells (by decide)]
      rfl
  | cons b rest ih =>
    obtain ⟨part, next⟩ := step_begun begun b
    obtain ⟨closed, same, shown, valid⟩ := ih next
    refine ⟨(step opened b).1 ++ closed, ?_, ?_, ?_⟩
    · rw [List.cons_append, piecesFrom_cons, same, List.append_assoc]
    · rw [piecesFrom_cons, List.map_append, List.map_append, shown]
    · rw [piecesFrom_cons, List.map_append, List.map_append, valid]

theorem decodeLossy_newline (x y : Bytes) : decodeLossy (x ++ newline :: y) = decodeLossy x ++ "\n" ++ decodeLossy y := by
  obtain ⟨closed, same, shown, -⟩ := piecesFrom_newline .nothing x y
  apply String.toList_inj.mp
  simp only [decodeLossy, pieces, same, List.map_append, List.map_cons, shown, String.toList_ofList, String.toList_append]
  simp [Piece.shown]

/-- The lines of a text are texts. -/
theorem Valid.of_newline (valid : Valid (x ++ newline :: y)) : Valid x ∧ Valid y := by
  obtain ⟨closed, same, -, health⟩ := piecesFrom_newline .nothing x y
  rw [valid_iff, pieces, same] at valid
  obtain ⟨first, later⟩ := List.forall_mem_append.mp valid
  refine ⟨valid_iff.mpr fun p member => ?_, valid_iff.mpr (List.forall_mem_cons.mp later).2⟩
  have listed : p.valid ∈ closed.map Piece.valid := health ▸ List.mem_map_of_mem member
  obtain ⟨q, inside, same⟩ := List.mem_map.mp listed
  exact same ▸ first q inside

/-- Only a line end is read as one. -/
theorem Covers.newline {found : List Piece} (covers : Covers found x) (absent : newline ∉ x) : '\n' ∉ found.map Piece.shown := by
  induction covers with
  | nil => simp
  | @char c rest l later ih =>
    simp only [List.mem_append, not_or] at absent
    have other : c ≠ '\n' := by
      rintro rfl
      exact absent.1 (by decide)
    simp [Piece.shown, Ne.symm other, ih absent.2]
  | @invalid run reason rest l solid high later ih =>
    simp only [List.mem_append, not_or] at absent
    simp [Piece.shown, ih absent.2]

theorem newline_decodeLossy (absent : newline ∉ l) : '\n' ∉ (decodeLossy l).toList := by
  rw [decodeLossy, String.toList_ofList]
  exact (covers_pieces l).newline absent

end CrateFold.Utf8
