import CrateFold.Text.Utf8
import Mathlib.Data.List.Basic
import Mathlib.Tactic.Ring

/-!
Valid bytes and their text. Reading valid bytes and writing the text gives the bytes back (`encode_decodeLossy`).
A character that is still open has been read in part: however it is completed, its bytes are those read so far,
followed by the rest in groups of six bits (`Spells`). Each byte read keeps that up.
-/
namespace CrateFold.Utf8

variable {o : Opened} {read l : Bytes} {b : UInt8} {v : Nat}

/-! ### Characters written -/

theorem ofNat_eq_of_toNat {n : Nat} (same : n = b.toNat) : UInt8.ofNat n = b := by
  rw [same, UInt8.ofNat_toNat]

theorem val_ofNat (scalar : v.isValidChar) : (Char.ofNat v).val.toNat = v := by
  rw [Char.ofNat, dif_pos scalar]
  rfl

/-- The bytes of a character by its number. -/
theorem encodeChar_eq (scalar : v.isValidChar) : String.utf8EncodeChar (Char.ofNat v) =
    if v ≤ 127 then [UInt8.ofNat v]
    else if v ≤ 2047 then [UInt8.ofNat (v / 64 % 32 + 192), UInt8.ofNat (v % 64 + 128)]
    else if v ≤ 65535 then
      [UInt8.ofNat (v / 4096 % 16 + 224), UInt8.ofNat (v / 64 % 64 + 128), UInt8.ofNat (v % 64 + 128)]
    else
      [UInt8.ofNat (v / 262144 % 8 + 240), UInt8.ofNat (v / 4096 % 64 + 128), UInt8.ofNat (v / 64 % 64 + 128),
        UInt8.ofNat (v % 64 + 128)] := by
  unfold String.utf8EncodeChar
  rw [val_ofNat scalar]

theorem encode_one (small : v < 0x80) : String.utf8EncodeChar (Char.ofNat v) = [UInt8.ofNat v] := by
  have scalar : v.isValidChar := .inl (by omega)
  rw [encodeChar_eq scalar, if_pos (by omega)]

theorem encode_two (low : 0x80 ≤ v) (high : v < 0x800) :
    String.utf8EncodeChar (Char.ofNat v) = [UInt8.ofNat (0xC0 + v / 64), UInt8.ofNat (0x80 + v % 64)] := by
  have scalar : v.isValidChar := .inl (by omega)
  have lead : v / 64 % 32 + 192 = 0xC0 + v / 64 := by omega
  rw [encodeChar_eq scalar, if_neg (by omega), if_pos (by omega), lead, Nat.add_comm (v % 64)]

theorem encode_three (low : 0x800 ≤ v) (high : v < 0x10000) (scalar : v.isValidChar) :
    String.utf8EncodeChar (Char.ofNat v) =
      [UInt8.ofNat (0xE0 + v / 4096), UInt8.ofNat (0x80 + v / 64 % 64), UInt8.ofNat (0x80 + v % 64)] := by
  have lead : v / 4096 % 16 + 224 = 0xE0 + v / 4096 := by omega
  rw [encodeChar_eq scalar, if_neg (by omega), if_neg (by omega), if_pos (by omega), lead, Nat.add_comm (v / 64 % 64), Nat.add_comm (v % 64)]

theorem encode_four (low : 0x10000 ≤ v) (high : v < 0x110000) :
    String.utf8EncodeChar (Char.ofNat v) = [UInt8.ofNat (0xF0 + v / 262144), UInt8.ofNat (0x80 + v / 4096 % 64),
      UInt8.ofNat (0x80 + v / 64 % 64), UInt8.ofNat (0x80 + v % 64)] := by
  have scalar : v.isValidChar := .inr ⟨by omega, high⟩
  have lead : v / 262144 % 8 + 240 = 0xF0 + v / 262144 := by omega
  rw [encodeChar_eq scalar, if_neg (by omega), if_neg (by omega), if_neg (by omega), lead, Nat.add_comm (v / 4096 % 64),
    Nat.add_comm (v / 64 % 64), Nat.add_comm (v % 64)]

/-! ### Open characters -/

/-- The bytes that continue a character by so many groups of six bits, the highest first. -/
def groups : Nat → Nat → Bytes
  | 0, _ => []
  | count + 1, x => UInt8.ofNat (0x80 + x / 64 ^ count % 64) :: groups count x

/-- However an open character is completed within its bounds, its bytes are those read and the groups to come. -/
structure Spells (o : Opened) (read : Bytes) : Prop where
  owed : 0 < o.owed
  low : 0x80 ≤ o.low.toNat
  high : o.high.toNat ≤ 0xBF
  bytes : ∀ x, (o.low.toNat - 0x80) * 64 ^ (o.owed - 1) ≤ x → x < (o.high.toNat - 0x7F) * 64 ^ (o.owed - 1) →
    String.utf8EncodeChar (Char.ofNat (o.value * 64 ^ o.owed + x)) = read ++ groups o.owed x

theorem groups_add (count high x : Nat) : groups count (high * 64 ^ count + x) = groups count x := by
  suffices general : ∀ more ≤ count, groups more (high * 64 ^ count + x) = groups more x from general count (Nat.le_refl _)
  intro more within
  induction more with
  | zero => rfl
  | succ less ih =>
    obtain ⟨extra, rfl⟩ := Nat.exists_eq_add_of_le within
    have split : high * 64 ^ (less + 1 + extra) + x = (high * 64 ^ extra * 64) * 64 ^ less + x := by ring
    have digit : (high * 64 ^ (less + 1 + extra) + x) / 64 ^ less % 64 = x / 64 ^ less % 64 := by
      rw [split, Nat.add_comm, Nat.add_mul_div_right _ _ (Nat.pos_of_ne_zero (by simp)), Nat.add_mul_mod_self_right]
    rw [groups, groups, digit, ih (by omega)]

/-- The byte that continues an open character is the first of the groups to come. -/
theorem Spells.step (spells : Spells o read) (low : o.low ≤ b) (high : b ≤ o.high) {x : Nat} (rest : x < 64 ^ (o.owed - 1)) :
    String.utf8EncodeChar (Char.ofNat ((o.value * 64 + (b.toNat - 0x80)) * 64 ^ (o.owed - 1) + x)) =
      read ++ [b] ++ groups (o.owed - 1) x := by
  obtain ⟨owed, above, below, bytes⟩ := spells
  obtain ⟨count, size⟩ : ∃ count, o.owed = count + 1 := ⟨o.owed - 1, by omega⟩
  rw [UInt8.le_iff_toNat_le] at low high
  rw [size] at bytes
  rw [size] at rest ⊢
  simp only [Nat.add_sub_cancel] at bytes rest ⊢
  have digit : (b.toNat - 0x80) * 64 ^ count + x < (b.toNat - 0x7F) * 64 ^ count := by
    have next : b.toNat - 0x7F = b.toNat - 0x80 + 1 := by omega
    rw [next, Nat.add_mul, Nat.one_mul]
    omega
  have least : (o.low.toNat - 0x80) * 64 ^ count ≤ (b.toNat - 0x80) * 64 ^ count := Nat.mul_le_mul_right _ (by omega)
  have most : (b.toNat - 0x7F) * 64 ^ count ≤ (o.high.toNat - 0x7F) * 64 ^ count := Nat.mul_le_mul_right _ (by omega)
  have whole := bytes ((b.toNat - 0x80) * 64 ^ count + x) (by omega) (by omega)
  have value : o.value * 64 ^ (count + 1) + ((b.toNat - 0x80) * 64 ^ count + x) =
      (o.value * 64 + (b.toNat - 0x80)) * 64 ^ count + x := by ring
  have lead : ((b.toNat - 0x80) * 64 ^ count + x) / 64 ^ count = b.toNat - 0x80 := by
    rw [Nat.add_comm, Nat.add_mul_div_right _ _ (Nat.pos_of_ne_zero (by simp)), Nat.div_eq_of_lt rest, Nat.zero_add]
  rw [value, groups, lead, groups_add, ofNat_eq_of_toNat (b := b) (by omega)] at whole
  simpa using whole

theorem spells_two (low : 0xC2 ≤ b.toNat) (high : b.toNat < 0xE0) : Spells ⟨1, 0x80, 0xBF, b.toNat - 0xC0, 1⟩ [b] := by
  refine ⟨Nat.one_pos, Nat.le_refl 0x80, Nat.le_refl 0xBF, ?_⟩
  intro x _ below
  have small : x < 64 := by simpa using below
  simp only [pow_one]
  rw [encode_two (by omega) (by omega), ofNat_eq_of_toNat (b := b) (by omega)]
  have last : (b.toNat - 0xC0) * 64 + x = x + (b.toNat - 0xC0) * 64 := by omega
  rw [last, Nat.add_mul_mod_self_right]
  simp [groups]

theorem spells_three {value : Nat} {low high : UInt8} (lead : b.toNat = 0xE0 + value) (least : 0x80 ≤ low.toNat)
    (most : high.toNat ≤ 0xBF) (bound : value < 16) (long : value = 0 → 0xA0 ≤ low.toNat)
    (plain : value = 0xD → high.toNat ≤ 0x9F) : Spells ⟨2, low, high, value, 1⟩ [b] := by
  refine ⟨Nat.succ_pos _, least, most, ?_⟩
  intro x above below
  simp only [Nat.add_one_sub_one, pow_one] at above below ⊢
  have scalar : (value * 64 ^ 2 + x).isValidChar := by
    by_cases before : value < 0xD
    · exact .inl (by omega)
    · by_cases surrogate : value = 0xD
      · have := plain surrogate
        exact .inl (by omega)
      · exact .inr ⟨by omega, by omega⟩
  have enough : 0x800 ≤ value * 64 ^ 2 + x := by
    by_cases zero : value = 0
    · have := long zero
      omega
    · omega
  rw [encode_three enough (by omega) scalar, ofNat_eq_of_toNat (b := b) (by omega)]
  have middle : (value * 64 ^ 2 + x) / 64 % 64 = x / 64 % 64 := by omega
  have last : (value * 64 ^ 2 + x) % 64 = x % 64 := by omega
  rw [middle, last]
  simp [groups]

theorem spells_four {value : Nat} {low high : UInt8} (lead : b.toNat = 0xF0 + value) (least : 0x80 ≤ low.toNat)
    (most : high.toNat ≤ 0xBF) (bound : value < 5) (long : value = 0 → 0x90 ≤ low.toNat)
    (plane : value = 4 → high.toNat ≤ 0x8F) : Spells ⟨3, low, high, value, 1⟩ [b] := by
  refine ⟨Nat.succ_pos _, least, most, ?_⟩
  intro x above below
  simp only [Nat.add_one_sub_one] at above below ⊢
  have enough : 0x10000 ≤ value * 64 ^ 3 + x := by
    by_cases zero : value = 0
    · have := long zero
      omega
    · omega
  have inside : value * 64 ^ 3 + x < 0x110000 := by
    by_cases last : value = 4
    · have := plane last
      omega
    · omega
  rw [encode_four enough inside, ofNat_eq_of_toNat (b := b) (by omega)]
  have second : (value * 64 ^ 3 + x) / 4096 % 64 = x / 4096 % 64 := by omega
  have third : (value * 64 ^ 3 + x) / 64 % 64 = x / 64 % 64 := by omega
  have last : (value * 64 ^ 3 + x) % 64 = x % 64 := by omega
  rw [second, third, last]
  simp [groups]

/-! ### Reading bytes -/

/-- What is open has been read in part, and nothing has been read of what is not open. -/
inductive Begun : Option Opened → Bytes → Prop where
  | nothing : Begun none []
  | part {o : Opened} {read : Bytes} (spells : Spells o read) : Begun (some o) read

/-- The characters of pieces, written. -/
def written (pieces : List Piece) : Bytes := pieces.flatMap fun p => String.utf8EncodeChar p.shown

/-- The bytes read are those of the pieces that are complete and those of what is open. -/
def Reads (read : Bytes) (result : List Piece × Option Opened) : Prop :=
  ∃ part, written result.1 ++ part = read ∧ Begun result.2 part

theorem reads_open (spells : Spells o read) : Reads read ([], some o) := ⟨read, rfl, .part spells⟩

theorem reads_char {c : Char} {width : Nat} (same : String.utf8EncodeChar c = read) :
    Reads read ([.char c width], none) := ⟨[], by simpa [written, Piece.shown] using same, .nothing⟩

/-- The first byte of a valid piece is a character or opens one. -/
theorem first_reads (valid : ∀ p ∈ (first b).1, p.valid = true) : Reads [b] (first b) := by
  unfold first at valid ⊢
  -- the bounds of the leading bytes as numbers
  simp only [UInt8.lt_iff_toNat_lt, beq_iff_eq, ← UInt8.toNat_inj, UInt8.reduceToNat] at valid ⊢
  by_cases ascii : b.toNat < 128
  · rw [if_pos ascii]
    exact reads_char (by rw [encode_one ascii, UInt8.ofNat_toNat])
  rw [if_neg ascii] at valid ⊢
  by_cases stray : b.toNat < 194
  · rw [if_pos stray] at valid
    simp [Piece.valid] at valid
  rw [if_neg stray] at valid ⊢
  by_cases two : b.toNat < 224
  · rw [if_pos two]
    exact reads_open (spells_two (by omega) two)
  rw [if_neg two] at valid ⊢
  by_cases e0 : b.toNat = 224
  · rw [if_pos e0]
    exact reads_open (spells_three e0 (by decide) (by decide) (by decide) (fun _ => by decide) (by decide))
  rw [if_neg e0] at valid ⊢
  by_cases ed : b.toNat = 237
  · rw [if_pos ed]
    exact reads_open (spells_three ed (by decide) (by decide) (by decide) (by decide) (fun _ => by decide))
  rw [if_neg ed] at valid ⊢
  by_cases three : b.toNat < 240
  · rw [if_pos three]
    exact reads_open (spells_three (by omega) (by decide) (by decide) (by omega) (by omega) (by omega))
  rw [if_neg three] at valid ⊢
  by_cases f0 : b.toNat = 240
  · rw [if_pos f0]
    exact reads_open (spells_four f0 (by decide) (by decide) (by decide) (fun _ => by decide) (by decide))
  rw [if_neg f0] at valid ⊢
  by_cases four : b.toNat < 244
  · rw [if_pos four]
    exact reads_open (spells_four (by omega) (by decide) (by decide) (by omega) (by omega) (by omega))
  rw [if_neg four] at valid ⊢
  by_cases f4 : b.toNat = 244
  · rw [if_pos f4]
    exact reads_open (spells_four f4 (by decide) (by decide) (by decide) (by decide) (fun _ => by decide))
  rw [if_neg f4] at valid
  simp [Piece.valid] at valid

/-- A byte read after an open character continues it, or the character is broken off. -/
theorem step_reads {opened : Option Opened} (begun : Begun opened read)
    (valid : ∀ p ∈ (step opened b).1, p.valid = true) : Reads (read ++ [b]) (step opened b) := by
  cases begun with
  | nothing => exact first_reads valid
  | @part o read spells =>
    rw [step] at valid ⊢
    by_cases within : (o.low ≤ b && b ≤ o.high) = true
    · rw [if_pos within] at valid ⊢
      simp only [Bool.and_eq_true, decide_eq_true_eq] at within
      by_cases last : o.owed ≤ 1
      · have single : o.owed - 1 = 0 := by omega
        have complete := spells.step within.1 within.2 (x := 0) (by simp [single])
        simp only [single, pow_zero, Nat.mul_one, Nat.add_zero, groups, List.append_nil] at complete
        rw [if_pos last]
        exact reads_char complete
      · rw [if_neg last]
        have more : 0 < o.owed - 1 := by omega
        refine reads_open ⟨more, Nat.le_refl 0x80, Nat.le_refl 0xBF, ?_⟩
        intro x _ below
        have size : o.owed - 1 - 1 + 1 = o.owed - 1 := by omega
        refine spells.step within.1 within.2 ?_
        rw [← size, pow_succ]
        simpa [Nat.mul_comm] using below
    · rw [if_neg within] at valid
      simp [Piece.valid] at valid

/-! ### Texts -/

/-- Valid pieces are written as the bytes that they were read from. -/
theorem written_piecesFrom {opened : Option Opened} (begun : Begun opened read)
    (valid : ∀ p ∈ piecesFrom opened l, p.valid = true) : written (piecesFrom opened l) = read ++ l := by
  induction l generalizing opened read with
  | nil =>
    cases begun with
    | nothing => rfl
    | part _ => simp [piecesFrom, Piece.valid] at valid
  | cons b rest ih =>
    have next : piecesFrom opened (b :: rest) = (step opened b).1 ++ piecesFrom (step opened b).2 rest := by
      cases opened <;> rfl
    rw [next] at valid ⊢
    simp only [List.mem_append] at valid
    obtain ⟨part, same, left⟩ := step_reads begun fun p member => valid p (.inl member)
    have later := ih left fun p member => valid p (.inr member)
    calc written ((step opened b).1 ++ piecesFrom (step opened b).2 rest)
        = written (step opened b).1 ++ written (piecesFrom (step opened b).2 rest) := List.flatMap_append
      _ = written (step opened b).1 ++ (part ++ rest) := by rw [later]
      _ = read ++ b :: rest := by rw [← List.append_assoc, same, List.append_assoc, List.singleton_append]

theorem valid_of_firstInvalid {offset : Nat} {pieces : List Piece} (none : firstInvalid l offset pieces = none) :
    ∀ p ∈ pieces, p.valid = true := by
  induction pieces generalizing offset with
  | nil => simp
  | cons piece rest ih =>
    cases piece with
    | invalid width reason => cases none
    | char c width =>
      intro p member
      rcases List.mem_cons.mp member with rfl | later
      · rfl
      · exact ih none p later

/-- The text of valid bytes is written as those bytes. -/
theorem encode_decodeLossy (valid : invalid? l = none) : encode (decodeLossy l) = l := by
  have all := written_piecesFrom .nothing (valid_of_firstInvalid valid)
  rw [encode, decodeLossy, String.toList_ofList, List.flatMap_map]
  exact all

end CrateFold.Utf8
