import CrateFold.Proofs.Ranges
import CrateFold.Proofs.Splicing
import CrateFold.Proofs.Utf8Text

/-!
Where a text may be cut. Bytes that follow a text are read as they are by themselves (`pieces_append`), so that what is
put together from texts is a text and what is left of a text behind a text is one. An offset is a character boundary
if a text ends there (`Boundary`); a text whose edits start and stop at boundaries and put texts in place stays a text
(`valid_spliced`).
-/
namespace CrateFold

namespace Utf8

variable {l x : Bytes} {a b : Nat}

/-- Whether bytes are a text. -/
def Valid (l : Bytes) : Prop := invalid? l = none

instance (l : Bytes) : Decidable (Valid l) := inferInstanceAs (Decidable (invalid? l = none))

/-- Bytes are a text if all that they are read as are characters. -/
theorem valid_iff : Valid l ↔ ∀ p ∈ pieces l, p.valid = true := by
  have general : ∀ (pieces : List Piece) (offset : Nat), (∀ p ∈ pieces, p.valid = true) →
      firstInvalid l offset pieces = none := by
    intro pieces
    induction pieces with
    | nil => exact fun _ _ => rfl
    | cons piece rest ih =>
      intro offset all
      obtain ⟨here, later⟩ := List.forall_mem_cons.mp all
      cases piece with
      | char c width => exact ih _ later
      | invalid width reason => cases here
  exact ⟨valid_of_firstInvalid, general _ _⟩

theorem piecesFrom_append {opened : Option Opened} (valid : ∀ p ∈ piecesFrom opened x, p.valid = true) (y : Bytes) :
    piecesFrom opened (x ++ y) = piecesFrom opened x ++ pieces y := by
  induction x generalizing opened with
  | nil =>
    cases opened with
    | none => rfl
    | some o => simp [piecesFrom, Piece.valid] at valid
  | cons b rest ih =>
    have next : ∀ l, piecesFrom opened (b :: l) = (step opened b).1 ++ piecesFrom (step opened b).2 l := by
      intro l
      cases opened <;> rfl
    rw [next] at valid
    rw [List.cons_append, next, next, List.append_assoc, ih (List.forall_mem_append.mp valid).2]

/-- What follows a text is read as it is by itself. -/
theorem pieces_append (valid : Valid x) (y : Bytes) : pieces (x ++ y) = pieces x ++ pieces y :=
  piecesFrom_append (valid_iff.mp valid) y

theorem Valid.append_iff (first : Valid x) (y : Bytes) : Valid (x ++ y) ↔ Valid y := by
  rw [valid_iff, pieces_append first, List.forall_mem_append, ← valid_iff, ← valid_iff]
  exact and_iff_right first

theorem Valid.append {y : Bytes} (first : Valid x) (last : Valid y) : Valid (x ++ y) := (first.append_iff y).mpr last

/-! ### Boundaries -/

/-- An offset between two characters of a text, or at one of its ends. -/
structure Boundary (l : Bytes) (offset : Nat) : Prop where
  inside : offset ≤ l.length
  valid : Valid (l.take offset)

instance (l : Bytes) (offset : Nat) : Decidable (Boundary l offset) :=
  decidable_of_iff (offset ≤ l.length ∧ Valid (l.take offset)) ⟨fun ⟨inside, valid⟩ => ⟨inside, valid⟩,
    fun ⟨inside, valid⟩ => ⟨inside, valid⟩⟩

theorem boundary_zero (l : Bytes) : Boundary l 0 := ⟨Nat.zero_le _, rfl⟩

/-- What is between two boundaries is a text. -/
theorem Boundary.slice (start : Boundary l a) (stop : Boundary l b) (forward : a ≤ b) : Valid (l.slice a b) := by
  have whole := Bytes.take_append_slice forward l
  exact (start.valid.append_iff _).mp (whole ▸ stop.valid)

/-- What is behind a boundary is a text. -/
theorem Boundary.drop (start : Boundary l a) (valid : Valid l) : Valid (l.drop a) := by
  rw [← List.take_append_drop a l] at valid
  exact (start.valid.append_iff _).mp valid

end Utf8

open Utf8 (Valid Boundary)

/-- An edit that starts and stops at boundaries of a text and puts a text in place. -/
structure Edit.Keeps (source : Bytes) (edit : Edit) : Prop where
  start : Boundary source edit.start
  stop : Boundary source edit.stop
  replacement : Valid edit.replacement

/-- A text with edits in order, each of which keeps it a text. -/
theorem Edit.valid_spliced {source : Bytes} {low high : Nat} {edits : List Edit} (valid : Valid source)
    (start : Boundary source low) (run : Edit.Run low high edits) (keeps : ∀ edit ∈ edits, edit.Keeps source) :
    Valid (Edit.spliced source low edits) := by
  induction edits generalizing low with
  | nil => exact start.drop valid
  | cons edit rest ih =>
    obtain ⟨above, forward, later⟩ := run
    obtain ⟨here, others⟩ := List.forall_mem_cons.mp keeps
    exact ((start.slice here.start above).append here.replacement).append (ih here.stop later others)

/-- Edits in order are disjoint. -/
theorem Edit.Run.disjoint {low high : Nat} {edits : List Edit} (run : Edit.Run low high edits) :
    (∀ edit ∈ edits, edit.start ≤ edit.stop) ∧ edits.Pairwise fun a b => a.stop ≤ b.start := by
  induction edits generalizing low with
  | nil => exact ⟨by simp, .nil⟩
  | cons edit rest ih =>
    obtain ⟨-, forward, later⟩ := run
    obtain ⟨others, apart⟩ := ih later
    exact ⟨List.forall_mem_cons.mpr ⟨forward, others⟩, .cons later.start apart⟩

namespace SourceUnit

/-- What is asked of a file: it is a text, the ranges of its tree are ordered and nested, and its nodes start and stop at
boundaries. -/
structure Sound (u : SourceUnit) : Prop where
  valid : Valid u.bytes
  ordered : u.root.ordered = true
  boundaries : u.root.All fun n => Boundary u.bytes n.start ∧ Boundary u.bytes n.stop

instance (u : SourceUnit) : Decidable u.Sound :=
  decidable_of_iff (Valid u.bytes ∧ u.root.ordered = true ∧
      ∀ p ∈ u.root.placed [], Boundary u.bytes p.node.start ∧ Boundary u.bytes p.node.stop)
    ⟨fun ⟨valid, ordered, boundaries⟩ => ⟨valid, ordered, boundaries⟩,
      fun ⟨valid, ordered, boundaries⟩ => ⟨valid, ordered, boundaries⟩⟩

/-- A flawed tree is refused with the error for a flaw of it. -/
theorem malformed_of_checkTree {u : SourceUnit} {file : String} {error : BundleError}
    (refused : u.checkTree file = .error (.bundle error)) : ∃ flaw description, error = u.malformed file flaw description := by
  unfold checkTree at refused
  split at refused
  · rcases bind_eq_error.mp refused with unread | ⟨description, -, raised⟩
    · -- a flaw whose text is not decoded is another fault
      unfold describeFlaw at unread
      split at unread
      · cases unread
      · rcases bind_eq_error.mp unread with undecoded | ⟨_, -, impossible⟩
        · exact absurd undecoded (textOf_ne_bundle _)
        · cases impossible
    · cases raised
      exact ⟨_, description, rfl⟩
  · cases refused

/-- A text passes the check of its encoding when it is read. -/
theorem parse_ne_notUtf8 {bytes : Bytes} (valid : Valid bytes) (grammar : Grammar) (file : String) (run : Utf8.Invalid) :
    (parse grammar bytes file).outcome ≠ .error (.bundle (notUtf8 bytes file run)) := by
  have fine : Utf8.invalid? bytes = none := valid
  intro refused
  simp only [parse, fine, Traced.outcome_bind, Traced.outcome_lift] at refused
  rcases bind_eq_error.mp refused with flawed | ⟨_, -, impossible⟩
  · obtain ⟨flaw, description, same⟩ := malformed_of_checkTree flawed
    have label := congrArg BundleError.label same
    simp [notUtf8, malformed] at label
  · cases impossible

/-- What is to hold of the edits of a file: none overlaps another, and applying them gives a text, which is not refused
for its encoding when it is read again. -/
structure Accepts (u : SourceUnit) (edits : List Edit) : Prop where
  disjoint : (∀ edit ∈ edits, edit.start ≤ edit.stop) ∧ edits.Pairwise fun a b => a.stop ≤ b.start
  text : ∃ bytes, u.splice edits = .ok bytes ∧ Valid bytes ∧ ∀ grammar file run,
    (parse grammar bytes file).outcome ≠ .error (.bundle (notUtf8 bytes file run))

theorem Sound.accepts {u : SourceUnit} {high : Nat} {edits : List Edit} (sound : u.Sound) (run : Edit.Run 0 high edits)
    (keeps : ∀ edit ∈ edits, edit.Keeps u.bytes) : u.Accepts edits := by
  have valid := Edit.valid_spliced sound.valid (Utf8.boundary_zero _) run keeps
  exact ⟨run.disjoint, _, u.splice_of_run run, valid, parse_ne_notUtf8 valid⟩

theorem Sound.part {u : SourceUnit} {parent : Placed} {n : Node} (sound : u.Sound) (listed : parent ∈ u.root.placed [])
    (member : n ∈ parent.node.children) : Boundary u.bytes n.start ∧ Boundary u.bytes n.stop :=
  sound.boundaries.part listed member

end SourceUnit

end CrateFold
