import CrateFold.Proofs.Moving
import CrateFold.Tree.Edit

/-!
Splicing edits that come in the order of the source. They are applied one after the other
(`SourceUnit.splice_of_run`), and the bytes between them are those of the source. The nodes of a tree whose
ranges are ordered and nested (`Node.regular`) all lie within the range of the tree.
-/
namespace CrateFold

/-! ### Slices -/

namespace Bytes

variable {l x y : Bytes} {a b c : Nat}

theorem slice_drop (l : Bytes) (c a b : Nat) : slice (l.drop c) a b = l.slice (c + a) (c + b) := by
  simp only [slice, List.drop_drop, Nat.add_sub_add_left]

theorem take_append_slice (forward : a ≤ b) (l : Bytes) : l.take a ++ l.slice a b = l.take b := by
  rw [slice, ← List.take_add, Nat.add_sub_cancel' forward]

theorem slice_append_drop (forward : a ≤ b) (l : Bytes) : l.slice a b ++ l.drop b = l.drop a := by
  have behind : (l.drop a).drop (b - a) = l.drop b := by rw [List.drop_drop, Nat.add_sub_cancel' forward]
  rw [slice, ← behind, List.take_append_drop]

theorem slice_append_left (inside : b ≤ x.length) : slice (x ++ y) a b = x.slice a b := by
  unfold slice
  by_cases before : a ≤ x.length
  · rw [List.drop_append_of_le_length before, List.take_append_of_le_length]
    rw [List.length_drop]
    omega
  · have none : b - a = 0 := by omega
    rw [none, List.take_zero, List.take_zero]

theorem slice_append_right (x y : Bytes) (a b : Nat) : slice (x ++ y) (x.length + a) (x.length + b) = y.slice a b := by
  rw [← slice_drop, List.drop_left]

theorem slice_slice (inside : b ≤ c) (l : Bytes) (start a : Nat) :
    slice (l.slice start (start + c)) a b = l.slice (start + a) (start + b) := by
  unfold slice
  have width : start + b - (start + a) = b - a := by omega
  have whole : start + c - start = c := by omega
  rw [width, whole, List.drop_take, List.drop_drop, List.take_take, Nat.min_eq_left (by omega)]

theorem length_slice (inside : b ≤ l.length) : (slice l a b).length = b - a := by
  unfold slice
  rw [List.length_take, List.length_drop]
  omega

end Bytes

/-! ### Edits in order -/

namespace Edit

/-- The bytes from an offset on, with edits that are in order applied. -/
def spliced (source : Bytes) : Nat → List Edit → Bytes
  | position, [] => source.drop position
  | position, edit :: rest => source.slice position edit.start ++ edit.replacement ++ spliced source edit.stop rest

/-- Edits between two offsets, each behind the one before it. -/
def Run : Nat → Nat → List Edit → Prop
  | low, high, [] => low ≤ high
  | low, high, edit :: rest => low ≤ edit.start ∧ edit.start ≤ edit.stop ∧ Run edit.stop high rest

variable {low mid high : Nat} {first rest : List Edit}

theorem Run.le (run : Run low high rest) : low ≤ high := by
  induction rest generalizing low with
  | nil => exact run
  | cons edit more ih =>
    obtain ⟨above, forward, later⟩ := run
    have := ih later
    omega

theorem Run.append (one : Run low mid first) (two : Run mid high rest) : Run low high (first ++ rest) := by
  induction first generalizing low with
  | nil =>
    cases rest with
    | nil => exact Nat.le_trans one two
    | cons edit more => exact ⟨Nat.le_trans one two.1, two.2⟩
  | cons edit more ih => exact ⟨one.1, one.2.1, ih one.2.2⟩

theorem Run.start (run : Run low high rest) : ∀ edit ∈ rest, low ≤ edit.start := by
  induction rest generalizing low with
  | nil => simp
  | cons first more ih =>
    obtain ⟨above, forward, later⟩ := run
    intro edit member
    rcases List.mem_cons.mp member with rfl | further
    · exact above
    · have := ih later edit further
      omega

theorem Run.mono {least most : Nat} (run : Run low high rest) (below : least ≤ low)
    (above : high ≤ most) : Run least most rest := by
  induction rest generalizing low least with
  | nil => exact Nat.le_trans below (Nat.le_trans run above)
  | cons edit more ih => exact ⟨Nat.le_trans below run.1, run.2.1, ih run.2.2 (Nat.le_refl _)⟩

/-- Edits in order stay as they are when they are put in order. -/
theorem Run.inOrder (run : Run low high rest) : Edit.inOrder rest = rest := by
  induction rest generalizing low with
  | nil => rfl
  | cons edit more ih =>
    obtain ⟨above, forward, later⟩ := run
    rw [Edit.inOrder, ih later]
    cases more with
    | nil => rfl
    | cons next others =>
      obtain ⟨behind, onward, -⟩ := later
      have before : edit.before next = true := by
        unfold Edit.before
        rw [Bool.or_eq_true, Bool.and_eq_true, decide_eq_true_eq, decide_eq_true_eq, beq_iff_eq]
        omega
      rw [insertInOrder, before, if_pos rfl]

theorem Run.applyFrom (run : Run low high rest) (source : Bytes) (file : FilePath) :
    Edit.applyFrom source file low rest = .ok (spliced source low rest) := by
  induction rest generalizing low with
  | nil => rfl
  | cons edit more ih =>
    obtain ⟨above, forward, later⟩ := run
    have inside : ¬ edit.start < low := by omega
    simp [Edit.applyFrom, inside, ih later, spliced]

theorem length_spliced {source : Bytes} {edits : List Edit} {position high : Nat} (inside : high ≤ source.length)
    (later : ∀ edit ∈ edits, high ≤ edit.start) : high - position ≤ (spliced source position edits).length := by
  cases edits with
  | nil =>
    rw [spliced, List.length_drop]
    omega
  | cons edit rest =>
    have := later edit (by simp)
    rw [spliced, List.length_append, List.length_append, Bytes.slice, List.length_take, List.length_drop]
    omega

end Edit

/-- Edits in order are applied one after the other. -/
theorem SourceUnit.splice_of_run {edits : List Edit} {high : Nat} (u : SourceUnit) (run : Edit.Run 0 high edits) :
    u.splice edits = .ok (Edit.spliced u.bytes 0 edits) := by
  rw [splice, run.inOrder, run.applyFrom]

/-! ### Regular trees -/

mutual

/-- Whether the ranges of a tree are ordered and nested between two offsets, and no name is a semicolon. -/
def Node.regular (low high : Nat) : Node → Bool
  | ⟨tag, children⟩ =>
    decide (low ≤ tag.start ∧ tag.start ≤ tag.stop ∧ tag.stop ≤ high) && (tag.kind != ";" || !tag.fills "name") &&
      Node.regularIn tag.start tag.stop children
termination_by structural n => n

/-- Whether the ranges of siblings are ordered and nested between two offsets, and no name is a semicolon. -/
def Node.regularIn (low high : Nat) : List Node → Bool
  | [] => true
  | n :: rest => n.regular low high && Node.regularIn n.stop high rest
termination_by structural l => l

end

namespace Node

variable {low high : Nat} {n : Node} {nodes : List Node}

/-- What a regular node is by itself. -/
theorem regular_iff {tag : Tag} {children : List Node} : regular low high ⟨tag, children⟩ = true ↔
    (low ≤ tag.start ∧ tag.start ≤ tag.stop ∧ tag.stop ≤ high) ∧ (tag.kind = ";" → tag.fills "name" = false) ∧
      regularIn tag.start tag.stop children = true := by
  simp only [regular, Bool.and_eq_true, decide_eq_true_eq, Bool.or_eq_true, bne_iff_ne, Bool.not_eq_true',
    and_assoc]
  by_cases semicolon : tag.kind = ";" <;> simp [semicolon]

theorem regular_range (fine : n.regular low high = true) : low ≤ n.start ∧ n.start ≤ n.stop ∧ n.stop ≤ high := by
  cases n
  exact (regular_iff.mp fine).1

theorem regular_shrink {more : Nat} (fine : n.regular low high = true) (inside : n.stop ≤ more) :
    n.regular low more = true := by
  obtain ⟨tag, children⟩ := n
  obtain ⟨range, field, below⟩ := regular_iff.mp fine
  exact regular_iff.mpr ⟨⟨range.1, range.2.1, inside⟩, field, below⟩

theorem regular_stop (fine : n.regular low high = true) : n.regular low n.stop = true :=
  regular_shrink fine (Nat.le_refl _)

mutual

theorem within_of_regular_le : ∀ (n : Node) (low high least most : Nat), n.regular low high = true → least ≤ low →
    high ≤ most → n.within least most = true
  | ⟨tag, children⟩, low, high, least, most, fine, below, above => by
    obtain ⟨range, -, inner⟩ := regular_iff.mp fine
    simp only [within, Bool.and_eq_true, Tag.within, decide_eq_true_eq]
    exact ⟨by omega, withinIn_of_regularIn_le children tag.start tag.stop least most inner (by omega) (by omega)⟩
termination_by structural n => n

theorem withinIn_of_regularIn_le : ∀ (nodes : List Node) (low high least most : Nat), regularIn low high nodes = true →
    least ≤ low → high ≤ most → withinIn least most nodes = true
  | [], _, _, _, _, _, _, _ => rfl
  | n :: rest, low, high, least, most, fine, below, above => by
    simp only [regularIn, Bool.and_eq_true] at fine
    have range := regular_range fine.1
    rw [withinIn, within_of_regular_le n low high least most fine.1 below above,
      withinIn_of_regularIn_le rest n.stop high least most fine.2 (by omega) above]
    rfl
termination_by structural l => l

end

/-- All offsets of a regular tree lie between the two offsets. -/
theorem within_of_regular (fine : n.regular low high = true) : n.within low high = true :=
  within_of_regular_le n low high low high fine (Nat.le_refl _) (Nat.le_refl _)

theorem withinIn_of_regularIn (fine : regularIn low high nodes = true) : withinIn low high nodes = true :=
  withinIn_of_regularIn_le nodes low high low high fine (Nat.le_refl _) (Nat.le_refl _)

mutual

theorem within_moved {f : Nat → Nat} {least most : Nat} (moves : ∀ a, low ≤ a → a ≤ high → least ≤ f a ∧ f a ≤ most) :
    ∀ n : Node, n.within low high = true → (n.moved f).within least most = true
  | ⟨tag, children⟩, inside => by
    simp only [within, Bool.and_eq_true, Tag.within, decide_eq_true_eq] at inside
    have start := moves tag.start inside.1.1 inside.1.2.1
    have stop := moves tag.stop inside.1.2.2.1 inside.1.2.2.2
    simp only [moved, within, Bool.and_eq_true, Tag.within, decide_eq_true_eq, Tag.moved]
    exact ⟨⟨start.1, start.2, stop.1, stop.2⟩, withinIn_moved moves children inside.2⟩
termination_by structural n => n

theorem withinIn_moved {f : Nat → Nat} {least most : Nat} (moves : ∀ a, low ≤ a → a ≤ high → least ≤ f a ∧ f a ≤ most) :
    ∀ nodes : List Node, withinIn low high nodes = true → withinIn least most (movedIn f nodes) = true
  | [], _ => rfl
  | n :: rest, inside => by
    simp only [withinIn, Bool.and_eq_true] at inside
    rw [movedIn, withinIn, within_moved moves n inside.1, withinIn_moved moves rest inside.2]
    rfl
termination_by structural l => l

end

theorem regular_of_mem (fine : regularIn low high nodes = true) (member : n ∈ nodes) : n.regular low high = true := by
  induction nodes generalizing low with
  | nil => cases member
  | cons first rest ih =>
    simp only [regularIn, Bool.and_eq_true] at fine
    have range := regular_range fine.1
    rcases List.mem_cons.mp member with rfl | later
    · exact fine.1
    · obtain ⟨tag, children⟩ := n
      have inner := regular_iff.mp (ih fine.2 later)
      exact regular_iff.mpr ⟨by omega, inner.2⟩

theorem regularIn_append {before after : List Node} (ordered : low ≤ high)
    (fine : regularIn low high (before ++ after) = true) : ∃ middle, low ≤ middle ∧ middle ≤ high ∧
      regularIn low middle before = true ∧ regularIn middle high after = true := by
  induction before generalizing low with
  | nil => exact ⟨low, Nat.le_refl _, ordered, rfl, fine⟩
  | cons first rest ih =>
    simp only [List.cons_append, regularIn, Bool.and_eq_true] at fine ⊢
    have range := regular_range fine.1
    obtain ⟨middle, below, above, one, two⟩ := ih range.2.2 fine.2
    exact ⟨middle, by omega, above, ⟨regular_shrink fine.1 below, one⟩, two⟩

theorem withinIn_append {first rest : List Node} :
    withinIn low high (first ++ rest) = (withinIn low high first && withinIn low high rest) := by
  induction first with
  | nil => rfl
  | cons n more ih => rw [List.cons_append, withinIn, ih, withinIn, Bool.and_assoc]

end Node

end CrateFold
