import CrateFold.Proofs.Cutting
import CrateFold.Proofs.Splicing
import Mathlib.Algebra.GroupWithZero.Nat

/-!
Splicing replaces all stretches at once. The edits are put in order of their stretches, those of one stretch as they
come (`arranges_inOrder`). If none of them starts before an earlier one ends, the pass over the source gives what
replacing the stretches one at a time gives, the last one first, when no replacement moves a stretch that is still to
be replaced (`Run.replaceEach`). Otherwise the pass stops at an edit that starts too early (`refused_of_not_run`).
-/
namespace CrateFold

namespace Edit

variable {edit : Edit} {edits ordered other : List Edit} {source : Bytes} {low high : Nat}

/-- The bytes with the stretch of one edit replaced. -/
def replaceIn (edit : Edit) (source : Bytes) : Bytes :=
  source.take edit.start ++ edit.replacement ++ source.drop edit.stop

/-- The bytes with stretches replaced one at a time, the last of the list first. -/
def replaceEach (edits : List Edit) (source : Bytes) : Bytes := edits.foldr replaceIn source

/-- The stretch of an edit lies in a source. -/
structure Fits (source : Bytes) (edit : Edit) : Prop where
  forward : edit.start ≤ edit.stop
  inside : edit.stop ≤ source.length

instance (source : Bytes) (edit : Edit) : Decidable (edit.Fits source) :=
  decidable_of_iff (edit.start ≤ edit.stop ∧ edit.stop ≤ source.length)
    ⟨fun both => ⟨both.1, both.2⟩, fun fits => ⟨fits.forward, fits.inside⟩⟩

/-- A later edit of a list starts before an earlier one ends. -/
def Overlapping (edits : List Edit) : Prop :=
  ∃ earlier later, [earlier, later].Sublist edits ∧ later.start < earlier.stop

/-- Edits in order of their stretches, those of one stretch as they come. -/
structure Arranges (edits ordered : List Edit) : Prop where
  perm : ordered.Perm edits
  ascending : ordered.Pairwise fun a b => a.before b = true
  stable : ∀ stretch, ordered.filter (·.range == stretch) = edits.filter (·.range == stretch)

/-! ### The order of edits -/

/-- An edit is put in front of the edits of its own stretch. -/
theorem filter_insertInOrder (stretch : Nat × Nat) : (edit.insertInOrder edits).filter (·.range == stretch) =
    (edit :: edits).filter (·.range == stretch) := by
  induction edits with
  | nil => rfl
  | cons next rest ih =>
    rw [insertInOrder]
    split
    · rfl
    · next behind =>
      have apart : ¬ (edit.range = stretch ∧ next.range = stretch) := by
        rintro ⟨one, two⟩
        apply behind
        have same : edit.range = next.range := one.trans two.symm
        simp only [range, Prod.mk.injEq] at same
        rw [before_iff]
        omega
      rw [List.filter_cons, ih]
      by_cases here : edit.range = stretch
      · have there : ¬ next.range = stretch := fun also => apart ⟨here, also⟩
        simp [here, there]
      · simp [List.filter_cons, here]

theorem arranges_inOrder (edits : List Edit) : Arranges edits (inOrder edits) := by
  refine ⟨perm_inOrder edits, ?_, ?_⟩
  · rw [inOrder_eq_insertionSort]
    exact List.pairwise_insertionSort _ edits
  · intro stretch
    induction edits with
    | nil => rfl
    | cons edit rest ih => rw [inOrder, filter_insertInOrder, List.filter_cons, ih, List.filter_cons]

/-- Edits of different stretches have one order. -/
theorem inOrder_of_perm (distinct : (edits.map range).Nodup) (perm : other.Perm edits) :
    inOrder other = inOrder edits := by
  have mixed := (perm_inOrder other).trans (perm.trans (perm_inOrder edits).symm)
  refine mixed.eq_of_pairwise ?_ (arranges_inOrder other).ascending (arranges_inOrder edits).ascending
  intro a b one two forth back
  rw [before_iff] at forth back
  have same : a.range = b.range := by
    simp only [range, Prod.mk.injEq]
    omega
  exact List.inj_on_of_nodup_map distinct (perm.mem_iff.mp (mem_inOrder.mp one)) (mem_inOrder.mp two) same

/-! ### One pass over the source -/

/-- Edits in a source come one behind the other exactly if none starts before an earlier one ends. -/
theorem run_iff (fits : ∀ edit ∈ edits, edit.Fits source) (inside : low ≤ source.length)
    (above : ∀ edit ∈ edits, low ≤ edit.start) : Run low source.length edits ↔ ¬ Overlapping edits := by
  have pairs : ¬ Overlapping edits ↔ edits.Pairwise fun a b => a.stop ≤ b.start := by
    rw [List.pairwise_iff_forall_sublist]
    simp only [Overlapping, not_exists, not_and, Nat.not_lt]
  rw [pairs]
  clear pairs
  induction edits generalizing low with
  | nil => simp [Run, inside]
  | cons edit rest ih =>
    have here := fits edit (by simp)
    have later := fun next member => fits next (List.mem_cons_of_mem edit member)
    rw [List.pairwise_cons]
    constructor
    · rintro ⟨-, -, run⟩
      exact ⟨run.start, (ih later here.inside run.start).mp run⟩
    · rintro ⟨behind, apart⟩
      exact ⟨above edit (by simp), here.forward, (ih later here.inside behind).mpr apart⟩

/-- Edits that do not come one behind the other are refused at one of them. -/
theorem refused_of_not_run (fits : ∀ edit ∈ edits, edit.Fits source) (inside : low ≤ source.length) (file : FilePath)
    (not : ¬ Run low source.length edits) :
    ∃ edit ∈ edits, applyFrom source file low edits = .error (.overlappingEdit edit.start file) := by
  induction edits generalizing low with
  | nil => exact absurd inside not
  | cons edit rest ih =>
    have here := fits edit (by simp)
    by_cases early : edit.start < low
    · exact ⟨edit, by simp, by rw [applyFrom, if_pos early]⟩
    · have later : ¬ Run edit.stop source.length rest := by
        intro run
        exact not ⟨by omega, here.forward, run⟩
      obtain ⟨next, member, refused⟩ := ih (fun next member => fits next (by simp [member])) here.inside later
      exact ⟨next, by simp [member], by rw [applyFrom, if_neg early, refused]; rfl⟩

/-- Replacing the last stretches first leaves what comes before them where it is. -/
theorem Run.replaceEach (run : Run low high edits) (inside : high ≤ source.length) :
    Edit.replaceEach edits source = source.take low ++ spliced source low edits := by
  induction edits generalizing low with
  | nil => exact (List.take_append_drop low source).symm
  | cons edit rest ih =>
    obtain ⟨above, forward, later⟩ := run
    have ends := later.le
    have before : source.take edit.start = source.take low ++ source.slice low edit.start :=
      (Bytes.take_append_slice above source).symm
    have room : edit.stop ≤ source.length := by omega
    have length : (source.take edit.stop).length = edit.stop := List.length_take_of_le room
    have kept : (source.take edit.stop ++ spliced source edit.stop rest).take edit.start = source.take edit.start := by
      rw [List.take_append_of_le_length (by omega), List.take_take, Nat.min_eq_left forward]
    have left : (source.take edit.stop ++ spliced source edit.stop rest).drop edit.stop = spliced source edit.stop rest :=
      List.drop_left' length
    change replaceIn edit (Edit.replaceEach rest source) = _
    rw [ih later, replaceIn, kept, left, before, spliced]
    simp only [List.append_assoc]

/-- What edits take away and put in. -/
theorem Run.length (run : Run low source.length edits) :
    (spliced source low edits).length + low + (edits.map fun edit => edit.stop - edit.start).sum =
      source.length + (edits.map fun edit => edit.replacement.length).sum := by
  induction edits generalizing low with
  | nil =>
    have inside : low ≤ source.length := run
    simp only [spliced, List.length_drop, List.map_nil, List.sum_nil]
    omega
  | cons edit rest ih =>
    obtain ⟨above, forward, later⟩ := run
    have ends := later.le
    have rest := ih later
    have kept : (source.slice low edit.start).length = edit.start - low := Bytes.length_slice (by omega)
    simp only [spliced, List.length_append, kept, List.map_cons, List.sum_cons]
    omega

/-- The edits that only take their stretches out. -/
def cuts (edits : List Edit) : List Edit := edits.map fun edit => { edit with replacement := [] }

theorem spliced_cuts (source : Bytes) (low : Nat) (edits : List Edit) :
    (spliced source low (cuts edits)).Sublist (spliced source low edits) := by
  induction edits generalizing low with
  | nil => exact List.Sublist.refl _
  | cons edit rest ih =>
    refine List.Sublist.append ?_ (ih edit.stop)
    exact List.Sublist.append (List.Sublist.refl _) (List.nil_sublist _)

theorem Run.cuts (run : Run low high edits) : Run low high (Edit.cuts edits) := by
  induction edits generalizing low with
  | nil => exact run
  | cons edit rest ih => exact ⟨run.1, run.2.1, ih run.2.2⟩

end Edit

namespace SourceUnit

open Edit

variable {u : SourceUnit} {edits : List Edit}

/-- The bytes outside the stretches are kept in order. -/
theorem without_sublist (fits : ∀ edit ∈ edits, edit.Fits u.bytes) (run : Run 0 u.bytes.length edits) :
    (u.bytes.without (edits.map range)).Sublist (spliced u.bytes 0 edits) := by
  have cut : ∀ edit ∈ cuts edits, edit.Cut := by
    intro edit member
    obtain ⟨whole, listed, rfl⟩ := List.mem_map.mp member
    exact ⟨(fits whole listed).forward, rfl⟩
  have ranges : (cuts edits).map range = edits.map range := by simp [cuts, range]
  rw [← ranges, ← without_of_splice (u.splice_of_run run.cuts) cut]
  exact spliced_cuts u.bytes 0 edits

/-- Splicing as replacement of all stretches at once. Edits of a source, put in order of their stretches, are refused
exactly if a later one starts before an earlier one ends. If none does, the bytes are those that replacing the
stretches one at a time gives, from the last back to the first; their number is that of the source less the stretches
and with the replacements, and the bytes outside all stretches are kept in order. Edits of different stretches may be
given in any order. -/
theorem splice_replaces (fits : ∀ edit ∈ edits, edit.Fits u.bytes) :
    (∃ ordered, Arranges edits ordered ∧
      ((∃ start, u.splice edits = .error (.overlappingEdit start u.path)) ↔ Overlapping ordered) ∧
      (¬ Overlapping ordered → ∃ bytes, u.splice edits = .ok bytes ∧ bytes = replaceEach ordered u.bytes ∧
        bytes.length + (edits.map fun edit => edit.stop - edit.start).sum =
          u.bytes.length + (edits.map fun edit => edit.replacement.length).sum ∧
        (u.bytes.without (edits.map range)).Sublist bytes)) ∧
    ((edits.map range).Nodup → ∀ other, other.Perm edits → u.splice other = u.splice edits) := by
  have arranged := arranges_inOrder edits
  have inside : ∀ edit ∈ inOrder edits, edit.Fits u.bytes := fun edit member => fits edit (mem_inOrder.mp member)
  have runs : Run 0 u.bytes.length (inOrder edits) ↔ ¬ Overlapping (inOrder edits) :=
    run_iff inside (Nat.zero_le _) fun _ _ => Nat.zero_le _
  refine ⟨⟨inOrder edits, arranged, ?_, ?_⟩, ?_⟩
  · constructor
    · rintro ⟨start, refused⟩
      by_contra apart
      rw [splice, (runs.mpr apart).applyFrom] at refused
      cases refused
    · intro overlap
      obtain ⟨edit, -, refused⟩ := refused_of_not_run inside (Nat.zero_le _) u.path fun run => runs.mp run overlap
      exact ⟨edit.start, refused⟩
  · intro apart
    have run := runs.mpr apart
    refine ⟨spliced u.bytes 0 (inOrder edits), run.applyFrom u.bytes u.path, ?_, ?_, ?_⟩
    · rw [run.replaceEach (Nat.le_refl _)]
      rfl
    · have total := run.length
      rw [(arranged.perm.map _).sum_nat, (arranged.perm.map _).sum_nat] at total
      omega
    · have same : u.bytes.without ((inOrder edits).map range) = u.bytes.without (edits.map range) :=
        Bytes.withoutFrom_congr fun offset _ => covered_inOrder offset
      rw [← same]
      exact without_sublist inside run
  · intro distinct other perm
    rw [splice, inOrder_of_perm distinct perm, splice]

/-- A source of six letters. -/
def letters : SourceUnit where
  path := ⟨0, ["lib.rs"]⟩
  bytes := Utf8.encode "abcdef"
  root := ⟨{ kind := "source_file", named := true, stop := 6 }, []⟩

/-- Two insertions at one offset, a replacement that starts there and a removal, out of order. -/
def touching : List Edit := [⟨3, 5, Utf8.encode "X"⟩, ⟨3, 3, Utf8.encode "1"⟩, ⟨0, 1, []⟩, ⟨3, 3, Utf8.encode "2"⟩]

theorem splice_replaces_touching : (∀ edit ∈ touching, edit.Fits letters.bytes) ∧
    letters.splice touching = .ok (Utf8.encode "bc12Xf") ∧ ∃ ordered, Arranges touching ordered ∧
      ¬ Overlapping ordered ∧ replaceEach ordered letters.bytes = Utf8.encode "bc12Xf" := by
  have fits : ∀ edit ∈ touching, edit.Fits letters.bytes := by decide +kernel
  have run : letters.splice touching = .ok (Utf8.encode "bc12Xf") := by decide +kernel
  obtain ⟨⟨ordered, arranged, refused, made⟩, -⟩ := splice_replaces fits
  have apart : ¬ Overlapping ordered := by
    intro overlap
    obtain ⟨start, fault⟩ := refused.mpr overlap
    rw [run] at fault
    cases fault
  obtain ⟨bytes, again, same, -, -⟩ := made apart
  rw [run] at again
  cases again
  exact ⟨fits, run, ordered, arranged, apart, same.symm⟩

end SourceUnit

end CrateFold
