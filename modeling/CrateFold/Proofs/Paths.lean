import CrateFold.ModulePath.Basic
import Mathlib.Data.List.Infix

/-!
How module paths lie in each other. A path lies in the paths that its segments start with, the empty
path left out (`Within`). `lineage` lists exactly these, the innermost first (`mem_lineage`), and
leaving a module gives the next of them. Joining appends a path (`join_relative`) unless it is crate-rooted, in which
case it replaces what is before it (`join_absolute`); joining a name that is not `crate` goes one step down.
-/
namespace CrateFold.ModulePath

/-- The module `outer` is `inner` itself or one that `inner` lies in. -/
def Within (inner outer : ModulePath) : Prop := outer.segments ≠ [] ∧ outer.segments <+: inner.segments

theorem within_refl {p : ModulePath} (nonempty : p.segments ≠ []) : p.Within p := ⟨nonempty, List.prefix_refl _⟩

theorem Within.trans {p q r : ModulePath} (pq : p.Within q) (qr : q.Within r) : p.Within r :=
  ⟨qr.1, qr.2.trans pq.2⟩

theorem Within.antisymm {p q : ModulePath} (pq : p.Within q) (qp : q.Within p) : p = q := by
  cases p
  cases q
  congr
  exact (qp.2.eq_of_length (le_antisymm qp.2.length_le pq.2.length_le))

theorem isCratePath_iff {p : ModulePath} : p.isCratePath = true ↔ ∃ rest, p.segments = "crate" :: rest := by
  unfold isCratePath first?
  cases p.segments with
  | nil => simp
  | cons segment rest => simp

theorem segments_ne_nil {p : ModulePath} (absolute : p.isCratePath = true) : p.segments ≠ [] := by
  obtain ⟨rest, same⟩ := isCratePath_iff.mp absolute
  rw [same]
  exact List.cons_ne_nil _ _

/-- A crate-rooted path lies in the crate root. -/
theorem within_crate {p : ModulePath} (absolute : p.isCratePath = true) : p.Within .crate := by
  obtain ⟨rest, same⟩ := isCratePath_iff.mp absolute
  exact ⟨by simp [crate], ⟨rest, by simp [crate, same]⟩⟩

/-- What a crate-rooted path lies in is crate-rooted. -/
theorem Within.isCratePath {p q : ModulePath} (within : p.Within q) (absolute : p.isCratePath = true) :
    q.isCratePath = true := by
  obtain ⟨rest, same⟩ := isCratePath_iff.mp absolute
  obtain ⟨nonempty, tail, split⟩ := within
  rw [same] at split
  cases inner : q.segments with
  | nil => exact absurd inner nonempty
  | cons segment more =>
    rw [inner] at split
    obtain ⟨rfl, -⟩ := List.cons.inj split
    exact isCratePath_iff.mpr ⟨more, inner⟩

/-! ### The way up -/

private theorem mem_climb {q : ModulePath} {reversed : List String} (given : reversed ≠ []) :
    q ∈ climb reversed ↔ q.segments ≠ [] ∧ q.segments <+: reversed.reverse := by
  induction reversed with
  | nil => exact absurd rfl given
  | cons segment rest ih =>
    cases rest with
    | nil =>
      simp only [climb, List.mem_singleton, List.reverse_cons, List.reverse_nil, List.nil_append,
        List.prefix_cons_iff, List.prefix_nil]
      constructor
      · rintro rfl
        exact ⟨by simp, .inr ⟨[], by simp⟩⟩
      · rintro ⟨nonempty, empty | ⟨tail, same, rfl⟩⟩
        · exact absurd empty nonempty
        · cases q; simpa using same
    | cons next more =>
      have inner := ih (List.cons_ne_nil _ _)
      change q ∈ (⟨(segment :: next :: more).reverse⟩ : ModulePath) :: climb (next :: more) ↔ _
      rw [List.mem_cons, inner, List.reverse_cons (a := segment), List.prefix_concat_iff]
      constructor
      · rintro (rfl | ⟨nonempty, lies⟩)
        · exact ⟨by simp, .inl (by simp)⟩
        · exact ⟨nonempty, .inr lies⟩
      · rintro ⟨nonempty, whole | lies⟩
        · exact .inl (by cases q; simpa using whole)
        · exact .inr ⟨nonempty, lies⟩

/-- The lineage of a path with segments is what it lies in. -/
theorem mem_lineage {p q : ModulePath} (nonempty : p.segments ≠ []) : q ∈ p.lineage ↔ p.Within q := by
  rw [lineage, mem_climb (by simpa using nonempty), List.reverse_reverse, Within]

private theorem climb_ordered (reversed : List String) : (climb reversed).Pairwise Within := by
  induction reversed with
  | nil => simp [climb]
  | cons segment rest ih =>
    cases rest with
    | nil => simp [climb]
    | cons next more =>
      change List.Pairwise Within ((⟨(segment :: next :: more).reverse⟩ : ModulePath) :: climb (next :: more))
      refine List.pairwise_cons.mpr ⟨?_, ih⟩
      intro q member
      obtain ⟨nonempty, lies⟩ := (mem_climb (List.cons_ne_nil _ _)).mp member
      exact ⟨nonempty, lies.trans ⟨[segment], by simp⟩⟩

/-- In a lineage the inner paths come before those that they lie in. -/
theorem lineage_ordered (p : ModulePath) : p.lineage.Pairwise Within := climb_ordered _

private theorem climb_nodup (reversed : List String) : (climb reversed).Nodup := by
  induction reversed with
  | nil => simp [climb]
  | cons segment rest ih =>
    cases rest with
    | nil => simp [climb]
    | cons next more =>
      change List.Nodup ((⟨(segment :: next :: more).reverse⟩ : ModulePath) :: climb (next :: more))
      refine List.nodup_cons.mpr ⟨?_, ih⟩
      intro member
      have shorter := ((mem_climb (List.cons_ne_nil _ _)).mp member).2.length_le
      simp at shorter

theorem lineage_nodup (p : ModulePath) : p.lineage.Nodup := climb_nodup _

/-- A lineage starts with the path itself. -/
theorem lineage_head (p : ModulePath) : ∃ rest, p.lineage = p :: rest := by
  obtain ⟨segments⟩ := p
  unfold lineage
  generalize given : segments.reverse = reversed
  have same : segments = reversed.reverse := by rw [← given, List.reverse_reverse]
  subst same
  match reversed with
  | [] => exact ⟨[], rfl⟩
  | [segment] => exact ⟨[], rfl⟩
  | segment :: next :: more => exact ⟨climb (next :: more), rfl⟩

/-- Leaving a module leads to one that it lies in. -/
theorem within_of_pop? {p q : ModulePath} (left : p.pop? = some q) : p.Within q := by
  unfold pop? at left
  split at left
  · cases left
  · next long =>
    cases left
    refine ⟨?_, List.dropLast_prefix _⟩
    intro empty
    have := congrArg List.length empty
    simp only [parent, List.length_dropLast, List.length_nil] at this
    unfold length at long
    omega

/-! ### Joining -/

theorem isCratePath_eq_false_iff {p : ModulePath} : p.isCratePath = false ↔ ∀ first ∈ p.segments.head?, first ≠ "crate" := by
  unfold isCratePath first?
  cases p.segments with
  | nil => simp
  | cons segment rest => simp

/-- A path that is not crate-rooted is appended. -/
theorem join_relative (p : ModulePath) {q : ModulePath} (relative : q.isCratePath = false) :
    p.join q = ⟨p.segments ++ q.segments⟩ := by
  simp [join, relative]

/-- Segments that do not start with `crate` are appended. -/
theorem join_plain (p : ModulePath) {rest : List String} (plain : ∀ first ∈ rest.head?, first ≠ "crate") :
    p.join ⟨rest⟩ = ⟨p.segments ++ rest⟩ :=
  p.join_relative (isCratePath_eq_false_iff.mpr plain)

/-- A crate-rooted path replaces what is before it. -/
theorem join_absolute (p : ModulePath) {q : ModulePath} (absolute : q.isCratePath = true) : p.join q = q := by
  simp [join, absolute]

theorem join_empty (p : ModulePath) : p.join ⟨[]⟩ = p := by
  rw [p.join_plain (by simp), List.append_nil]

/-- A joined path starts at the crate root exactly if one of the two does. -/
theorem isCratePath_join (p q : ModulePath) : (p.join q).isCratePath = (p.isCratePath || q.isCratePath) := by
  cases start : q.isCratePath with
  | true => simp [join_absolute _ start, start]
  | false =>
    rw [join_relative _ start, Bool.or_false]
    cases shape : p.segments with
    | nil =>
      have same : (⟨[] ++ q.segments⟩ : ModulePath) = q := rfl
      rw [same, start, isCratePath, first?, shape]
      rfl
    | cons first rest => simp [isCratePath, first?, shape]

theorem join_isCratePath {p q : ModulePath} (absolute : p.isCratePath = true) : (p.join q).isCratePath = true := by
  rw [isCratePath_join, absolute, Bool.true_or]

theorem join_ne_nil {p q : ModulePath} (nonempty : p.segments ≠ []) : (p.join q).segments ≠ [] := by
  unfold join
  split
  · next absolute => exact segments_ne_nil absolute
  · simp [nonempty]

/-- A path that starts with a name other than `crate` is appended. -/
theorem join_segments {p q : ModulePath} {first : String} {rest : List String}
    (segments : q.segments = first :: rest) (plain : first ≠ "crate") :
    (p.join q).segments = p.segments ++ q.segments := by
  rw [p.join_relative (isCratePath_eq_false_iff.mpr (by simpa [segments] using plain))]

/-- What a path joined to `p` leads to lies in the module that its first segment names in `p`. -/
theorem join_within_first {p q : ModulePath} {first : String} {rest : List String}
    (segments : q.segments = first :: rest) (plain : first ≠ "crate") : (p.join q).Within (p.join ⟨[first]⟩) := by
  have down : (p.join ⟨[first]⟩).segments = p.segments ++ [first] := join_segments (q := ⟨[first]⟩) rfl plain
  refine ⟨by simp [down], ?_⟩
  rw [join_segments segments plain, down, segments]
  exact ⟨rest, by simp⟩

end CrateFold.ModulePath
