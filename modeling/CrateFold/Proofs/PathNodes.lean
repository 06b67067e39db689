import CrateFold.Proofs.Comments
import CrateFold.Proofs.PathText

/-!
Paths as a source writes them. `SourceUnit.Spells` relates the nodes of a path to its segments and says whether a
`::` stands before the first of them; a path of one segment is a single node, a longer one nests to the left. Reading
such nodes gives the segments back (`Spells.segments`), or refuses the leading `::` (`Spells.refused`).
-/
namespace CrateFold

/-- A path as a source writes it. -/
structure SourcePath where
  /-- Whether a `::` stands before the first segment. -/
  leading : Bool := false
  segments : List String
deriving DecidableEq, Repr

/-- Whether all segments of a path can be read. -/
def SourcePath.IsValid (p : SourcePath) : Prop := (ModulePath.mk p.segments).IsValid

instance (p : ModulePath) : Decidable p.IsValid :=
  inferInstanceAs (Decidable (∀ segment ∈ p.segments, ModulePath.isSegment segment.toList = true))

instance (p : SourcePath) : Decidable p.IsValid := inferInstanceAs (Decidable (ModulePath.mk p.segments).IsValid)

/-- Whether the first part of a node is a `::`. -/
def Node.startsWithSeparator (n : Node) : Bool := n.children.head?.any (·.kind == "::")

namespace SourceUnit

/-- The path that a node spells. -/
inductive Spells (u : SourceUnit) : Node → SourcePath → Prop where
  | segment {n : Node} {text : String} (shape : n.pathShape = .segment) (read : u.textOf n.toTag = .ok text) :
      Spells u n ⟨false, [text]⟩
  | behind {n front name : Node} {p : SourcePath} {text : String} (shape : n.pathShape = .scoped)
      (path : n.child? "path" = some front) (earlier : Spells u front p) (last : n.child? "name" = some name)
      (read : u.textOf name.toTag = .ok text) : Spells u n { p with segments := p.segments ++ [text] }
  | leading {n name : Node} {text whole : String} (shape : n.pathShape = .scoped) (path : n.child? "path" = none)
      (separator : n.startsWithSeparator = true) (last : n.child? "name" = some name)
      (read : u.textOf name.toTag = .ok text) (all : u.textOf n.toTag = .ok whole) : Spells u n ⟨true, [text]⟩

/-- A computation that ends because a path starts with `::`. -/
def Refused {α : Type} (u : SourceUnit) (outcome : Except Fault α) : Prop :=
  ∃ t text, outcome = .error (.bundle (u.leadingSeparator t text))

variable {u : SourceUnit} {n : Node} {p : SourcePath}

theorem Refused.bind {α β : Type} {outcome : Except Fault α} (refused : u.Refused outcome) (next : α → Except Fault β) :
    u.Refused (outcome >>= next) := by
  obtain ⟨t, text, rfl⟩ := refused
  exact ⟨t, text, rfl⟩

theorem Refused.map {α β : Type} {outcome : Except Fault α} (refused : u.Refused outcome) (f : α → β) :
    u.Refused (f <$> outcome) := by
  obtain ⟨t, text, rfl⟩ := refused
  exact ⟨t, text, rfl⟩

theorem refuseLeadingSeparator_refused {text : String} (separator : n.startsWithSeparator = true)
    (read : u.textOf n.toTag = .ok text) : u.Refused (u.refuseLeadingSeparator n.toTag n.children) := by
  refine ⟨n.toTag, text, ?_⟩
  simp only [Node.startsWithSeparator] at separator
  simp only [refuseLeadingSeparator, separator, if_true, read]
  rfl

/-- The segments of a node behind a path. -/
theorem segments_scoped (shape : n.pathShape = .scoped) : u.segments n = (do
    match n.child? "path" with
    | some front => u.extendSegments n.children (← u.segments front)
    | none => do
      u.refuseLeadingSeparator n.toTag n.children
      u.extendSegments n.children (some [])) := by
  rcases n with ⟨tag, children⟩
  simp only [segments, shape, segmentsAt_eq, Node.child?]
  cases children.find? (·.fills "path") with
  | none => rfl
  | some front =>
    simp only [Option.elim_some]
    cases u.segments front <;> rfl

theorem extendSegments_ok {name : Node} {text : String} (segments : List String) (last : n.child? "name" = some name)
    (read : u.textOf name.toTag = .ok text) : u.extendSegments n.children (some segments) = .ok (some (segments ++ [text])) := by
  rw [Node.child?] at last
  simp only [extendSegments, last, read]
  rfl

theorem visit_scoped (shape : n.pathShape = .scoped) (s : Scope) :
    u.visit .path n s = (n.child? "path").elim (.ok s) fun front => u.visit .path front s := by
  rcases n with ⟨tag, children⟩
  simp only [visit, shape]
  exact visitIn_first u (·.fills "path") .path children s

theorem ofSegments_of_valid (q : ModulePath) (valid : q.IsValid) : ModulePath.ofSegments q.segments = .ok q :=
  ModulePath.parse_text valid

/-- Paths behind others are told by their kinds, whether a path or an item is expected. -/
theorem ruleOfKind_of_scoped (shape : n.pathShape = .scoped) : Rule.ofKind n.kind = .path := by
  have kinds : n.kind = "scoped_identifier" ∨ n.kind = "scoped_type_identifier" := by
    unfold Tag.pathShape at shape
    grind
  rcases kinds with kind | kind
  · rw [kind]
    rfl
  · rw [kind]
    rfl

namespace Spells

theorem segments (spells : u.Spells n p) (plain : p.leading = false) : u.segments n = .ok (some p.segments) := by
  induction spells with
  | @segment n text shape read =>
    rcases n with ⟨tag, children⟩
    simp only [SourceUnit.segments, shape, read]
    rfl
  | behind shape path _ last read ih =>
    simp only [segments_scoped shape, path, ih plain, ok_bind, extendSegments_ok _ last read]
  | leading => cases plain

theorem refused (spells : u.Spells n p) (leading : p.leading = true) : u.Refused (u.segments n) := by
  induction spells with
  | segment => cases leading
  | behind shape path _ _ _ ih =>
    simp only [segments_scoped shape, path]
    exact (ih leading).bind _
  | leading shape path separator _ _ all =>
    simp only [segments_scoped shape, path]
    exact (refuseLeadingSeparator_refused separator all).bind _

theorem shape_of_long (spells : u.Spells n p) (long : 2 ≤ p.segments.length) : n.pathShape = .scoped := by
  cases spells with
  | segment => simp at long
  | behind shape => exact shape
  | leading shape => exact shape

/-- There is nothing on the way to the segments that would be read by itself. -/
theorem visit_path (spells : u.Spells n p) (s : Scope) : u.visit .path n s = .ok s := by
  induction spells with
  | @segment n text shape =>
    rcases n with ⟨tag, children⟩
    simp only [visit, shape]
  | behind shape path _ _ _ ih =>
    rw [visit_scoped shape, path]
    exact ih
  | leading shape path =>
    rw [visit_scoped shape, path]
    rfl

theorem usePath (spells : u.Spells n p) (valid : p.IsValid) (plain : p.leading = false) :
    u.usePath n = .ok ⟨p.segments⟩ := by
  have parsed : ModulePath.ofSegments p.segments = .ok ⟨p.segments⟩ := ofSegments_of_valid ⟨p.segments⟩ valid
  simp only [SourceUnit.usePath, spells.segments plain, ok_bind, parsed]

theorem usePath_refused (spells : u.Spells n p) (leading : p.leading = true) : u.Refused (u.usePath n) :=
  (spells.refused leading).bind _

/-- A path of several segments is an access where an item or expression stands. -/
theorem visit_item (spells : u.Spells n p) (long : 2 ≤ p.segments.length) (valid : p.IsValid) (plain : p.leading = false)
    (s : Scope) : u.visit .item n s = .ok (s.addAccess ⟨p.segments⟩) := by
  have shape := spells.shape_of_long long
  have rule := ruleOfKind_of_scoped shape
  have way := spells.visit_path s
  have read : u.recordPath n s = .ok (s.addAccess ⟨p.segments⟩) := by
    have parsed : ModulePath.ofSegments p.segments = .ok ⟨p.segments⟩ := ofSegments_of_valid ⟨p.segments⟩ valid
    simp only [recordPath, spells.segments plain, ok_bind, recordAccess, parsed]
    rfl
  rcases n with ⟨tag, children⟩
  simp only [visit, shape] at way
  simp only [visit, rule, way, ok_bind]
  exact read

end Spells

end SourceUnit

end CrateFold
