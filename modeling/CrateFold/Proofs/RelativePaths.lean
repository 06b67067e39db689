import CrateFold.Proofs.Resolution

/-!
Paths that say where they start from. Such a path may start with `self`, goes up by a number of `super`, and
then goes on with plain names (`RelativePath`). It stands for the path that is left of the module it is written
in when as many modules are left, followed by the names (`RelativePath.target`). Canonical paths follow this
rule for `self` alone and for any number of `super` (`canonical_relative`); after `self` a `super` is taken for
a name in the module.
-/
namespace CrateFold

/-- A path that starts with `self`, with `super`, or with `self` and then `super`. -/
structure RelativePath where
  /-- Whether it starts with `self`. -/
  own : Bool
  /-- The number of `super` that follow. -/
  ups : Nat
  rest : List String
  led : own = true ∨ 0 < ups
  plain : ∀ first ∈ rest.head?, first ∉ ModuleMap.startingSegments

namespace RelativePath

/-- The path as it is written. -/
def path (r : RelativePath) : ModulePath :=
  ⟨(if r.own then ["self"] else []) ++ (List.replicate r.ups "super" ++ r.rest)⟩

/-- What the path stands for in the module `crate` followed by `modules`: one module is left for each `super`, and
there is nothing above the crate root. -/
def target (r : RelativePath) (modules : List String) : Option ModulePath :=
  if r.ups ≤ modules.length then some ⟨"crate" :: modules.take (modules.length - r.ups) ++ r.rest⟩ else none

theorem first_ne (r : RelativePath) {first : String} (given : first ∈ r.rest.head?) : first ≠ "crate" ∧ first ≠ "super" := by
  have plain := r.plain first given
  simp only [ModuleMap.startingSegments, List.mem_cons, List.not_mem_nil, or_false, not_or] at plain
  exact ⟨plain.1, plain.2.2.2⟩

end RelativePath

namespace ModuleMap

variable {modules rest : List String}

/-- A number of `super` leaves as many modules, if there are so many below the crate root. -/
theorem ascend_supers (ups : Nat) (plain : ∀ first ∈ rest.head?, first ≠ "super") : ∀ modules : List String,
    ascend ⟨"crate" :: modules⟩ (List.replicate ups "super" ++ rest) =
      if ups ≤ modules.length then some (⟨"crate" :: modules.take (modules.length - ups)⟩, rest) else none := by
  induction ups with
  | zero =>
    intro modules
    cases rest with
    | nil => simp [ascend]
    | cons first more => simp [ascend, plain first rfl]
  | succ ups ih =>
    intro modules
    rcases List.eq_nil_or_concat modules with rfl | ⟨outer, last, rfl⟩
    · simp [List.replicate_succ, ascend, ModulePath.pop?, ModulePath.length]
    · -- the last module is left, and the others are climbed
      have left : ModulePath.pop? ⟨"crate" :: (outer ++ [last])⟩ = some ⟨"crate" :: outer⟩ := by
        have kept : ("crate" :: (outer ++ [last])).dropLast = "crate" :: outer := by
          rw [← List.cons_append, List.dropLast_concat]
        simp [ModulePath.pop?, ModulePath.length, ModulePath.parent, kept]
      rw [List.replicate_succ, List.cons_append, ascend, List.concat_eq_append, left]
      simp only [beq_self_eq_true, if_true, ih outer, List.length_append, List.length_cons, List.length_nil]
      by_cases enough : ups ≤ outer.length
      · have taken : (outer ++ [last]).take (outer.length - ups) = outer.take (outer.length - ups) :=
          List.take_append_of_le_length (by omega)
        simp [enough, taken]
      · simp [enough]

/-- A path that starts with `super` is written from the module that is left. -/
theorem canonical_super (m : ModuleMap) (modules : List String) (r : RelativePath) (other : r.own = false) :
    (m.canonical r.path ⟨"crate" :: modules⟩).outcome = .ok (r.target modules) := by
  have climbed := ascend_supers r.ups (fun first given => (r.first_ne given).2) modules
  have joined := fun p => ModulePath.join_plain p fun first given => (r.first_ne given).1
  obtain ⟨ups, above⟩ := Nat.exists_eq_succ_of_ne_zero (Nat.ne_of_gt (r.led.resolve_left (by simp [other])))
  have segments : r.path.segments = "super" :: (List.replicate ups "super" ++ r.rest) := by
    simp [RelativePath.path, other, above, List.replicate_succ]
  have whole : r.path.segments = List.replicate r.ups "super" ++ r.rest := by simp [RelativePath.path, other]
  unfold canonical RelativePath.target
  rw [whole, climbed, ← whole, segments]
  by_cases enough : r.ups ≤ modules.length
  · simp [enough, joined]
  · simp [enough]

/-- After `self` all segments are names in the module. -/
theorem canonical_self (m : ModuleMap) (modules : List String) (r : RelativePath) (own : r.own = true) :
    (m.canonical r.path ⟨"crate" :: modules⟩).outcome =
      .ok (some ⟨"crate" :: modules ++ List.replicate r.ups "super" ++ r.rest⟩) := by
  have joined : ∀ p : ModulePath, p.join ⟨List.replicate r.ups "super" ++ r.rest⟩ =
      ⟨p.segments ++ (List.replicate r.ups "super" ++ r.rest)⟩ := by
    intro p
    refine ModulePath.join_plain p ?_
    cases above : r.ups with
    | zero => simpa using fun first given => (r.first_ne given).1
    | succ ups => simp [List.replicate_succ]
  simp [canonical, RelativePath.path, own, joined]

/-- A path that starts with `self` or `super` stands for what is left of the module when one module is left for each
`super`, followed by the rest, and for nothing when there are not so many, except that a `super` after `self` is kept:
in that case the canonical path is that of the module with each `super` and the rest behind it, whatever is above. -/
theorem canonical_relative (m : ModuleMap) (modules : List String) (r : RelativePath) :
    ((m.canonical r.path ⟨"crate" :: modules⟩).outcome = .ok (r.target modules) ↔ r.own = false ∨ r.ups = 0) ∧
    (r.own = true → (m.canonical r.path ⟨"crate" :: modules⟩).outcome =
      .ok (some ⟨"crate" :: modules ++ List.replicate r.ups "super" ++ r.rest⟩)) := by
  refine ⟨?_, canonical_self m modules r⟩
  cases own : r.own with
  | false => simp [canonical_super m modules r own]
  | true =>
    rw [canonical_self m modules r own]
    unfold RelativePath.target
    by_cases up : r.ups = 0
    · simp [up]
    · by_cases enough : r.ups ≤ modules.length
      · -- the path with `super` in it is longer than the one that is meant
        simp only [enough, if_true, Except.ok.injEq, Option.some.injEq, ModulePath.mk.injEq, up, or_self, iff_false,
          Bool.true_eq_false]
        intro same
        have lengths := congrArg List.length same
        simp only [List.length_append, List.length_cons, List.length_replicate, List.length_take] at lengths
        omega
      · simp [enough, up]

/-- The path `super::super::x`. -/
def twoUp : RelativePath where
  own := false
  ups := 2
  rest := ["x"]
  led := by decide
  plain := by decide

/-- The path `self::super::x`. -/
def ownUp : RelativePath where
  own := true
  ups := 1
  rest := ["x"]
  led := by decide
  plain := by decide

/-- A map of the modules `crate`, `crate::a` and `crate::a::b`. -/
def nestedMap : ModuleMap := ⟨[(.crate, .empty), (⟨["crate", "a"]⟩, .empty), (⟨["crate", "a", "b"]⟩, .empty)]⟩

/-- In `crate::a::b` the path `super::super::x` is `crate::x`, and `self::super::x` is not `crate::a::x`. -/
theorem canonical_relative_nested :
    (nestedMap.canonical twoUp.path ⟨["crate", "a", "b"]⟩).outcome = .ok (some ⟨["crate", "x"]⟩) ∧
    ownUp.target ["a", "b"] = some ⟨["crate", "a", "x"]⟩ ∧
    (nestedMap.canonical ownUp.path ⟨["crate", "a", "b"]⟩).outcome = .ok (some ⟨["crate", "a", "b", "super", "x"]⟩) :=
  ⟨(canonical_relative nestedMap ["a", "b"] twoUp).1.mpr (.inl rfl), rfl, (canonical_relative nestedMap ["a", "b"] ownUp).2 rfl⟩

end ModuleMap

end CrateFold
