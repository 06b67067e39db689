import CrateFold.Proofs.Resolution

/-!
Canonical paths and their owners. In any map that passes the check before a search, a path with segments has in every
crate-rooted module a canonical form that is crate-rooted, or none, and the owner of a crate-rooted path is the longest
beginning of it that is a key, so that looking it up succeeds (`canonical_absolute`). A crate-rooted path is its own
canonical form unless its second segment is `crate` again (`canonical_eq_self_iff`); joining puts a `crate` there only
if there was one behind the first segment of the path or of the module (`Rebased.crate_not_mem`).
-/
namespace CrateFold.ModuleMap

variable {m : ModuleMap} {module path target base : ModulePath} {rest : List String}

/-- A crate-rooted path is its own canonical form, in whichever module, unless `crate` starts it anew behind its first
segment. -/
theorem canonical_eq_self_iff (absolute : path.isCratePath = true) :
    (m.canonical path module).outcome = .ok (some path) ↔ path.suffix.isCratePath = false := by
  obtain ⟨rest, segments⟩ := ModulePath.isCratePath_iff.mp absolute
  obtain rfl : path = ⟨"crate" :: rest⟩ := congrArg ModulePath.mk segments
  have form : (m.canonical ⟨"crate" :: rest⟩ module).outcome = .ok (some (ModulePath.crate.join ⟨rest⟩)) := rfl
  have suffix : ModulePath.suffix ⟨"crate" :: rest⟩ = ⟨rest⟩ := rfl
  rw [form, suffix, Except.ok.injEq, Option.some.injEq]
  cases again : (ModulePath.mk rest).isCratePath with
  | false => simp [ModulePath.join_relative _ again, ModulePath.crate]
  | true => simp [ModulePath.join_absolute _ again]

/-- Without a `crate` behind the first segments of a path and of its module, there is none in the canonical form. -/
theorem Rebased.crate_not_mem (rebased : Rebased module path target base rest) (inside : module.isCratePath = true)
    (inPath : "crate" ∉ path.suffix.segments) (inModule : "crate" ∉ module.suffix.segments) :
    "crate" ∉ target.suffix.segments := by
  have appended : "crate" ∉ rest := fun member => inPath (rebased.behind member)
  obtain ⟨outer, start⟩ := ModulePath.isCratePath_iff.mp (rebased.base_isCratePath inside)
  have inBase : "crate" ∉ outer := by
    rcases rebased.around with ⟨-, up⟩ | rfl
    · -- what is left of the module goes on as the module does
      obtain ⟨names, segments⟩ := ModulePath.isCratePath_iff.mp inside
      rw [start, segments, List.cons_prefix_cons] at up
      intro member
      exact inModule (by simpa [ModulePath.suffix, segments] using up.2.subset member)
    · have bare : "crate" :: [] = "crate" :: outer := start
      simp [← (List.cons.inj bare).2]
  have joined := rebased.joined
  rw [base.join_plain (by rintro _ first rfl; exact appended (List.mem_of_head? first)), start] at joined
  rw [joined, ModulePath.suffix]
  simp [inBase, appended]

/-- If the check before a search passes, then a path with segments has in every crate-rooted module of the map a canonical
form that is crate-rooted, or none, and such a form is its own canonical form in every module, provided that no `crate`
is written behind the first segment of the path or of the module; a crate-rooted path is its own canonical form exactly
if its second segment is not `crate` again; and the owner of such a path is a key, the longest of those that the path
starts with. -/
theorem canonical_absolute (m : ModuleMap) (checked : m.check = .ok ()) :
    (∀ module ∈ m.keys, module.isCratePath = true → ∀ path : ModulePath, path ≠ .empty →
      ∃ answer, (m.canonical path module).outcome = .ok answer ∧ ∀ target, answer = some target →
        target.isCratePath = true ∧
        ("crate" ∉ path.suffix.segments → "crate" ∉ module.suffix.segments →
          ∀ other, (m.canonical target other).outcome = .ok (some target))) ∧
    ∀ path : ModulePath, path.isCratePath = true →
      (∀ module, (m.canonical path module).outcome = .ok (some path) ↔ path.suffix.isCratePath = false) ∧
      m.owner path ∈ m.keys ∧ path.startsWith (m.owner path) = true ∧
        ∀ key ∈ m.keys, path.startsWith key = true → key.length ≤ (m.owner path).length := by
  have searchable := check_eq_ok_iff.mp checked
  constructor
  · intro module member inside path given
    have nonempty : path.segments ≠ [] := fun empty => given (congrArg ModulePath.mk empty)
    obtain ⟨answer, found, made⟩ :=
      searchable.canonical_cases member (ModulePath.segments_ne_nil inside) nonempty
    refine ⟨answer, found, ?_⟩
    intro target same
    obtain ⟨base, rest, rebased⟩ := made target same
    have absolute := rebased.isCratePath inside
    refine ⟨absolute, ?_⟩
    intro inPath inModule other
    have once := rebased.crate_not_mem inside inPath inModule
    rw [canonical_eq_self_iff absolute, ModulePath.isCratePath_eq_false_iff]
    rintro _ first rfl
    exact once (List.mem_of_head? first)
  · intro path absolute
    obtain ⟨member, ⟨-, lies⟩, innermost⟩ := owner_spec searchable.root absolute
    refine ⟨fun _ => canonical_eq_self_iff absolute, member, List.isPrefixOf_iff_prefix.mpr lies, ?_⟩
    intro key listed starts
    by_cases bare : key.segments = []
    · simp [ModulePath.length, bare]
    · exact (innermost key listed ⟨bare, List.isPrefixOf_iff_prefix.mp starts⟩).2.length_le

/-- A map with a module that lies in no other module of the map but the crate root. -/
def scatteredMap : ModuleMap := ⟨[(⟨["crate", "a", "b"]⟩, ⟨[.type "T"], [], false⟩), (.crate, .empty)]⟩

/-- In `crate::a::b` the path `super::x` is `crate::a::x`, which stays so and belongs to the crate root. -/
theorem canonical_absolute_scattered :
    scatteredMap.check = .ok () ∧
    (scatteredMap.canonical ⟨["super", "x"]⟩ ⟨["crate", "a", "b"]⟩).outcome = .ok (some ⟨["crate", "a", "x"]⟩) ∧
    (scatteredMap.canonical ⟨["crate", "a", "x"]⟩ .crate).outcome = .ok (some ⟨["crate", "a", "x"]⟩) ∧
    scatteredMap.owner ⟨["crate", "a", "x"]⟩ ∈ scatteredMap.keys ∧ scatteredMap.owner ⟨["crate", "a", "x"]⟩ = .crate := by
  have checked : scatteredMap.check = .ok () := rfl
  obtain ⟨canonical, owners⟩ := canonical_absolute scatteredMap checked
  obtain ⟨answer, found, made⟩ := canonical ⟨["crate", "a", "b"]⟩ (by decide) rfl ⟨["super", "x"]⟩ (by decide)
  have form : (scatteredMap.canonical ⟨["super", "x"]⟩ ⟨["crate", "a", "b"]⟩).outcome =
      .ok (some ⟨["crate", "a", "x"]⟩) := rfl
  rw [form] at found
  obtain ⟨-, again⟩ := made ⟨["crate", "a", "x"]⟩ (Except.ok.inj found).symm
  exact ⟨checked, form, again (by decide) (by decide) .crate, (owners _ rfl).2.1, by decide⟩

end CrateFold.ModuleMap
