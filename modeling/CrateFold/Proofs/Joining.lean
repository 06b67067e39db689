import CrateFold.Proofs.Paths
import CrateFold.Proofs.PathText

/-!
Joining paths, and walks that go down and up again. Joining is associative, whether or not a path on the way starts at
the crate root, and the empty path is its unit (`join_assoc`). On a walk, a trail that enters modules by paths that are
not crate-rooted grows by their segments (`enter_each`), and leaving takes the segments away again one by one
(`popEach_append`), the first of them apart (`popEach_single`): so what is entered is undone by as many pops as it has
segments (`pops_undo_pushes`).
-/
namespace CrateFold

namespace ModulePath

theorem empty_join (p : ModulePath) : empty.join p = p := by
  cases start : p.isCratePath with
  | true => exact join_absolute _ start
  | false => simp [join_relative _ start, empty]

theorem join_assoc (p s t : ModulePath) : (p.join s).join t = p.join (s.join t) := by
  cases last : t.isCratePath with
  | true => rw [join_absolute _ last, join_absolute _ last, join_absolute _ last]
  | false =>
    have whole := isCratePath_join s t
    rw [last, Bool.or_false] at whole
    cases middle : s.isCratePath with
    | true => rw [join_absolute _ middle, join_absolute _ (whole.trans middle)]
    | false =>
      -- nothing is replaced: all three are put in a row
      rw [join_relative _ last, join_relative _ middle, join_relative _ (whole.trans middle), join_relative _ last,
        List.append_assoc]

end ModulePath

namespace KeptPath

open ModulePath

/-! ### Entering modules -/

/-- The path that an operation pushes, if its text stands for one. -/
def Operation.pushed? : Operation → Option ModulePath
  | .push s => (parse s).toOption
  | .pushPath other => some other.path
  | _ => none

/-- An operation pushes a path that is not crate-rooted. -/
def Operation.Enters (operation : Operation) (path : ModulePath) : Prop :=
  operation.pushed? = some path ∧ path.isCratePath = false

theorem apply_of_pushed {operation : Operation} {q : ModulePath} (pushed : operation.pushed? = some q) (p : ModulePath) :
    (trail p).apply operation = .ok (trail (p.join q)) := by
  cases operation with
  | push s =>
    cases read : parse s with
    | ok other =>
      simp only [Operation.pushed?, read, Except.toOption, Option.some.injEq] at pushed
      subst pushed
      simp [apply, push, joinText, read, Except.map]
    | error fault =>
      simp only [Operation.pushed?, read, Except.toOption] at pushed
      cases pushed
  | pushPath other =>
    cases pushed
    rfl
  | pop | join _ | joinPath _ | suffix | parent | toTrail | toKey | ofSegments _ => cases pushed

/-- Entering modules appends their segments, in order. -/
theorem enter_each {operations : List Operation} {paths : List ModulePath}
    (enters : List.Forall₂ Operation.Enters operations paths) (p : ModulePath) :
    operations.foldlM apply (trail p) = .ok (trail ⟨p.segments ++ paths.flatMap segments⟩) := by
  induction enters generalizing p with
  | nil => simp
  | cons here _ ih =>
    rw [List.foldlM_cons, apply_of_pushed here.1, ok_bind, join_relative _ here.2, ih, List.flatMap_cons, List.append_assoc]

/-! ### Leaving modules -/

/-- Tries a number of times to leave the innermost module, and says each time whether there was one to leave. -/
def popEach : Nat → KeptPath → Except Fault (List Bool × KeptPath)
  | 0, k => .ok ([], k)
  | n + 1, k => do
    let here ← k.pop
    let later ← popEach n here.2
    return (here.1 :: later.1, later.2)

theorem popEach_add {first second : List Bool} {k next last : KeptPath} {a b : Nat}
    (before : popEach a k = .ok (first, next)) (after : popEach b next = .ok (second, last)) :
    popEach (a + b) k = .ok (first ++ second, last) := by
  induction a generalizing k first with
  | zero =>
    cases before
    rw [Nat.zero_add]
    exact after
  | succ a ih =>
    obtain ⟨here, popped, rest⟩ := bind_eq_ok.mp before
    obtain ⟨later, more, same⟩ := bind_eq_ok.mp rest
    cases same
    rw [Nat.succ_add, popEach, popped, ok_bind, ih more]
    rfl

/-- The last segment is left if there is one before it. -/
theorem pop_concat {front : List String} (nonempty : front ≠ []) (last : String) :
    (trail ⟨front ++ [last]⟩).pop = .ok (true, trail ⟨front⟩) := by
  have long : ¬ (⟨front ++ [last]⟩ : ModulePath).length ≤ 1 := by
    have := List.length_pos_iff.mpr nonempty
    simp only [ModulePath.length, List.length_append, List.length_singleton]
    omega
  simp [KeptPath.pop, ModulePath.pop, pop?, long, parent]

/-- The segments behind others are left one by one. -/
theorem popEach_append {front : List String} (nonempty : front ≠ []) (back : List String) :
    popEach back.length (trail ⟨front ++ back⟩) = .ok (List.replicate back.length true, trail ⟨front⟩) := by
  induction back using List.reverseRecOn with
  | nil => simp [popEach]
  | append_singleton back last ih =>
    have left := pop_concat (List.append_ne_nil_of_left_ne_nil nonempty back) last
    rw [List.length_append, List.length_singleton, popEach, ← List.append_assoc, left, ok_bind, ih]
    rfl

/-- A path of one segment stays. -/
theorem popEach_single {p : ModulePath} (short : p.length ≤ 1) (n : Nat) :
    popEach n (trail p) = .ok (List.replicate n false, trail p) := by
  induction n with
  | zero => rfl
  | succ n ih =>
    have stays : (trail p).pop = .ok (false, trail p) := by simp [KeptPath.pop, ModulePath.pop, pop?, short]
    rw [popEach, stays, ok_bind, ih]
    rfl

/-- Joining is associative and the empty path is its unit; and on a walk that is somewhere, entering modules by any paths
that are not crate-rooted is undone by as many pops as they have segments, after which one segment after another is
left until the first one stays. -/
theorem pops_undo_pushes :
    (∀ p s t : ModulePath, (p.join s).join t = p.join (s.join t)) ∧
    (∀ p : ModulePath, p.join .empty = p ∧ ModulePath.empty.join p = p) ∧
    ∀ (p : ModulePath) (operations : List Operation) (paths : List ModulePath), p ≠ .empty →
      List.Forall₂ Operation.Enters operations paths → ∃ entered, operations.foldlM apply (trail p) = .ok entered ∧
        popEach (paths.flatMap segments).length entered =
          .ok (List.replicate (paths.flatMap segments).length true, trail p) ∧
        ∀ n, popEach (p.length - 1 + n) (trail p) =
          .ok (List.replicate (p.length - 1) true ++ List.replicate n false, trail ⟨p.segments.take 1⟩) := by
  refine ⟨join_assoc, fun p => ⟨p.join_empty, p.empty_join⟩, ?_⟩
  intro p operations paths given enters
  refine ⟨_, enter_each enters p, ?_, ?_⟩
  · have nonempty : p.segments ≠ [] := fun empty => given (congrArg ModulePath.mk empty)
    exact popEach_append nonempty (paths.flatMap segments)
  · intro n
    obtain ⟨_ | ⟨first, rest⟩⟩ := p
    · exact absurd rfl given
    · have left := popEach_append (List.cons_ne_nil first []) rest
      exact popEach_add left (popEach_single (p := ⟨[first]⟩) Nat.le.refl n)

/-- From `crate::a` a walk goes to `crate::a::b::c::d` in two steps and back to `crate`. -/
theorem pops_undo_pushes_nested :
    List.Forall₂ Operation.Enters [.push " b ::\tc", .pushPath (.key ⟨["d"]⟩)] [⟨["b", "c"]⟩, ⟨["d"]⟩] ∧
    ∃ entered, [Operation.push " b ::\tc", .pushPath (.key ⟨["d"]⟩)].foldlM apply (trail ⟨["crate", "a"]⟩) = .ok entered ∧
      popEach 3 entered = .ok ([true, true, true], trail ⟨["crate", "a"]⟩) ∧
      popEach 3 (trail ⟨["crate", "a"]⟩) = .ok ([true, false, false], trail ⟨["crate"]⟩) := by
  have enters : List.Forall₂ Operation.Enters [.push " b ::\tc", .pushPath (.key ⟨["d"]⟩)] [⟨["b", "c"]⟩, ⟨["d"]⟩] :=
    .cons ⟨by decide +kernel, rfl⟩ (.cons ⟨rfl, rfl⟩ .nil)
  obtain ⟨entered, reached, undone, left⟩ := pops_undo_pushes.2.2 ⟨["crate", "a"]⟩ _ _ (by decide) enters
  exact ⟨enters, entered, reached, undone, left 2⟩

end KeptPath

end CrateFold
