import CrateFold.Proofs.Splicing

/-!
Text around a source. A unit whose bytes stand among other bytes, with its tree moved along, is read as it is alone: the same
scope, or the same fault but for its place (`scope_surrounded`).
-/
namespace CrateFold

/-- What a fault says does not depend on its place. -/
theorem Fault.message_plain (fault : Fault) : fault.plain.message = fault.message := by
  cases fault <;> rfl

namespace SourceUnit

/-- A unit with bytes put before and behind its own, and its tree moved to where its own are. -/
def surrounded (before after : Bytes) (u : SourceUnit) : SourceUnit where
  path := u.path
  bytes := before ++ u.bytes ++ after
  root := u.root.moved (before.length + ·)

theorem copied_surrounded (before after : Bytes) (u : SourceUnit) :
    Copied u (u.surrounded before after) (before.length + ·) 0 u.bytes.length := by
  intro a b _ _ _ inside
  calc (before ++ u.bytes ++ after).slice (before.length + a) (before.length + b)
      = (u.bytes ++ after).slice a b := by rw [List.append_assoc, Bytes.slice_append_right]
    _ = u.bytes.slice a b := Bytes.slice_append_left inside

/-- A unit whose nodes stand within its bytes is read among other bytes as it is alone: it gives the same scope, or the same
fault but for the place, with the same message. -/
theorem scope_surrounded (u : SourceUnit) (before after : Bytes) (inside : u.root.within 0 u.bytes.length = true) :
    (∀ s, u.scope = .ok s → (u.surrounded before after).scope = .ok s) ∧
    ∀ fault, u.scope = .error fault → ∃ other, (u.surrounded before after).scope = .error other ∧
      other.plain = fault.plain ∧ other.message = fault.message := by
  have alike : Alike (u.surrounded before after).scope u.scope :=
    visit_moved (copied_surrounded before after u) u.root .body .empty inside
  refine ⟨fun s => alike.eq_ok, fun fault refused => ?_⟩
  obtain ⟨other, failed, same⟩ := alike.eq_error refused
  refine ⟨other, failed, same, ?_⟩
  rw [← Fault.message_plain, same, Fault.message_plain]

/-- The call `m!(a :: b);` and the import `use ::c;`, which is refused. -/
def callAndImport : SourceUnit where
  path := ⟨0, ["lib.rs"]⟩
  bytes := Utf8.encode "m!(a :: b); use ::c;"
  root := ⟨{ kind := "source_file", named := true, stop := 20 }, [
    ⟨{ kind := "macro_invocation", named := true, stop := 10 }, [
      ⟨{ kind := "identifier", named := true, stop := 1, field := some "macro" }, []⟩,
      ⟨{ kind := "token_tree", named := true, start := 2, stop := 10 }, [
        ⟨{ kind := "identifier", named := true, start := 3, stop := 4 }, []⟩,
        ⟨{ kind := "identifier", named := true, start := 8, stop := 9 }, []⟩]⟩]⟩,
    ⟨{ kind := "use_declaration", named := true, start := 12, stop := 20 }, [
      ⟨{ kind := "scoped_identifier", named := true, start := 16, stop := 19, field := some "argument" }, [
        ⟨{ kind := "::", start := 16, stop := 18 }, []⟩,
        ⟨{ kind := "identifier", named := true, start := 18, stop := 19, field := some "name" }, []⟩]⟩]⟩]⟩

/-- The call alone. -/
def callOnly : SourceUnit :=
  { callAndImport with root := ⟨callAndImport.root.toTag, callAndImport.root.children.take 1⟩ }

theorem scope_surrounded_call :
    (callOnly.surrounded [47, 47, 10] [10]).scope = .ok ⟨[], [⟨["m"]⟩, ⟨["a", "b"]⟩], false⟩ ∧
    ∃ other, (callAndImport.surrounded [47, 47, 10] [10]).scope = .error other ∧
      other.message = "fully qualified path `::c` is not supported" := by
  have call : callOnly.scope = .ok ⟨[], [⟨["m"]⟩, ⟨["a", "b"]⟩], false⟩ := by rfl
  obtain ⟨fault, refused, words⟩ : ∃ fault, callAndImport.scope = .error fault ∧
      fault.message = "fully qualified path `::c` is not supported" := ⟨_, rfl, rfl⟩
  obtain ⟨other, failed, -, same⟩ :=
    (scope_surrounded callAndImport [47, 47, 10] [10] (by decide)).2 fault refused
  exact ⟨(scope_surrounded callOnly [47, 47, 10] [10] (by decide)).1 _ call, other, failed, same.trans words⟩

end SourceUnit

end CrateFold
