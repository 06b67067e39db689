import CrateFold.Tree.SourceUnit

/-!
Opening computations that may fail. A computation of two steps succeeds exactly when both do
(`bind_eq_ok`); a step that is known to succeed disappears (`ok_bind`, `Traced.lift_ok`); where steps also change
a state, the second one starts from what the first one leaves (`run_bind`). Reading the text of a node
gives no error that a bundle reports (`SourceUnit.textOf_ne_bundle`).
-/
namespace CrateFold

variable {ε α β : Type}

@[simp] theorem ok_bind (a : α) (f : α → Except ε β) : ((.ok a : Except ε α) >>= f) = f a := rfl

@[simp] theorem error_bind (fault : ε) (f : α → Except ε β) :
    ((.error fault : Except ε α) >>= f) = .error fault := rfl

@[simp] theorem pure_eq_ok (a : α) : (pure a : Except ε α) = .ok a := rfl

@[simp] theorem map_ok (f : α → β) (a : α) : f <$> (.ok a : Except ε α) = .ok (f a) := rfl

/-- Both steps of a successful computation succeed. -/
theorem bind_eq_ok {x : Except ε α} {f : α → Except ε β} {b : β} :
    (x >>= f) = .ok b ↔ ∃ a, x = .ok a ∧ f a = .ok b := by
  cases x with
  | error fault => simp
  | ok a => simp

/-- A computation of two steps fails as its first step does, or as the second one on what the first gives. -/
theorem bind_eq_error {x : Except ε α} {f : α → Except ε β} {fault : ε} :
    (x >>= f) = .error fault ↔ x = .error fault ∨ ∃ a, x = .ok a ∧ f a = .error fault := by
  cases x with
  | error fault => simp
  | ok a => simp

/-- What is made of a successful computation. -/
theorem map_eq_ok {x : Except ε α} {f : α → β} {b : β} : f <$> x = .ok b ↔ ∃ a, x = .ok a ∧ f a = b := by
  cases x with
  | error fault => simp [Functor.map, Except.map]
  | ok a => simp

/-- Two steps with a state: the second one is run from the state that the first one leaves, unless that failed. -/
theorem run_bind {σ : Type} (x : ExceptT ε (StateM σ) α) (f : α → ExceptT ε (StateM σ) β) (s : σ) : (x >>= f).run.run s =
    match x.run.run s with
    | (.ok a, t) => (f a).run.run t
    | (.error fault, t) => (.error fault, t) := by
  change (x.run >>= ExceptT.bindCont f).run s = _
  rw [StateT.run_bind]
  rcases x.run.run s with ⟨fault | a, t⟩ <;> rfl

namespace Traced

/-- A step without a log keeps its outcome. -/
@[simp] theorem outcome_lift (e : Except Fault α) : (liftM e : Traced α).outcome = e := rfl

@[simp] theorem lift_ok (a : α) : (liftM (.ok a : Except Fault α) : Traced α) = pure a := rfl

@[simp] theorem outcome_map (f : α → β) (x : Traced α) : (f <$> x).outcome = f <$> x.outcome := by
  rw [← bind_pure_comp, outcome_bind]
  cases x.outcome <;> rfl

end Traced

theorem SourceUnit.textOf_ne_bundle {u : SourceUnit} {error : BundleError} (t : Tag) :
    u.textOf t ≠ .error (.bundle error) := by
  unfold textOf
  cases Utf8.decode (u.bytes.slice t.start t.stop) with
  | error undecoded =>
    intro failed
    cases failed
  | ok text =>
    intro failed
    cases failed

end CrateFold
