import CrateFold.Proofs.Encounters
import Mathlib.Data.Finset.Lattice.Lemmas

/-!
Recording accesses. The accesses of a scope are the paths that it was ever given, each where it was given first
(`firstOccurrences_firstSeen`), however the scope came about: made of parts, by accesses added, or by merging
(`History.accesses_scope`). A recorder keeps the set of the paths recorded beside their list and asks the set alone; as
long as the two agree (`Recorder.InStep`) it does to its scope what is done to a scope without such a set
(`Recorder.toScopeOf_record`, `History.recorder_scope`). On scopes with distinct accesses merging is associative, with
the empty scope as its unit (`Scope.merge_assoc`).
-/
namespace CrateFold

/-! ### First occurrences -/

/-- A list has the elements of another one, in the order in which they first occur there. -/
structure FirstOccurrences {α : Type} [DecidableEq α] (given list : List α) : Prop where
  mem_iff : ∀ a, a ∈ list ↔ a ∈ given
  inOrder : list.Pairwise fun a b => given.idxOf a < given.idxOf b

variable {α : Type} [DecidableEq α]

theorem firstOccurrences_firstSeen (l : List α) : FirstOccurrences l (firstSeen l) := by
  refine ⟨fun a => mem_firstSeen, ?_⟩
  induction l using List.reverseRecOn with
  | nil => exact .nil
  | append_singleton l last ih =>
    -- what is behind a list does not change where its elements first occur
    have before : (firstSeen l).Pairwise fun a b => (l ++ [last]).idxOf a < (l ++ [last]).idxOf b := by
      refine ih.imp_of_mem ?_
      intro a b first second less
      rwa [List.idxOf_append_of_mem (mem_firstSeen.mp first), List.idxOf_append_of_mem (mem_firstSeen.mp second)]
    rw [firstSeen_append, List.foldl_cons, List.foldl_nil]
    by_cases member : last ∈ l
    · rwa [insertNew_of_mem (mem_firstSeen.mpr member)]
    · have fresh : insertNew (firstSeen l) last = firstSeen l ++ [last] := by simp [insertNew, mem_firstSeen, member]
      rw [fresh]
      refine List.pairwise_append.mpr ⟨before, List.pairwise_singleton _ _, ?_⟩
      rintro a first b single
      rw [List.mem_singleton.mp single, List.idxOf_append_of_notMem member,
        List.idxOf_append_of_mem (mem_firstSeen.mp first)]
      have := List.idxOf_lt_length_of_mem (mem_firstSeen.mp first)
      omega

theorem nodup_firstSeen (l : List α) : (firstSeen l).Nodup := nodup_foldl_insertNew List.nodup_nil

/-- What was seen of two lists is seen of both in a row. -/
theorem firstSeen_append_firstSeen (l m : List α) : firstSeen (firstSeen l ++ firstSeen m) = firstSeen (l ++ m) := by
  rw [firstSeen_append, firstSeen_of_nodup (nodup_firstSeen l), firstSeen_append, firstSeen, firstSeen,
    foldl_insertNew_foldl, List.foldl_nil]

/-! ### Merging -/

namespace Scope

theorem merge_empty {s : Scope} (distinct : s.accesses.Nodup) : s.merge .empty = s := by
  rw [← absorb_eq_merge distinct, absorb_empty]

theorem empty_merge {s : Scope} (distinct : s.accesses.Nodup) : Scope.empty.merge s = s := by
  cases s
  simp [merge, ofParts, empty, firstSeen_of_nodup distinct]

theorem merge_assoc {s t : Scope} (first : s.accesses.Nodup) (second : t.accesses.Nodup) (r : Scope) :
    (s.merge t).merge r = s.merge (t.merge r) := by
  rw [← absorb_eq_merge first t, ← absorb_eq_merge (nodup_absorb first t), absorb_assoc, absorb_eq_merge first,
    absorb_eq_merge second]

theorem foldl_addAccess (given : List ModulePath) (s : Scope) :
    given.foldl addAccess s = ⟨s.items, given.foldl insertNew s.accesses, s.definesMacros⟩ := by
  induction given generalizing s with
  | nil => rfl
  | cons path rest ih => exact ih (s.addAccess path)

end Scope

/-! ### Recorders -/

/-- A scope and the set of the paths recorded in it. -/
structure Recorder extends ScopeOf Item where
  /-- The paths that are known to be in the list. -/
  seen : Finset ModulePath := ∅

namespace Recorder

/-- Records a path that is not in the set. -/
def record (r : Recorder) (path : ModulePath) : Recorder :=
  if path ∈ r.seen then r else { r with accesses := r.accesses ++ [path], seen := insert path r.seen }

/-- A recorder made of its parts: the paths are recorded one by one. -/
def ofParts (items : List Item) (given : List ModulePath) (definesMacros : Bool) : Recorder :=
  given.foldl record { items := items, definesMacros := definesMacros }

/-- Two recorders as one, made of the items and the paths of both. -/
def merge (r t : Recorder) : Recorder :=
  ofParts (r.items ++ t.items) (r.accesses ++ t.accesses) (r.definesMacros || t.definesMacros)

/-- The set holds what is in the list. -/
def InStep (r : Recorder) : Prop := r.seen = r.accesses.toFinset

variable {r t : Recorder}

/-- The set that is in step is known from the scope. -/
theorem InStep.ext (left : r.InStep) (right : t.InStep) (same : r.toScopeOf = t.toScopeOf) : r = t := by
  obtain ⟨scope, seen⟩ := r
  obtain ⟨other, others⟩ := t
  obtain rfl : scope = other := same
  obtain rfl : seen = others := left.trans right.symm
  rfl

theorem InStep.record (inStep : r.InStep) (path : ModulePath) : (r.record path).InStep := by
  unfold Recorder.record
  split
  · exact inStep
  · have seen : r.seen = r.accesses.toFinset := inStep
    change insert path r.seen = (r.accesses ++ [path]).toFinset
    rw [List.toFinset_append, ← seen, List.toFinset_cons, List.toFinset_nil, insert_empty_eq, Finset.union_comm]
    exact Finset.insert_eq path r.seen

/-- To ask the set comes to the same as to look through the list. -/
theorem toScopeOf_record (inStep : r.InStep) (path : ModulePath) :
    (r.record path).toScopeOf = Scope.addAccess r.toScopeOf path := by
  have asked : path ∈ r.seen ↔ path ∈ r.accesses := by rw [inStep, List.mem_toFinset]
  by_cases member : path ∈ r.accesses
  · simp [Recorder.record, asked, member, Scope.addAccess, insertNew]
  · simp [Recorder.record, asked, member, Scope.addAccess, insertNew]

theorem foldl_record (inStep : r.InStep) (given : List ModulePath) : (given.foldl record r).InStep ∧
    (given.foldl record r).toScopeOf = given.foldl Scope.addAccess r.toScopeOf := by
  induction given generalizing r with
  | nil => exact ⟨inStep, rfl⟩
  | cons path rest ih =>
    rw [List.foldl_cons, List.foldl_cons, ← toScopeOf_record inStep]
    exact ih (inStep.record path)

theorem ofParts_inStep (items : List Item) (given : List ModulePath) (definesMacros : Bool) :
    (ofParts items given definesMacros).InStep ∧
      (ofParts items given definesMacros).toScopeOf = Scope.ofParts items given definesMacros := by
  have start : ({ items := items, definesMacros := definesMacros } : Recorder).InStep := rfl
  obtain ⟨inStep, same⟩ := foldl_record start given
  exact ⟨inStep, same.trans (Scope.foldl_addAccess given _)⟩

end Recorder

/-! ### Histories -/

/-- How a scope came about. -/
inductive History where
  | made (items : List Item) (given : List ModulePath) (definesMacros : Bool)
  | added (before : History) (path : ModulePath)
  | merged (first second : History)

namespace History

/-- All the paths ever given, in order. -/
def given : History → List ModulePath
  | .made _ given _ => given
  | .added before path => before.given ++ [path]
  | .merged first second => first.given ++ second.given

/-- The scope that has come about. -/
def scope : History → Scope
  | .made items given definesMacros => Scope.ofParts items given definesMacros
  | .added before path => before.scope.addAccess path
  | .merged first second => first.scope.merge second.scope

/-- The recorder that has come about. -/
def recorder : History → Recorder
  | .made items given definesMacros => .ofParts items given definesMacros
  | .added before path => before.recorder.record path
  | .merged first second => first.recorder.merge second.recorder

theorem accesses_scope (h : History) : h.scope.accesses = firstSeen h.given := by
  induction h with
  | made items given definesMacros => rfl
  | added before path ih =>
    change insertNew before.scope.accesses path = _
    rw [ih, given, firstSeen_append]
    rfl
  | merged first second before after =>
    change firstSeen (first.scope.accesses ++ second.scope.accesses) = _
    rw [before, after, firstSeen_append_firstSeen, given]

theorem distinct (h : History) : h.scope.accesses.Nodup := h.accesses_scope ▸ nodup_firstSeen h.given

theorem recorder_scope (h : History) : h.recorder.InStep ∧ h.recorder.toScopeOf = h.scope := by
  induction h with
  | made items given definesMacros => exact Recorder.ofParts_inStep items given definesMacros
  | added before path ih =>
    refine ⟨ih.1.record path, (Recorder.toScopeOf_record ih.1 path).trans ?_⟩
    rw [ih.2, scope]
  | merged first second before after =>
    obtain ⟨inStep, same⟩ := Recorder.ofParts_inStep (first.recorder.items ++ second.recorder.items)
      (first.recorder.accesses ++ second.recorder.accesses)
      (first.recorder.definesMacros || second.recorder.definesMacros)
    refine ⟨inStep, same.trans ?_⟩
    rw [before.2, after.2, scope, Scope.merge]

/-- Histories that lead to one scope lead to one recorder. -/
theorem recorder_congr {h k : History} (same : h.scope = k.scope) : h.recorder = k.recorder :=
  h.recorder_scope.1.ext k.recorder_scope.1 (h.recorder_scope.2.trans (same.trans k.recorder_scope.2.symm))

/-- The history of the empty scope. -/
def nothing : History := .made [] [] false

/-- However a scope came about, its accesses are distinct, are the elements of the set, and are all paths ever given in
the order of their first occurrences; merging such scopes is associative and has the empty scope as its unit, with the set
and without; and it puts the items in a row, unites the accesses and keeps the macros of both. -/
theorem merge_recorded :
    (∀ h : History, h.recorder.toScopeOf = h.scope ∧ h.scope.accesses.Nodup ∧
      h.recorder.seen = h.scope.accesses.toFinset ∧ FirstOccurrences h.given h.scope.accesses) ∧
    (∀ a b c : History,
      (a.scope.merge b.scope).merge c.scope = a.scope.merge (b.scope.merge c.scope) ∧
      (a.recorder.merge b.recorder).merge c.recorder = a.recorder.merge (b.recorder.merge c.recorder)) ∧
    (∀ h : History, (Scope.empty.merge h.scope = h.scope ∧ h.scope.merge .empty = h.scope) ∧
      (Recorder.ofParts [] [] false).merge h.recorder = h.recorder ∧
      h.recorder.merge (.ofParts [] [] false) = h.recorder) ∧
    ∀ a b : History, (a.scope.merge b.scope).items = a.scope.items ++ b.scope.items ∧
      FirstOccurrences (a.scope.accesses ++ b.scope.accesses) (a.scope.merge b.scope).accesses ∧
      (a.scope.merge b.scope).definesMacros = (a.scope.definesMacros || b.scope.definesMacros) := by
  have assoc : ∀ a b c : History, (merged (merged a b) c).scope = (merged a (merged b c)).scope :=
    fun a b c => Scope.merge_assoc a.distinct b.distinct c.scope
  have left : ∀ h : History, (merged nothing h).scope = h.scope := fun h => Scope.empty_merge h.distinct
  have right : ∀ h : History, (merged h nothing).scope = h.scope := fun h => Scope.merge_empty h.distinct
  refine ⟨?_, fun a b c => ⟨assoc a b c, recorder_congr (assoc a b c)⟩,
    fun h => ⟨⟨left h, right h⟩, recorder_congr (left h), recorder_congr (right h)⟩,
    fun a b => ⟨rfl, firstOccurrences_firstSeen _, rfl⟩⟩
  intro h
  obtain ⟨inStep, same⟩ := h.recorder_scope
  refine ⟨same, h.distinct, same ▸ inStep, ?_⟩
  rw [accesses_scope]
  exact firstOccurrences_firstSeen h.given

end History

end CrateFold
