import CrateFold.Proofs.Outcomes
import CrateFold.Proofs.Ranges
import CrateFold.Prune
import CrateFold.Tree.Attribute
import Mathlib.Data.List.Forall2
import Mathlib.Data.List.TakeWhile

/-!
What goes with a module that is removed. Two walks go back over the siblings before a module: its attributes
are looked for across comments of any kind, while a removal goes on over attributes and doc comments only.
An attribute is removed with its module exactly if no other comment stands between them, and is left
behind as a whole otherwise (`removals_attributes`).
-/
namespace CrateFold

/-- The node `a` is an attribute of a placed node, with the siblings `between` nearer to it. -/
structure Placed.Attributed (p : Placed) (a : Node) (between : List Node) : Prop where
  kind : a.kind = "attribute_item"
  across : ∀ n ∈ between, n.kind ∈ attributeSiblings
  siblings : ∃ further, p.earlier = between ++ a :: further

theorem Placed.mem_attributes {p : Placed} {a : Node} : a ∈ p.attributes ↔ ∃ between, p.Attributed a between := by
  simp only [attributes, List.mem_reverse, List.mem_filter, beq_iff_eq]
  constructor
  · rintro ⟨near, kind⟩
    obtain ⟨between, rest, split⟩ := List.append_of_mem near
    refine ⟨between, kind, ?_, rest ++ p.earlier.dropWhile fun n => attributeSiblings.contains n.kind, ?_⟩
    · intro n member
      have listed : n ∈ between ++ a :: rest := List.mem_append_left _ member
      rw [← split] at listed
      have near := List.mem_takeWhile_imp listed
      exact List.contains_iff_mem.mp near
    · rw [← List.cons_append, ← List.append_assoc, ← split, List.takeWhile_append_dropWhile]
  · rintro ⟨between, kind, across, further, siblings⟩
    have all : ∀ n ∈ between, attributeSiblings.contains n.kind = true :=
      fun n member => List.contains_iff_mem.mpr (across n member)
    refine ⟨?_, kind⟩
    rw [siblings, List.takeWhile_append_of_pos all]
    simp [kind, attributeSiblings]

namespace SourceUnit

variable {u : SourceUnit} {live : Liveness} {edits : List Edit}

/-! ### Where a removal starts -/

theorem removalStart_cons {start found : Nat} {n : Node} {rest : List Node} :
    u.removalStart start (n :: rest) = .ok found ↔
      (u.belongsToNext n = .ok true ∧ u.removalStart n.start rest = .ok found) ∨
        u.belongsToNext n = .ok false ∧ start = found := by
  rw [removalStart]
  cases u.belongsToNext n with
  | error fault => simp
  | ok goes => cases goes <;> simp

theorem removalStart_le {start found : Nat} {earlier : List Node} (preceded : Preceded start earlier)
    (run : u.removalStart start earlier = .ok found) : found ≤ start := by
  induction earlier generalizing start with
  | nil =>
    cases run
    exact Nat.le_refl _
  | cons n rest ih =>
    obtain ⟨forward, before, further⟩ := preceded
    rcases removalStart_cons.mp run with ⟨-, run⟩ | ⟨-, rfl⟩
    · have := ih further run
      omega
    · exact Nat.le_refl _

/-- A sibling that would go with the module does so if all siblings nearer to the module do; otherwise it ends
before the removal starts. -/
theorem removalStart_sibling {start found : Nat} {between further : List Node} {a : Node}
    (goes : u.belongsToNext a = .ok true) (preceded : Preceded start (between ++ a :: further))
    (run : u.removalStart start (between ++ a :: further) = .ok found) :
    ((∀ n ∈ between, u.belongsToNext n = .ok true) → found ≤ a.start) ∧
      (¬ (∀ n ∈ between, u.belongsToNext n = .ok true) → a.stop ≤ found) := by
  induction between generalizing start with
  | nil =>
    obtain ⟨forward, before, beyond⟩ := preceded
    rcases removalStart_cons.mp run with ⟨-, run⟩ | ⟨stays, -⟩
    · exact ⟨fun _ => removalStart_le beyond run, fun broken => absurd (by simp) broken⟩
    · rw [goes] at stays
      cases stays
  | cons n rest ih =>
    obtain ⟨forward, before, beyond⟩ := preceded
    rcases removalStart_cons.mp run with ⟨takes, run⟩ | ⟨stays, rfl⟩
    · simpa [takes] using ih beyond run
    · refine ⟨fun all => ?_, fun _ => ?_⟩
      · have takes := all n (by simp)
        rw [stays] at takes
        cases takes
      · -- the removal starts behind `n`, and the attribute is further away than `n`
        have := Preceded.stop_le beyond
        omega

/-! ### The modules removed -/

/-- The edit removes a placed node with what goes with it. -/
structure Removes (u : SourceUnit) (p : Placed) (edit : Edit) : Prop where
  start : u.removalStart p.node.start p.earlier = .ok edit.start
  stop : edit.stop = p.node.stop
  empty : edit.replacement = []

/-- The edits remove modules among the given nodes, one each and in order. -/
def RemovesAmong (u : SourceUnit) (nodes : List Placed) (edits : List Edit) : Prop :=
  ∃ removed : List Placed, removed.Sublist nodes ∧ (∀ p ∈ removed, p.node.named = true ∧ p.node.kind = "mod_item") ∧
    List.Forall₂ u.Removes removed edits

theorem removesAmong_nil (u : SourceUnit) (nodes : List Placed) : u.RemovesAmong nodes [] :=
  ⟨[], List.nil_sublist _, by simp, .nil⟩

theorem RemovesAmong.append {first rest : List Placed} {more : List Edit} (one : u.RemovesAmong first edits)
    (two : u.RemovesAmong rest more) : u.RemovesAmong (first ++ rest) (edits ++ more) := by
  obtain ⟨removed, listed, modules, removes⟩ := one
  obtain ⟨others, later, also, further⟩ := two
  refine ⟨removed ++ others, listed.append later, ?_, List.rel_append removes further⟩
  intro p member
  rcases List.mem_append.mp member with early | late
  · exact modules p early
  · exact also p late

theorem RemovesAmong.mono {nodes more : List Placed} (removes : u.RemovesAmong nodes edits) (fewer : nodes.Sublist more) :
    u.RemovesAmong more edits := by
  obtain ⟨removed, listed, rest⟩ := removes
  exact ⟨removed, listed.trans fewer, rest⟩

mutual

/-- The walk at a node removes modules at and below the node. -/
theorem deadAt_removes : ∀ (n : Node) (earlier : List Node) (path after : ModulePath) (edits : List Edit),
    (u.deadAt live earlier n path).outcome = .ok (edits, after) → u.RemovesAmong (n.placed earlier) edits
  | ⟨tag, children⟩, earlier, path, after, edits, run => by
    rw [deadAt] at run
    split at run
    · cases run
      exact removesAmong_nil u _
    · next named =>
      split at run
      · split at run
        · cases run
          exact removesAmong_nil u _
        · exact (deadIn_removes children [] path after edits run).mono (List.sublist_cons_self _ _)
      · next module =>
        simp only [Traced.outcome_bind] at run
        obtain ⟨name, -, run⟩ := bind_eq_ok.mp run
        obtain ⟨inner, -, run⟩ := bind_eq_ok.mp run
        split at run
        · simp only [Traced.outcome_bind] at run
          obtain ⟨⟨found, left⟩, body, run⟩ := bind_eq_ok.mp run
          cases run
          exact (deadInBody_removes children [] inner left _ body).mono (List.sublist_cons_self _ _)
        · simp only [Traced.outcome_bind, Traced.outcome_record, ok_bind] at run
          obtain ⟨start, begins, run⟩ := bind_eq_ok.mp run
          cases run
          refine ⟨[⟨⟨tag, children⟩, earlier⟩], ?_, ?_, .cons ⟨begins, rfl, rfl⟩ .nil⟩
          · rw [Node.placed]
            simp
          · simpa using ⟨by simpa using named, by simpa using module⟩
termination_by structural n => n

theorem deadIn_removes : ∀ (nodes earlier : List Node) (path after : ModulePath) (edits : List Edit),
    (u.deadIn live earlier nodes path).outcome = .ok (edits, after) → u.RemovesAmong (Node.placedIn earlier nodes) edits
  | [], _, _, _, _, run => by
    cases run
    exact removesAmong_nil u _
  | n :: rest, earlier, path, after, edits, run => by
    simp only [deadIn, Traced.outcome_bind] at run
    obtain ⟨⟨first, between⟩, here, run⟩ := bind_eq_ok.mp run
    obtain ⟨⟨more, last⟩, later, run⟩ := bind_eq_ok.mp run
    cases run
    exact (deadAt_removes n earlier path between first here).append (deadIn_removes rest _ between last more later)
termination_by structural l => l

theorem deadInBody_removes : ∀ (nodes earlier : List Node) (path after : ModulePath) (edits : List Edit),
    (u.deadInBody live nodes path).outcome = .ok (edits, after) → u.RemovesAmong (Node.placedIn earlier nodes) edits
  | [], _, _, _, _, run => by
    cases run
    exact removesAmong_nil u _
  | n :: rest, earlier, path, after, edits, run => by
    rw [deadInBody] at run
    rw [Node.placedIn]
    split at run
    · exact (deadBelow_removes n earlier path after edits run).mono (List.sublist_append_left _ _)
    · exact (deadInBody_removes rest _ path after edits run).mono (List.sublist_append_right _ _)
termination_by structural l => l

theorem deadBelow_removes : ∀ (n : Node) (earlier : List Node) (path after : ModulePath) (edits : List Edit),
    (u.deadBelow live n path).outcome = .ok (edits, after) → u.RemovesAmong (n.placed earlier) edits
  | ⟨_, children⟩, _, path, after, edits, run =>
    (deadIn_removes children [] path after edits run).mono (List.sublist_cons_self _ _)
termination_by structural n => n

end

/-- What a removal does to the attributes of the module: those across attributes and doc comments only lie within it,
the others lie before it. -/
structure Cuts (u : SourceUnit) (p : Placed) (edit : Edit) : Prop where
  start : edit.start ≤ p.node.start
  stop : edit.stop = p.node.stop
  empty : edit.replacement = []
  within : ∀ a between, p.Attributed a between → (∀ n ∈ between, u.belongsToNext n = .ok true) →
    edit.start ≤ a.start ∧ a.stop ≤ edit.stop
  before : ∀ a between, p.Attributed a between → ¬ (∀ n ∈ between, u.belongsToNext n = .ok true) → a.stop ≤ edit.start

theorem Removes.cuts {p : Placed} {edit : Edit} (removes : u.Removes p edit) (forward : p.node.start ≤ p.node.stop)
    (preceded : Preceded p.node.start p.earlier) : u.Cuts p edit := by
  obtain ⟨start, stop, empty⟩ := removes
  have sibling : ∀ a between, p.Attributed a between → a.stop ≤ p.node.start ∧
      ((∀ n ∈ between, u.belongsToNext n = .ok true) → edit.start ≤ a.start) ∧
        (¬ (∀ n ∈ between, u.belongsToNext n = .ok true) → a.stop ≤ edit.start) := by
    rintro a between ⟨kind, -, further, siblings⟩
    have goes : u.belongsToNext a = .ok true := by simp [belongsToNext, kind]
    rw [siblings] at preceded start
    exact ⟨Preceded.stop_le preceded, removalStart_sibling goes preceded start⟩
  refine ⟨removalStart_le preceded start, stop, empty, ?_, ?_⟩
  · intro a between attributed all
    obtain ⟨below, near, -⟩ := sibling a between attributed
    exact ⟨near all, by omega⟩
  · intro a between attributed broken
    exact (sibling a between attributed).2.2 broken

/-- The removals of a unit with ordered and nested ranges. Each cuts out a module of the unit, from a sibling before it
or its own start up to its end. An attribute of the module lies within what is cut out if all siblings between them are
attributes and doc comments; if another comment stands between them, it lies before what is cut out. -/
theorem removals_attributes (ordered : u.root.ordered = true) (run : (u.removals live).outcome = .ok edits) :
    ∃ removed : List Placed, removed.Sublist (u.root.placed []) ∧ (∀ p ∈ removed, p.node.kind = "mod_item") ∧
      (∀ p ∈ removed, ∀ a, a ∈ p.attributes ↔ ∃ between, p.Attributed a between) ∧
        List.Forall₂ u.Cuts removed edits := by
  simp only [removals, Traced.outcome_bind] at run
  obtain ⟨⟨found, after⟩, walked, run⟩ := bind_eq_ok.mp run
  cases run
  obtain ⟨removed, listed, modules, removes⟩ := deadBelow_removes u.root [] .crate after _ walked
  have places := fun p member => Node.placed_preceded u.root [] ordered trivial p (listed.subset member)
  refine ⟨removed, listed, fun p member => (modules p member).2, fun p _ a => Placed.mem_attributes, ?_⟩
  refine ((List.forall₂_and_left removed _).mpr ⟨places, removes⟩).imp ?_
  rintro p edit ⟨⟨forward, preceded⟩, removes⟩
  exact removes.cuts forward preceded

/-- A module with two attributes before it, `#[b] // c` and `#[t]` on the next line. -/
def commentedModule : SourceUnit where
  path := ⟨0, ["lib.rs"]⟩
  bytes := Utf8.encode "#[b] // c\n#[t] mod m;"
  root := ⟨{ kind := "source_file", named := true, stop := 21 }, [
    ⟨{ kind := "attribute_item", named := true, stop := 4 }, []⟩,
    ⟨{ kind := "line_comment", named := true, start := 5, stop := 9 }, []⟩,
    ⟨{ kind := "attribute_item", named := true, start := 10, stop := 14 }, []⟩,
    ⟨{ kind := "mod_item", named := true, start := 15, stop := 21 }, [
      ⟨{ kind := "identifier", named := true, start := 19, stop := 20, field := some "name" }, []⟩]⟩]⟩

/-- The attribute behind the comment is left where it is, to apply to what follows the module. -/
theorem attributes_commentedModule : commentedModule.root.ordered = true ∧
    (commentedModule.removals ⟨[.crate], []⟩).outcome = .ok [⟨10, 21, []⟩] ∧
    ∃ p ∈ commentedModule.root.placed [], p.node.kind = "mod_item" ∧ commentedModule.Cuts p ⟨10, 21, []⟩ ∧
      (p.attributes.map fun a => (a.start, a.stop)) = [(0, 4), (10, 14)] := by
  have ordered : commentedModule.root.ordered = true := by decide
  have run : (commentedModule.removals ⟨[.crate], []⟩).outcome = .ok [⟨10, 21, []⟩] := by decide +kernel
  have only : ∀ p ∈ commentedModule.root.placed [], p.node.kind = "mod_item" →
      (p.attributes.map fun a => (a.start, a.stop)) = [(0, 4), (10, 14)] := by decide
  obtain ⟨removed, listed, modules, -, cuts⟩ := removals_attributes ordered run
  cases cuts with
  | @cons p _ _ _ cut _ =>
    have member := listed.subset (List.mem_cons_self ..)
    have module := modules p (List.mem_cons_self ..)
    exact ⟨ordered, run, p, member, module, cut, only p member module⟩

end SourceUnit

end CrateFold
