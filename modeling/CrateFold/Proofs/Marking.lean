import CrateFold.Liveness.Collect
import CrateFold.Proofs.Resolution
import Mathlib.Data.List.Nodup
import Mathlib.Data.List.TakeWhile

/-!
What one step of the search for live modules does. Marking a module adds it and all that it lies in
(`mark_spec`); following a path marks its owner and notes the declaration that it names (`follow_spec`);
visiting a module follows its references in order (`visitScope_eq`, `followEach_spec`). No step fails on
a rooted map, and each says which modules and declarations it adds and why.
-/
namespace CrateFold

variable {m : ModuleMap} {k : Marking} {module p q target : ModulePath}

/-- The declaration that a canonical path names: what follows its owner, if the owner declares it. -/
def ModuleMap.named? (m : ModuleMap) (target : ModulePath) : Option ModulePath :=
  match target.segments.drop (m.owner target).length with
  | [] => none
  | name :: _ => if name ∈ m.names (m.owner target) then some ((m.owner target).join ⟨[name]⟩) else none

/-- A path written in a module leads to a canonical path. -/
def ModuleMap.LeadsTo (m : ModuleMap) (module : ModulePath) (r : Reference) (target : ModulePath) : Prop :=
  m.answer module r = .ok (some target)

namespace Marking

/-- With each live module those that it lies in are live. -/
def Rising (k : Marking) : Prop := ∀ p ∈ k.live, ∀ q, p.Within q → q ∈ k.live

/-- The live modules are modules of the map, each once and with those it lies in; the queue holds some of
them in the order found. -/
structure Fits (m : ModuleMap) (k : Marking) : Prop where
  keys : ∀ p ∈ k.live, p ∈ m.keys
  ancestors : k.Rising
  distinct : k.live.Nodup
  queued : k.queue.Sublist k.live

/-- What becomes live is put into the queue, and nothing is taken back. -/
def Grows (k next : Marking) : Prop :=
  ∃ added, next.live = k.live ++ added ∧ next.queue = k.queue ++ added

theorem grows_refl (k : Marking) : k.Grows k := ⟨[], by simp, by simp⟩

theorem Grows.trans {k next last : Marking} (one : k.Grows next) (two : next.Grows last) : k.Grows last := by
  obtain ⟨added, live, queue⟩ := one
  obtain ⟨more, live', queue'⟩ := two
  exact ⟨added ++ more, by simp [live, live'], by simp [queue, queue']⟩

theorem Grows.live {k next : Marking} (grows : k.Grows next) (member : p ∈ k.live) : p ∈ next.live := by
  obtain ⟨added, live, -⟩ := grows
  rw [live]
  exact List.mem_append_left _ member

/-! ### Marking a module -/

theorem markEach_outcome (paths : List ModulePath) (k : Marking) :
    (markEach paths k).outcome = .ok { k with live := k.live ++ paths, queue := k.queue ++ paths } := by
  induction paths generalizing k with
  | nil => simp [markEach]
  | cons path rest ih => simp [markEach, ih]

/-- The modules that marking adds: those on the way up to the first that is live. -/
def unmarked (k : Marking) (p : ModulePath) : List ModulePath := (p.lineage.takeWhile (!k.isLive ·)).reverse

theorem mark_outcome (k : Marking) (p : ModulePath) :
    (k.mark p).outcome =
      .ok { k with live := k.live ++ k.unmarked p, queue := k.queue ++ k.unmarked p } :=
  markEach_outcome _ k

theorem not_live_of_unmarked (member : q ∈ k.unmarked p) : q ∉ k.live := by
  have := List.mem_takeWhile_imp (List.mem_reverse.mp member)
  simpa [isLive] using this

theorem lineage_of_unmarked (member : q ∈ k.unmarked p) : q ∈ p.lineage :=
  (List.takeWhile_sublist _).subset (List.mem_reverse.mp member)

/-- What a path lies in is live already or added. -/
theorem live_or_unmarked (rising : k.Rising) (member : q ∈ p.lineage) : q ∈ k.live ∨ q ∈ k.unmarked p := by
  rw [← List.takeWhile_append_dropWhile (p := fun q => !k.isLive q) (l := p.lineage)] at member
  rcases List.mem_append.mp member with new | old
  · exact .inr (List.mem_reverse.mpr new)
  · left
    have ordered := p.lineage_ordered
    rw [← List.takeWhile_append_dropWhile (p := fun q => !k.isLive q) (l := p.lineage)] at ordered
    have outer := (List.pairwise_append.mp ordered).2.1
    cases rest : p.lineage.dropWhile (fun q => !k.isLive q) with
    | nil => rw [rest] at old; cases old
    | cons first more =>
      -- the first module left over is live, and the others are those it lies in
      have live : first ∈ k.live := by
        have := List.head?_dropWhile_not (fun q => !k.isLive q) p.lineage
        rw [rest] at this
        simpa [isLive] using this
      rw [rest] at old outer
      rcases List.mem_cons.mp old with rfl | further
      · exact live
      · exact rising first live q ((List.pairwise_cons.mp outer).1 q further)

/-- Marking a module marks what it lies in. -/
theorem mark_rising {next : Marking} (rising : k.Rising) (marked : (k.mark p).outcome = .ok next) : next.Rising := by
  rw [mark_outcome] at marked
  cases marked
  intro q live outer lies
  rcases List.mem_append.mp live with old | new
  · exact List.mem_append_left _ (rising q old outer lies)
  · have listed := lineage_of_unmarked new
    by_cases nonempty : p.segments = []
    · -- the empty path lies in nothing
      rw [ModulePath.lineage, nonempty] at listed
      cases List.mem_singleton.mp listed
      exact absurd (List.prefix_nil.mp lies.2) lies.1
    · rw [ModulePath.mem_lineage nonempty] at listed
      exact List.mem_append.mpr (live_or_unmarked rising ((ModulePath.mem_lineage nonempty).mpr (listed.trans lies)))

/-- What is marked was not live before, so no module becomes live twice. -/
theorem mark_nodup {next : Marking} (distinct : k.live.Nodup) (marked : (k.mark p).outcome = .ok next) :
    next.live.Nodup := by
  rw [mark_outcome] at marked
  cases marked
  refine List.nodup_append.mpr ⟨distinct, ?_, ?_⟩
  · exact List.nodup_reverse.mpr ((ModulePath.lineage_nodup p).sublist (List.takeWhile_sublist _))
  · rintro q old _ new rfl
    exact not_live_of_unmarked new old

/-- Marking a module of a rooted map makes it live with all that it lies in, and nothing else. -/
theorem mark_spec (rooted : m.Rooted) (fits : k.Fits m) (member : p ∈ m.keys) :
    ∃ next, (k.mark p).outcome = .ok next ∧ next.Fits m ∧ k.Grows next ∧ p ∈ next.live ∧
      next.declarations = k.declarations ∧ ∀ q ∈ next.live, q ∈ k.live ∨ p.Within q := by
  have nonempty := ModulePath.segments_ne_nil (rooted.absolute p member)
  have added : ∀ q ∈ k.unmarked p, p.Within q :=
    fun q new => (ModulePath.mem_lineage nonempty).mp (lineage_of_unmarked new)
  refine ⟨_, mark_outcome k p, ⟨?_, ?_, ?_, ?_⟩, ⟨k.unmarked p, rfl, rfl⟩, ?_, rfl, ?_⟩
  · intro q live
    rcases List.mem_append.mp live with old | new
    · exact fits.keys q old
    · exact rooted.within member (added q new)
  · exact mark_rising fits.ancestors (mark_outcome k p)
  · exact mark_nodup fits.distinct (mark_outcome k p)
  · exact fits.queued.append (List.Sublist.refl _)
  · exact List.mem_append.mpr
      (live_or_unmarked fits.ancestors ((ModulePath.mem_lineage nonempty).mpr (ModulePath.within_refl nonempty)))
  · intro q live
    rcases List.mem_append.mp live with old | new
    · exact .inl old
    · exact .inr (added q new)

/-! ### Following a path -/

/-- The marking after the declaration that a canonical path names is noted. -/
def noting (m : ModuleMap) (k : Marking) (target : ModulePath) : Marking :=
  match m.named? target with
  | some declaration => { k with declarations := insertNew k.declarations declaration }
  | none => k

theorem noting_live : (noting m k target).live = k.live := by
  unfold noting
  split <;> rfl

theorem noting_queue : (noting m k target).queue = k.queue := by
  unfold noting
  split <;> rfl

theorem noting_fits (fits : k.Fits m) : (noting m k target).Fits m := by
  constructor
  · rw [noting_live]; exact fits.keys
  · rw [Rising, noting_live]; exact fits.ancestors
  · rw [noting_live]; exact fits.distinct
  · rw [noting_live, noting_queue]; exact fits.queued

theorem noting_declarations {d : ModulePath} :
    d ∈ (noting m k target).declarations ↔ d ∈ k.declarations ∨ m.named? target = some d := by
  unfold noting
  split
  · next declaration named => rw [mem_insertNew, named, Option.some.injEq, eq_comm (a := d)]
  · next named => simp [named]

/-- Following a canonical path notes the declaration that it names, then marks its owner. -/
theorem reach_outcome (rooted : m.Rooted) (absolute : target.isCratePath = true) :
    (k.reach m target).outcome =
      if (m.owner target) ∈ k.live then .ok (noting m k target)
      else ((noting m k target).mark (m.owner target)).outcome := by
  have member := (ModuleMap.owner_spec rooted.root absolute).1
  have noted : (k.reach m target).outcome =
      (if (noting m k target).isLive (m.owner target) then pure (noting m k target)
        else (noting m k target).mark (m.owner target) : Traced Marking).outcome := by
    unfold reach noting ModuleMap.named?
    cases rest : target.segments.drop (m.owner target).length with
    | nil => simp [rest]
    | cons name more =>
      by_cases declared : name ∈ m.names (m.owner target)
      · simp [rest, rooted.searchable.namesAt member, declared]
      · simp [rest, rooted.searchable.namesAt member, declared]
  rw [noted, isLive, noting_live]
  by_cases old : m.owner target ∈ k.live
  · simp [old]
  · simp [old]

/-- What following paths of a module does: the owners of what they lead to become live with what those lie
in, and the declarations that they name are noted. -/
structure Follows (m : ModuleMap) (module : ModulePath) (paths : List Reference) (k next : Marking) : Prop where
  fits : next.Fits m
  grows : k.Grows next
  reached : ∀ r ∈ paths, ∀ target, m.LeadsTo module r target → m.owner target ∈ next.live
  reason : ∀ q ∈ next.live, q ∈ k.live ∨
    ∃ r ∈ paths, ∃ target, m.LeadsTo module r target ∧ (m.owner target).Within q
  named : ∀ d, d ∈ next.declarations ↔ d ∈ k.declarations ∨
    ∃ r ∈ paths, ∃ target, m.LeadsTo module r target ∧ m.named? target = some d

theorem follows_nil (fits : k.Fits m) : Follows m module [] k k :=
  ⟨fits, grows_refl k, by simp, fun _ live => .inl live, by simp⟩

theorem Follows.append {first rest : List Reference} {next last : Marking} (one : Follows m module first k next)
    (two : Follows m module rest next last) : Follows m module (first ++ rest) k last := by
  refine ⟨two.fits, one.grows.trans two.grows, ?_, ?_, ?_⟩
  · intro r member target leads
    rcases List.mem_append.mp member with early | late
    · exact two.grows.live (one.reached r early target leads)
    · exact two.reached r late target leads
  · intro q live
    rcases two.reason q live with before | ⟨r, late, rest⟩
    · rcases one.reason q before with old | ⟨r, early, rest⟩
      · exact .inl old
      · exact .inr ⟨r, List.mem_append_left _ early, rest⟩
    · exact .inr ⟨r, List.mem_append_right _ late, rest⟩
  · intro d
    rw [two.named, one.named, or_assoc]
    simp only [List.mem_append, or_and_right, exists_or]

/-- Following one path of a rooted map. -/
theorem follow_spec (rooted : m.Rooted) (fits : k.Fits m) (member : module ∈ m.keys) {r : Reference}
    (bound : Scope.Bound r.aliases) :
    ∃ next, (k.follow m module r.aliases r.shadowed r.path).outcome = .ok next ∧
      Follows m module [r] k next := by
  obtain ⟨found, resolved, absolute⟩ := rooted.answer_total member bound
  have outcome : (m.resolve module r.aliases r.shadowed r.path).outcome = .ok found := resolved
  have leads : ∀ target, m.LeadsTo module r target ↔ found = some target := by
    intro target
    simp [ModuleMap.LeadsTo, resolved]
  cases found with
  | none =>
    refine ⟨k, by simp [follow, outcome], fits, grows_refl k, ?_, fun _ live => .inl live, ?_⟩
    · intro _ _ target leadsTo
      cases (leads target).mp (by simp_all)
    · simp [leads]
  | some target =>
    have inMap := (ModuleMap.owner_spec rooted.root (absolute target rfl)).1
    have followed : (k.follow m module r.aliases r.shadowed r.path).outcome = (k.reach m target).outcome := by
      simp [follow, outcome]
    rw [followed, reach_outcome rooted (absolute target rfl)]
    by_cases old : m.owner target ∈ k.live
    · refine ⟨noting m k target, by simp [old], noting_fits fits, ⟨[], by simp [noting_live], by simp [noting_queue]⟩, ?_, ?_, ?_⟩
      · simp [leads, noting_live, old]
      · intro q live
        exact .inl (noting_live ▸ live)
      · simp [leads, noting_declarations]
    · obtain ⟨next, marked, nextFits, grows, live, declarations, reason⟩ :=
        mark_spec (k := noting m k target) rooted (noting_fits fits) inMap
      refine ⟨next, by simp [old, marked], nextFits, ?_, ?_, ?_, ?_⟩
      · obtain ⟨added, liveIs, queueIs⟩ := grows
        exact ⟨added, by rw [liveIs, noting_live], by rw [queueIs, noting_queue]⟩
      · simpa [leads] using live
      · intro q member
        rcases reason q member with before | lies
        · exact .inl (noting_live ▸ before)
        · exact .inr ⟨r, by simp, target, (leads target).mpr rfl, lies⟩
      · simp [leads, declarations, noting_declarations]

/-! ### Visiting a module -/

/-- Follows paths of a module in order. -/
def followEach (m : ModuleMap) (module : ModulePath) : List Reference → Marking → Traced Marking
  | [], k => return k
  | r :: rest, k => do
    let k ← k.follow m module r.aliases r.shadowed r.path
    followEach m module rest k

theorem followEach_append (first rest : List Reference) (k : Marking) :
    followEach m module (first ++ rest) k = followEach m module first k >>= followEach m module rest := by
  induction first generalizing k with
  | nil => simp [followEach]
  | cons r more ih => simp [followEach, ih]

theorem followAll_eq (aliases : Aliases) (shadowed : List String) (paths : List ModulePath) (k : Marking) :
    followAll m module aliases shadowed paths k = followEach m module (paths.map (⟨aliases, shadowed, ·⟩)) k := by
  induction paths generalizing k with
  | nil => rfl
  | cons path rest ih => simp [followAll, followEach, ih]

/-- Among items of known kinds, a visit goes to the nested scopes and to no others. -/
theorem visitItems_filter {items : List Item} {aliases : Aliases} {shadowed : List String} (fine : items.all Item.isKnown = true)
    (k : Marking) :
    visitItems m module aliases shadowed items k = visitItems m module aliases shadowed (items.filter Item.isNested) k := by
  induction items generalizing k with
  | nil => rfl
  | cons item rest ih =>
    simp only [List.all_cons, Bool.and_eq_true] at fine
    cases item with
    | generic _ _ | block _ =>
      rw [List.filter_cons_of_pos rfl]
      simp only [visitItems, ih fine.2]
    | module _ _ | imports _ | type _ => simpa [visitItems, visitItem, Item.isNested] using ih fine.2 k
    | file _ | bare _ => simp [Item.isKnown] at fine

/-- A visit of items fails where one of them is of no known kind. -/
theorem visitItems_unknown {items : List Item} {aliases : Aliases} {shadowed : List String}
    (unknown : items.all Item.isKnown = false) (k : Marking) :
    ∃ fault, (visitItems m module aliases shadowed items k).outcome = .error fault := by
  induction items generalizing k with
  | nil => cases unknown
  | cons item rest ih =>
    rw [visitItems, Traced.outcome_bind]
    cases first : (visitItem m module aliases shadowed item k).outcome with
    | error fault => exact ⟨fault, rfl⟩
    | ok next =>
      have known : item.isKnown = true := by
        cases item with
        | file _ | bare _ => cases first
        | _ => rfl
      exact ih (by simpa [known] using unknown) next

/-- A visit of a scope follows what is written in it and goes on in its nested scopes, in order; it fails if these cannot be
listed. -/
theorem visitScope_nested (s : Scope) (aliases : Aliases) (shadowed : List String) (k : Marking) :
    (∀ inner, s.nested = .ok inner → visitScope m module aliases shadowed s k =
      followEach m module (s.written (s.aliases ++ aliases) shadowed) k >>=
        visitItems m module (s.aliases ++ aliases) shadowed inner) ∧
    ∀ fault, s.nested = .error fault →
      ∃ raised, (visitScope m module aliases shadowed s k).outcome = .error raised := by
  have steps : visitScope m module aliases shadowed s k = followEach m module (s.written (s.aliases ++ aliases) shadowed) k >>=
      visitItems m module (s.aliases ++ aliases) shadowed s.items := by
    obtain ⟨items, accesses, definesMacros⟩ := s
    simp only [visitScope, Scope.written, followAll_eq, followEach_append, bind_assoc]
  rw [steps]
  refine ⟨fun inner listed => ?_, fun fault unlisted => ?_⟩
  · obtain ⟨fine, rfl⟩ := Scope.nestedIn_eq_ok_iff.mp listed
    rw [funext (visitItems_filter fine)]
  · have unknown : s.items.all Item.isKnown = false := by
      rw [Bool.eq_false_iff]
      intro fine
      cases unlisted.symm.trans (Scope.nestedIn_eq_ok_iff.mpr ⟨fine, rfl⟩)
    rw [Traced.outcome_bind]
    cases (followEach m module (s.written (s.aliases ++ aliases) shadowed) k).outcome with
    | error raised => exact ⟨raised, rfl⟩
    | ok next => exact visitItems_unknown unknown next

mutual

theorem visitScope_from : ∀ (s : ScopeOf Item) (aliases : Aliases) (shadowed : List String) (k : Marking),
    Scope.everywhere Scope.known s = true →
      visitScope m module aliases shadowed s k = followEach m module (Scope.referencesFrom aliases shadowed s) k
  | ⟨items, accesses, definesMacros⟩, aliases, shadowed, k, fine => by
    have all := Scope.everywhere_iff.mp fine
    simp only [visitScope, Scope.referencesFrom, Scope.written, followAll_eq, followEach_append, bind_assoc]
    congr 1
    funext k
    congr 1
    funext k
    exact visitItems_from items _ _ k all.1 all.2
termination_by structural s => s

theorem visitItems_from : ∀ (items : List Item) (aliases : Aliases) (shadowed : List String) (k : Marking),
    items.all Item.isKnown = true → Scope.everywhereIn Scope.known items = true →
      visitItems m module aliases shadowed items k = followEach m module (Scope.referencesIn aliases shadowed items) k
  | [], _, _, _, _, _ => rfl
  | item :: rest, aliases, shadowed, k, here, fine => by
    simp only [List.all_cons, Bool.and_eq_true] at here
    simp only [Scope.everywhereIn, Bool.and_eq_true] at fine
    simp only [visitItems, Scope.referencesIn, followEach_append, visitItem_from item _ _ _ here.1 fine.1]
    congr 1
    funext k
    exact visitItems_from rest _ _ k here.2 fine.2
termination_by structural l => l

theorem visitItem_from : ∀ (item : Item) (aliases : Aliases) (shadowed : List String) (k : Marking),
    item.isKnown = true → Scope.everywhereAt Scope.known item = true →
      visitItem m module aliases shadowed item k = followEach m module (Scope.referencesAt aliases shadowed item) k
  | .generic _ body, aliases, shadowed, k, _, fine => by
    have names := Scope.declaredNames_of_known (Scope.known_of_everywhere fine)
    simp only [visitItem, names, Traced.lift_ok, pure_bind]
    exact visitScope_from body _ _ k fine
  | .block body, aliases, shadowed, k, _, fine => by
    have names := Scope.declaredNames_of_known (Scope.known_of_everywhere fine)
    simp only [visitItem, names, Traced.lift_ok, pure_bind]
    exact visitScope_from body _ _ k fine
  | .module _ _, _, _, _, _, _ => rfl
  | .imports _, _, _, _, _, _ => rfl
  | .type _, _, _, _, _, _ => rfl
  | .file _, _, _, _, unknown, _ => by cases unknown
  | .bare _, _, _, _, unknown, _ => by cases unknown
termination_by structural item => item

end

/-- Visiting a module of known items follows its references in order. -/
theorem visitScope_eq {scope : Scope} (fine : Scope.everywhere Scope.known scope = true) (k : Marking) :
    visitScope m module [] [] scope k = followEach m module scope.references k :=
  visitScope_from scope [] [] k fine

/-- Following paths of a module of a rooted map. -/
theorem followEach_spec (rooted : m.Rooted) (member : module ∈ m.keys) {paths : List Reference}
    (bound : ∀ r ∈ paths, Scope.Bound r.aliases) (fits : k.Fits m) :
    ∃ next, (followEach m module paths k).outcome = .ok next ∧ Follows m module paths k next := by
  induction paths generalizing k with
  | nil => exact ⟨k, by simp [followEach], follows_nil fits⟩
  | cons r rest ih =>
    obtain ⟨next, followed, first⟩ := follow_spec rooted fits member (bound r (by simp))
    obtain ⟨last, others, later⟩ := ih (fun r member => bound r (by simp [member])) first.fits
    exact ⟨last, by simp [followEach, followed, others], first.append later⟩

/-- Visiting a module of a rooted map. -/
theorem visit_spec (rooted : m.Rooted) {scope : Scope} (entry : (module, scope) ∈ m.entries) (fits : k.Fits m) :
    ∃ next, (visitScope m module [] [] scope k).outcome = .ok next ∧
      Follows m module scope.references k next := by
  rw [visitScope_eq (rooted.known _ entry)]
  exact followEach_spec rooted (ModuleMap.mem_keys_of_mem entry)
    (fun r member => Scope.bound_references (rooted.targeted _ entry) member) fits

end Marking

end CrateFold
