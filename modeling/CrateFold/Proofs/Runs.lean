import CrateFold.Proofs.Liveness

/-!
What every search that ends has done. Nothing is asked of the map but that its keys are distinct: a search
that meets an unknown item fails, and one that does not has no need to know what else there is. Such a run
takes two kinds of step, marking a module and visiting the first module in the queue, and what these keep
holds at its end (`Kept.liveness`). A visit follows the references of the module (`followEach_of_visit`). So
with each live module those are live that it lies in (`liveness_rising`) and those that its references lead
to (`liveness_followed`).
-/
namespace CrateFold

open ModuleMap

variable {m : ModuleMap} {k next : Marking} {module p : ModulePath} {r : Reference}

theorem Scope.namesOf_eq_ok {items : List Item} {list : List String} (run : namesOf items = .ok list) :
    list = namesIn items := by
  induction items generalizing list with
  | nil =>
    cases run
    rfl
  | cons item rest ih =>
    obtain ⟨name, declared, run⟩ := bind_eq_ok.mp run
    obtain ⟨others, later, run⟩ := bind_eq_ok.mp run
    cases run
    have same : item.name? = name := by
      cases item <;> cases declared <;> rfl
    rw [ih later]
    cases name <;> simp [namesIn, same]

namespace Marking

/-! ### Following a path -/

theorem mark_grows (run : (k.mark p).outcome = .ok next) : k.Grows next ∧ p ∈ next.live := by
  rw [mark_outcome] at run
  cases run
  refine ⟨⟨k.unmarked p, rfl, rfl⟩, ?_⟩
  obtain ⟨rest, first⟩ := p.lineage_head
  by_cases old : p ∈ k.live
  · exact List.mem_append_left _ old
  · refine List.mem_append_right _ (List.mem_reverse.mpr ?_)
    rw [first, List.takeWhile_cons_of_pos (by simpa [isLive] using old)]
    exact List.mem_cons_self

/-- What following a canonical path can do: declarations may be noted, and the owner is live already or marked. -/
theorem reach_cases {target : ModulePath} (run : (k.reach m target).outcome = .ok next) :
    ∃ noted : Marking, noted.live = k.live ∧ noted.queue = k.queue ∧
      (m.owner target ∈ k.live ∧ next = noted ∨ (noted.mark (m.owner target)).outcome = .ok next) := by
  have ends : ∀ noted : Marking, noted.live = k.live →
      (if noted.isLive (m.owner target) then pure noted else noted.mark (m.owner target) : Traced Marking).outcome =
        .ok next → m.owner target ∈ k.live ∧ next = noted ∨ (noted.mark (m.owner target)).outcome = .ok next := by
    intro noted live run
    split at run
    · next old =>
      cases run
      exact .inl ⟨by simpa [isLive, live] using old, rfl⟩
    · exact .inr run
  simp only [reach] at run
  split at run
  · exact ⟨k, rfl, rfl, ends k rfl run⟩
  · simp only [Traced.outcome_bind] at run
    obtain ⟨names, -, run⟩ := bind_eq_ok.mp run
    split at run
    · rw [pure_bind] at run
      refine ⟨_, ?_, ?_, ends _ ?_ run⟩ <;> rfl
    · exact ⟨k, rfl, rfl, ends k rfl run⟩

/-- What following a path can do: nothing if the path stands for nothing, and else what following the
canonical path does that it leads to. -/
theorem follow_cases (run : (k.follow m module r.aliases r.shadowed r.path).outcome = .ok next) :
    m.answer module r = .ok none ∧ next = k ∨
      ∃ target, m.LeadsTo module r target ∧ (k.reach m target).outcome = .ok next := by
  simp only [follow, Traced.outcome_bind] at run
  obtain ⟨answer, resolved, run⟩ := bind_eq_ok.mp run
  cases answer with
  | none =>
    cases run
    exact .inl ⟨resolved, rfl⟩
  | some target => exact .inr ⟨target, resolved, run⟩

/-- Following a path makes the owner of what it leads to live. -/
theorem follow_grows (run : (k.follow m module r.aliases r.shadowed r.path).outcome = .ok next) :
    k.Grows next ∧ ∀ target, m.LeadsTo module r target → m.owner target ∈ next.live := by
  rcases follow_cases run with ⟨nothing, rfl⟩ | ⟨target, leads, run⟩
  · refine ⟨grows_refl next, ?_⟩
    intro target leads
    cases leads.symm.trans nothing
  · obtain ⟨noted, live, queue, step⟩ := reach_cases run
    have only : ∀ other, m.LeadsTo module r other → other = target :=
      fun other also => Option.some.inj (Except.ok.inj (also.symm.trans leads))
    rcases step with ⟨old, rfl⟩ | marked
    · refine ⟨⟨[], by simp [live], by simp [queue]⟩, ?_⟩
      intro other also
      rw [only other also, live]
      exact old
    · obtain ⟨⟨added, liveIs, queueIs⟩, member⟩ := mark_grows marked
      refine ⟨⟨added, by rw [liveIs, live], by rw [queueIs, queue]⟩, ?_⟩
      intro other also
      rw [only other also]
      exact member

theorem follow_rising (rising : k.Rising) (run : (k.follow m module r.aliases r.shadowed r.path).outcome = .ok next) :
    next.Rising := by
  rcases follow_cases run with ⟨-, rfl⟩ | ⟨target, -, run⟩
  · exact rising
  · obtain ⟨noted, live, -, step⟩ := reach_cases run
    have before : noted.Rising := by
      rw [Rising, live]
      exact rising
    rcases step with ⟨-, rfl⟩ | marked
    · exact before
    · exact mark_rising before marked

theorem followEach_grows {paths : List Reference} (run : (followEach m module paths k).outcome = .ok next) :
    k.Grows next ∧ ∀ r ∈ paths, ∀ target, m.LeadsTo module r target → m.owner target ∈ next.live := by
  induction paths generalizing k with
  | nil =>
    cases run
    exact ⟨grows_refl _, by simp⟩
  | cons r rest ih =>
    simp only [followEach, Traced.outcome_bind] at run
    obtain ⟨followed, first, run⟩ := bind_eq_ok.mp run
    obtain ⟨grows, here⟩ := follow_grows first
    obtain ⟨later, others⟩ := ih run
    refine ⟨grows.trans later, ?_⟩
    intro r member target leads
    rcases List.mem_cons.mp member with rfl | listed
    · exact later.live (here target leads)
    · exact others r listed target leads

theorem followEach_rising {paths : List Reference} (rising : k.Rising)
    (run : (followEach m module paths k).outcome = .ok next) : next.Rising := by
  induction paths generalizing k with
  | nil =>
    cases run
    exact rising
  | cons r rest ih =>
    simp only [followEach, Traced.outcome_bind] at run
    obtain ⟨followed, first, run⟩ := bind_eq_ok.mp run
    exact ih (follow_rising rising first) run

/-! ### Visiting a module -/

mutual

theorem followEach_of_visitScope : ∀ (s : ScopeOf Item) (aliases : Aliases) (shadowed : List String) (k next : Marking),
    (visitScope m module aliases shadowed s k).outcome = .ok next →
      (followEach m module (Scope.referencesFrom aliases shadowed s) k).outcome = .ok next
  | ⟨items, accesses, definesMacros⟩, aliases, shadowed, k, next, run => by
    simp only [visitScope, Traced.outcome_bind, followAll_eq] at run
    obtain ⟨first, imported, run⟩ := bind_eq_ok.mp run
    obtain ⟨second, accessed, run⟩ := bind_eq_ok.mp run
    simp only [Scope.referencesFrom, Scope.written, followEach_append, Traced.outcome_bind, imported, accessed, ok_bind]
    exact followEach_of_visitItems items _ _ second next run
termination_by structural s => s

theorem followEach_of_visitItems : ∀ (items : List Item) (aliases : Aliases) (shadowed : List String) (k next : Marking),
    (visitItems m module aliases shadowed items k).outcome = .ok next →
      (followEach m module (Scope.referencesIn aliases shadowed items) k).outcome = .ok next
  | [], _, _, _, _, run => run
  | item :: rest, aliases, shadowed, k, next, run => by
    simp only [visitItems, Traced.outcome_bind] at run
    obtain ⟨first, visited, run⟩ := bind_eq_ok.mp run
    simp only [Scope.referencesIn, followEach_append, Traced.outcome_bind, followEach_of_visitItem item _ _ k first visited, ok_bind]
    exact followEach_of_visitItems rest _ _ first next run
termination_by structural l => l

theorem followEach_of_visitItem : ∀ (item : Item) (aliases : Aliases) (shadowed : List String) (k next : Marking),
    (visitItem m module aliases shadowed item k).outcome = .ok next →
      (followEach m module (Scope.referencesAt aliases shadowed item) k).outcome = .ok next
  | .generic _ body, aliases, shadowed, k, next, run => by
    simp only [visitItem, Traced.outcome_bind] at run
    obtain ⟨names, declared, run⟩ := bind_eq_ok.mp run
    cases Scope.namesOf_eq_ok declared
    exact followEach_of_visitScope body _ _ k next run
  | .block body, aliases, shadowed, k, next, run => by
    simp only [visitItem, Traced.outcome_bind] at run
    obtain ⟨names, declared, run⟩ := bind_eq_ok.mp run
    cases Scope.namesOf_eq_ok declared
    exact followEach_of_visitScope body _ _ k next run
  | .module _ _, _, _, _, _, run => run
  | .imports _, _, _, _, _, run => run
  | .type _, _, _, _, _, run => run
  | .file _, _, _, _, _, run => by cases run
  | .bare _, _, _, _, _, run => by cases run
termination_by structural item => item

end

/-- A visit that does not fail follows the references of the module in order. -/
theorem followEach_of_visit {scope : Scope} (run : (visitScope m module [] [] scope k).outcome = .ok next) :
    (followEach m module scope.references k).outcome = .ok next :=
  followEach_of_visitScope scope [] [] k next run

end Marking

open Marking

/-! ### Steps of the search -/

/-- A property of markings that the steps of the search keep: marking a module, and visiting the first module
in the queue. -/
structure Kept (m : ModuleMap) (property : Marking → Prop) : Prop where
  mark : ∀ {k next : Marking} {p : ModulePath}, property k → (k.mark p).outcome = .ok next → property next
  visit : ∀ {k next : Marking} {p : ModulePath} {queue : List ModulePath} {scope : Scope}, property k →
    k.queue = p :: queue → (p, scope) ∈ m.entries →
      (visitScope m p [] [] scope { k with queue := queue }).outcome = .ok next → property next

namespace Kept

variable {property : Marking → Prop} {waiting left : List (ModulePath × Scope)}

theorem drain (kept : Kept m property) (k : Marking) (waiting : List (ModulePath × Scope)) (listed : waiting ⊆ m.entries)
    (holds : property k) (run : (k.drain m waiting).outcome = .ok (next, left)) :
    property next ∧ next.queue = [] ∧ left ⊆ m.entries := by
  rw [Marking.drain] at run
  split at run
  · next empty =>
    cases run
    exact ⟨holds, empty, listed⟩
  · next path queue first =>
    split at run
    · cases run
    · next entry found =>
      simp only [Traced.outcome_bind] at run
      obtain ⟨visited, visiting, run⟩ := bind_eq_ok.mp run
      have member := List.mem_of_find?_eq_some found
      have same : entry.1 = path := by simpa using List.find?_some found
      have fewer : (waiting.eraseP (·.1 == path)).length < waiting.length := by
        rw [List.length_eraseP_of_mem member (List.find?_some found)]
        have := List.length_pos_of_mem member
        omega
      have inMap : (path, entry.2) ∈ m.entries := same ▸ listed member
      exact kept.drain visited _ (fun e rest => listed (List.mem_of_mem_eraseP rest)) (kept.visit holds first inMap visiting) run
termination_by waiting.length

theorem markMacros (kept : Kept m property) (entries : List (ModulePath × Scope)) (holds : property k)
    (run : (ModuleMap.markMacros entries k).outcome = .ok next) : property next := by
  induction entries generalizing k with
  | nil =>
    cases run
    exact holds
  | cons entry rest ih =>
    obtain ⟨path, scope⟩ := entry
    rw [ModuleMap.markMacros] at run
    split at run
    · simp only [Traced.outcome_bind, Traced.outcome_record, ok_bind] at run
      obtain ⟨marked, first, run⟩ := bind_eq_ok.mp run
      exact ih (kept.mark holds first) run
    · exact ih holds run

theorem round (kept : Kept m property) (entries : List (ModulePath × Scope)) (listed : waiting ⊆ m.entries)
    (holds : property k) (empty : k.queue = []) (run : (m.round entries k waiting).outcome = .ok (next, left)) :
    property next ∧ next.queue = [] ∧ left ⊆ m.entries := by
  induction entries generalizing k waiting with
  | nil =>
    cases run
    exact ⟨holds, empty, listed⟩
  | cons entry rest ih =>
    obtain ⟨path, scope⟩ := entry
    rw [ModuleMap.round] at run
    split at run
    · exact ih listed holds empty run
    · simp only [Traced.outcome_bind] at run
      obtain ⟨anchored, -, run⟩ := bind_eq_ok.mp run
      split at run
      · simp only [Traced.outcome_bind, Traced.outcome_record, ok_bind] at run
        obtain ⟨marked, first, run⟩ := bind_eq_ok.mp run
        obtain ⟨⟨drained, waits⟩, second, run⟩ := bind_eq_ok.mp run
        obtain ⟨after, done, still⟩ := kept.drain marked waiting listed (kept.mark holds first) second
        exact ih still after done run
      · exact ih listed holds empty run

theorem rounds (kept : Kept m property) (k : Marking) (waiting : List (ModulePath × Scope)) (listed : waiting ⊆ m.entries)
    (holds : property k) (empty : k.queue = []) (run : (m.rounds k waiting).outcome = .ok next) :
    property next ∧ next.queue = [] := by
  rw [ModuleMap.rounds] at run
  simp only [Traced.outcome_bind] at run
  obtain ⟨⟨first, left⟩, once, run⟩ := bind_eq_ok.mp run
  obtain ⟨after, done, still⟩ := kept.round m.entries listed holds empty once
  by_cases fewer : left.length < waiting.length
  · simp only [fewer, if_true] at run
    exact kept.rounds first left still after done run
  · simp only [fewer, if_false] at run
    cases run
    exact ⟨after, done⟩
termination_by waiting.length

/-- What holds at the start and is kept by every step holds at the end of the search, when the queue is empty. -/
theorem liveness (kept : Kept m property) (start : property {}) {live : Liveness} (run : m.liveness.outcome = .ok live) :
    ∃ last, property last ∧ last.queue = [] ∧ live = ⟨last.live, last.declarations⟩ := by
  simp only [ModuleMap.liveness, search, Traced.outcome_bind] at run
  obtain ⟨last, found, run⟩ := bind_eq_ok.mp run
  obtain ⟨-, -, found⟩ := bind_eq_ok.mp found
  obtain ⟨first, rooted, found⟩ := bind_eq_ok.mp found
  obtain ⟨second, macros, found⟩ := bind_eq_ok.mp found
  obtain ⟨⟨third, waiting⟩, drained, found⟩ := bind_eq_ok.mp found
  cases run
  obtain ⟨holds, empty, listed⟩ :=
    kept.drain second m.entries (List.Subset.refl _) (kept.markMacros m.entries (kept.mark start rooted) macros) drained
  obtain ⟨ends, done⟩ := kept.rounds third waiting listed holds empty found
  exact ⟨last, ends, done, rfl⟩

end Kept

namespace ModuleMap

variable {live : Liveness}

theorem kept_rising (m : ModuleMap) : Kept m Rising where
  mark rising run := mark_rising rising run
  visit rising _ _ run := by
    refine followEach_rising ?_ (followEach_of_visit run)
    exact rising

/-- Whatever the map, if the search finds a module live it finds those live that the module lies in. -/
theorem liveness_rising (run : m.liveness.outcome = .ok live) :
    ∀ p ∈ live.modules, ∀ q, p.Within q → q ∈ live.modules := by
  obtain ⟨last, rising, -, rfl⟩ := (kept_rising m).liveness (fun _ none => by cases none) run
  exact rising

/-- All that the references of a module lead to is live. -/
def Followed (m : ModuleMap) (k : Marking) (entry : ModulePath × Scope) : Prop :=
  ∀ r ∈ entry.2.references, ∀ target, m.LeadsTo entry.1 r target → m.owner target ∈ k.live

/-- The live modules that are not in the queue have been visited. -/
def Caught (m : ModuleMap) (k : Marking) : Prop :=
  ∀ entry ∈ m.entries, entry.1 ∈ k.live → entry.1 ∉ k.queue → m.Followed k entry

theorem Caught.grows (caught : m.Caught k) (grows : k.Grows next) : m.Caught next := by
  intro entry inMap alive idle r written target leads
  obtain ⟨added, live, queue⟩ := grows
  rw [queue, List.mem_append, not_or] at idle
  rw [live] at alive ⊢
  rcases List.mem_append.mp alive with old | new
  · exact List.mem_append_left _ (caught entry inMap old idle.1 r written target leads)
  · exact absurd new idle.2

theorem kept_caught (distinct : m.keys.Nodup) : Kept m (m.Caught ·) where
  mark caught run := caught.grows (mark_grows run).1
  visit := by
    intro k next p queue scope caught first inMap run
    obtain ⟨grows, reached⟩ := followEach_grows (followEach_of_visit run)
    intro entry listed alive idle r written target leads
    by_cases same : entry.1 = p
    · -- the visited entry is the only one of its key
      have found := get?_of_mem distinct (same ▸ listed : (p, entry.2) ∈ m.entries)
      rw [get?_of_mem distinct inMap] at found
      cases found
      exact reached r written target (same ▸ leads)
    · obtain ⟨added, live, rest⟩ := grows
      rw [rest, List.mem_append, not_or] at idle
      rw [live] at alive ⊢
      rcases List.mem_append.mp alive with old | new
      · have before : entry.1 ∉ k.queue := by
          rw [first, List.mem_cons, not_or]
          exact ⟨same, idle.1⟩
        exact List.mem_append_left _ (caught entry listed old before r written target leads)
      · exact absurd new idle.2

/-- Whatever the map, what the references of a module that is found live lead to is found live. -/
theorem liveness_followed (distinct : m.keys.Nodup) (run : m.liveness.outcome = .ok live) :
    ∀ entry ∈ m.entries, entry.1 ∈ live.modules → ∀ r ∈ entry.2.references, ∀ target,
      m.LeadsTo entry.1 r target → m.owner target ∈ live.modules := by
  obtain ⟨last, caught, empty, rfl⟩ := (kept_caught distinct).liveness (fun _ _ none => by cases none) run
  intro entry inMap alive
  exact caught entry inMap alive (by simp [empty])

end ModuleMap

end CrateFold
