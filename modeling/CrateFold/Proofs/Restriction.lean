import CrateFold.Proofs.Liveness

/-!
Taking dead modules out of a map. A relative path is resolved by asking which modules exist, so taking a
module out could redirect a path. It does not: a module that answers a question asked from a kept module
is itself kept, because it is the owner of what the path leads to or lies around it. Hence the kept
modules resolve their paths as before (`answer_restrict`) and the search finds the same modules and
declarations in what is left.
-/
namespace CrateFold.ModuleMap

variable {m : ModuleMap} {keep : ModulePath → Bool} {module p path target : ModulePath}

/-- The map without the modules that are not kept. -/
def restrict (m : ModuleMap) (keep : ModulePath → Bool) : ModuleMap := ⟨m.entries.filter fun entry => keep entry.1⟩

theorem mem_restrict {entry : ModulePath × Scope} :
    entry ∈ (m.restrict keep).entries ↔ entry ∈ m.entries ∧ keep entry.1 = true := by
  simp [restrict]

theorem mem_restrict_keys : p ∈ (m.restrict keep).keys ↔ p ∈ m.keys ∧ keep p = true := by
  simp [mem_keys, mem_restrict]

/-- The modules kept: the crate root, and with each module those that it lies in. -/
structure Keeps (keep : ModulePath → Bool) : Prop where
  root : keep .crate = true
  ancestors : ∀ p q : ModulePath, keep p = true → p.Within q → keep q = true

/-- What is kept of a rooted map is rooted. -/
theorem Rooted.restrict (rooted : m.Rooted) (keeps : Keeps keep) : (m.restrict keep).Rooted := by
  refine ⟨?_, ?_, ?_, ?_, ?_, ?_⟩
  · exact rooted.distinct.sublist (List.filter_sublist.map Prod.fst)
  · exact mem_restrict_keys.mpr ⟨rooted.root, keeps.root⟩
  · intro p member
    exact rooted.absolute p (mem_restrict_keys.mp member).1
  · intro p member q listed
    obtain ⟨inMap, kept⟩ := mem_restrict_keys.mp member
    have lies : p.Within q :=
      (ModulePath.mem_lineage (ModulePath.segments_ne_nil (rooted.absolute p inMap))).mp listed
    exact mem_restrict_keys.mpr ⟨rooted.ancestors p inMap q listed, keeps.ancestors p q kept lies⟩
  · intro entry member
    exact rooted.known entry (mem_restrict.mp member).1
  · intro entry member
    exact rooted.targeted entry (mem_restrict.mp member).1

/-- A kept module declares the names that it declared. -/
theorem names_restrict (rooted : m.Rooted) (keeps : Keeps keep) (member : p ∈ m.keys) (kept : keep p = true) :
    (m.restrict keep).names p = m.names p := by
  obtain ⟨scope, entry⟩ := mem_keys.mp member
  rw [rooted.names_eq entry, (rooted.restrict keeps).names_eq (mem_restrict.mpr ⟨entry, kept⟩)]

/-- An owner that is kept stays the owner. -/
theorem owner_restrict (rooted : m.Rooted) (keeps : Keeps keep) (absolute : target.isCratePath = true)
    (kept : keep (m.owner target) = true) : (m.restrict keep).owner target = m.owner target := by
  obtain ⟨inMap, lies, innermost⟩ := owner_spec rooted.root absolute
  obtain ⟨inPart, liesPart, innermostPart⟩ := owner_spec (rooted.restrict keeps).root absolute
  have down := innermostPart _ (mem_restrict_keys.mpr ⟨inMap, kept⟩) lies
  have up := innermost _ (mem_restrict_keys.mp inPart).1 liesPart
  exact down.antisymm up

/-! ### Paths of kept modules -/

/-- A path that says by itself where it starts is canonical without looking at the map. -/
theorem canonical_starting (m other : ModuleMap) {first : String} {rest : List String}
    (segments : path.segments = first :: rest) (start : first ∈ startingSegments) :
    m.canonical path module = other.canonical path module := by
  simp only [startingSegments, List.mem_cons, List.not_mem_nil, or_false] at start
  rcases start with rfl | rfl | rfl | rfl
  · simp [canonical, segments]
  · simp [canonical, segments]
  · simp [canonical, segments]
  · simp [canonical, segments]

/-- A name is declared in what is kept if it was declared before, provided that the owner of a path that
starts with it there is kept. -/
theorem declares_restrict (rooted : m.Rooted) (keeps : Keeps keep) (member : p ∈ m.keys) (kept : keep p = true)
    {first : String} {rest : List String} (segments : path.segments = first :: rest)
    (plain : first ≠ "crate")
    (owned : m.Declares p first → keep (m.owner (p.join path)) = true) :
    (m.restrict keep).Declares p first ↔ m.Declares p first := by
  unfold Declares
  rw [names_restrict rooted keeps member kept, mem_restrict_keys]
  constructor
  · rintro (⟨inner, -⟩ | named)
    · exact .inl inner
    · exact .inr named
  · rintro (inner | named)
    · have absolute : (p.join path).isCratePath = true :=
        ModulePath.join_isCratePath (rooted.absolute p member)
      -- the module of that name lies around the owner of the path
      have around := (owner_spec rooted.root absolute).2.2 _ inner
        (ModulePath.join_within_first segments plain)
      exact .inl ⟨inner, keeps.ancestors _ _ (owned (.inl inner)) around⟩
    · exact .inr named

/-- A path of a kept module has the same canonical form in what is kept, if the owner of that form is kept. -/
theorem canonical_restrict (rooted : m.Rooted) (keeps : Keeps keep) (member : module ∈ m.keys)
    (kept : keep module = true) (nonempty : path.segments ≠ [])
    (owned : ∀ target, (m.canonical path module).outcome = .ok (some target) → keep (m.owner target) = true) :
    ((m.restrict keep).canonical path module).outcome = (m.canonical path module).outcome := by
  cases segments : path.segments with
  | nil => exact absurd segments nonempty
  | cons first rest =>
    by_cases start : first ∈ startingSegments
    · rw [canonical_starting (m.restrict keep) m segments start]
    · have plain : first ≠ "crate" := by
        rintro rfl
        exact start (by simp [startingSegments])
      have before := rooted.searchable.canonical_plain member segments start
      rw [before] at owned ⊢
      rw [(rooted.restrict keeps).searchable.canonical_plain (mem_restrict_keys.mpr ⟨member, kept⟩) segments start]
      have here := declares_restrict rooted keeps member kept segments plain
        (fun declared => owned _ (by simp [declared]))
      by_cases inModule : m.Declares module first
      · simp [here, inModule]
      · have top := declares_restrict rooted keeps rooted.root keeps.root segments plain
          (fun declared => owned _ (by simp [declared, inModule]))
        simp [here, inModule, top]

/-- A path written in a kept module stands for the same in what is kept, if the owner of that is kept. -/
theorem answer_restrict (rooted : m.Rooted) (keeps : Keeps keep) (member : module ∈ m.keys)
    (kept : keep module = true) {r : Reference} (bound : Scope.Bound r.aliases)
    (owned : ∀ target, m.LeadsTo module r target → keep (m.owner target) = true) :
    (m.restrict keep).answer module r = m.answer module r := by
  rcases answer_cases module bound with nothing | ⟨path, nonempty, same⟩
  · rw [nothing, nothing]
  · rw [same, same]
    apply canonical_restrict rooted keeps member kept nonempty
    intro target found
    exact owned target ((same m).trans found)

theorem named?_restrict (rooted : m.Rooted) (keeps : Keeps keep) (absolute : target.isCratePath = true)
    (kept : keep (m.owner target) = true) : (m.restrict keep).named? target = m.named? target := by
  have inMap := (owner_spec rooted.root absolute).1
  simp only [named?, owner_restrict rooted keeps absolute kept, names_restrict rooted keeps inMap kept]

/-! ### The search in what is kept -/

/-- What a path leads to in a rooted map is crate-rooted. -/
theorem Rooted.leadsTo_isCratePath (rooted : m.Rooted) (member : module ∈ m.keys) {r : Reference}
    (bound : Scope.Bound r.aliases) (leads : m.LeadsTo module r target) : target.isCratePath = true := by
  obtain ⟨found, answered, absolute⟩ := rooted.answer_total member bound
  rw [LeadsTo, answered] at leads
  exact absolute target (Except.ok.inj leads)

/-- A closed set of modules, as the modules to keep. -/
theorem Closed.keeps {modules : Set ModulePath} (closed : m.Closed modules)
    (same : ∀ p, keep p = true ↔ p ∈ modules) : Keeps keep :=
  ⟨(same _).mpr closed.root, fun p q kept lies => (same q).mpr (closed.ancestors p ((same p).mp kept) q lies)⟩

variable {modules : Set ModulePath}

/-- If the modules kept are closed under the rules of use, every path written in one of them stands for the
same as before, and what it stands for has the same owner and names the same declaration. -/
theorem references_restrict (rooted : m.Rooted) (closed : m.Closed modules)
    (same : ∀ p, keep p = true ↔ p ∈ modules) {entry : ModulePath × Scope} (inMap : entry ∈ m.entries)
    (kept : entry.1 ∈ modules) {r : Reference} (written : r ∈ entry.2.references) :
    (m.restrict keep).answer entry.1 r = m.answer entry.1 r ∧ ∀ target, m.LeadsTo entry.1 r target →
      (m.restrict keep).owner target = m.owner target ∧ (m.restrict keep).named? target = m.named? target := by
  have keeps := closed.keeps same
  have bound := Scope.bound_references (rooted.targeted _ inMap) written
  have owned : ∀ target, m.LeadsTo entry.1 r target → keep (m.owner target) = true :=
    fun target leads => (same _).mpr (closed.references entry inMap kept r written target leads)
  refine ⟨answer_restrict rooted keeps (mem_keys_of_mem inMap) ((same _).mpr kept) bound owned, ?_⟩
  intro target leads
  have absolute := rooted.leadsTo_isCratePath (mem_keys_of_mem inMap) bound leads
  exact ⟨owner_restrict rooted keeps absolute (owned target leads),
    named?_restrict rooted keeps absolute (owned target leads)⟩

/-- A closed set of modules of what is kept is closed in the whole map: every rule that adds a module in the
whole map adds it in what is kept. -/
theorem Closed.of_restrict (rooted : m.Rooted) (closed : m.Closed modules) (same : ∀ p, keep p = true ↔ p ∈ modules)
    {part : Set ModulePath} (inside : ∀ p ∈ part, p ∈ modules) (partClosed : (m.restrict keep).Closed part) :
    m.Closed part := by
  have keeps := closed.keeps same
  have inPart : ∀ entry ∈ m.entries, entry.1 ∈ modules → entry ∈ (m.restrict keep).entries :=
    fun entry inMap kept => mem_restrict.mpr ⟨inMap, (same _).mpr kept⟩
  refine ⟨partClosed.root, ?_, partClosed.ancestors, ?_, ?_⟩
  · intro entry inMap defines
    exact partClosed.macros entry (inPart entry inMap (closed.macros entry inMap defines)) defines
  · intro entry inMap member r written target leads
    have kept := inside _ member
    obtain ⟨answers, owners⟩ := references_restrict rooted closed same inMap kept written
    rw [← (owners target leads).1]
    exact partClosed.references entry (inPart entry inMap kept) member r written target (answers.trans leads)
  · rintro entry inMap ⟨body, item, access, written, target, leads, owner⟩
    have kept : entry.1 ∈ modules := closed.anchors entry inMap
      ⟨body, item, access, written, target, leads, inside _ owner⟩
    have member := mem_keys_of_mem inMap
    have bound : Scope.Bound entry.2.aliases :=
      Scope.bound_aliases (Scope.everywhere_iff.mp (rooted.targeted _ inMap)).1
    have ownerKept : keep (m.owner target) = true := (same _).mpr (inside _ owner)
    have answers := answer_restrict (r := ⟨entry.2.aliases, Scope.names body, access⟩) rooted keeps member
      ((same _).mpr kept) bound fun other also => by
        have equal : other = target := Option.some.inj (Except.ok.inj (also.symm.trans leads))
        rw [equal]
        exact ownerKept
    refine partClosed.anchors entry (inPart entry inMap kept)
      ⟨body, item, access, written, target, answers.trans leads, ?_⟩
    rw [owner_restrict rooted keeps (rooted.leadsTo_isCratePath member bound leads) ownerKept]
    exact owner

/-- Taking the dead modules out of a rooted map changes nothing for the rest: every path written in a live
module stands for the same and has the same owner, and the search finds the same modules and the same
declarations. -/
theorem liveness_restrict (rooted : m.Rooted) :
    ∃ live rest, m.liveness.outcome = .ok live ∧ (m.restrict live.isLive).liveness.outcome = .ok rest ∧
      (∀ entry ∈ m.entries, entry.1 ∈ live.modules → ∀ r ∈ entry.2.references,
        (m.restrict live.isLive).answer entry.1 r = m.answer entry.1 r ∧
          ∀ target, m.LeadsTo entry.1 r target → (m.restrict live.isLive).owner target = m.owner target) ∧
      (∀ p, p ∈ rest.modules ↔ p ∈ live.modules) ∧ ∀ d, d ∈ rest.declarations ↔ d ∈ live.declarations := by
  obtain ⟨live, run, least, -, named⟩ := liveness_total rooted
  have closed : m.Closed {p | p ∈ live.modules} := least.1
  have same : ∀ p, live.isLive p = true ↔ p ∈ {p | p ∈ live.modules} :=
    fun _ => List.contains_iff_mem
  obtain ⟨rest, restRun, restLeast, restKeys, restNamed⟩ := liveness_total (rooted.restrict (closed.keeps same))
  have fewer : ∀ p ∈ rest.modules, p ∈ live.modules :=
    fun p member => (same p).mp (mem_restrict_keys.mp (restKeys p member)).2
  have equal : ∀ p, p ∈ rest.modules ↔ p ∈ live.modules :=
    fun p => ⟨fewer p, fun member => least.2 (Closed.of_restrict rooted closed same fewer restLeast.1) member⟩
  refine ⟨live, rest, run, restRun, ?_, equal, ?_⟩
  · intro entry inMap member r written
    obtain ⟨answers, owners⟩ := references_restrict rooted closed same inMap member written
    exact ⟨answers, fun target leads => (owners target leads).1⟩
  · intro d
    rw [restNamed, named]
    constructor
    · rintro ⟨entry, member, liveEntry, r, written, target, leads, names⟩
      have inMap := (mem_restrict.mp member).1
      have kept := (equal _).mp liveEntry
      obtain ⟨answers, owners⟩ := references_restrict rooted closed same inMap kept written
      have before : m.LeadsTo entry.1 r target := answers.symm.trans leads
      exact ⟨entry, inMap, kept, r, written, target, before, (owners target before).2 ▸ names⟩
    · rintro ⟨entry, inMap, kept, r, written, target, leads, names⟩
      obtain ⟨answers, owners⟩ := references_restrict rooted closed same inMap kept written
      exact ⟨entry, mem_restrict.mpr ⟨inMap, (same _).mpr kept⟩, (equal _).mpr kept, r, written, target,
        answers.trans leads, (owners target leads).2.trans names⟩

theorem sample_restrict : sample.Rooted ∧ ∃ live rest, sample.liveness.outcome = .ok live ∧
    live.isLive ⟨["crate", "e"]⟩ = false ∧ (sample.restrict live.isLive).liveness.outcome = .ok rest ∧
      ∀ p, p ∈ rest.modules ↔ p ∈ live.modules := by
  obtain ⟨live, rest, run, restRun, -, same, -⟩ := liveness_restrict sample_rooted
  have dead : live.isLive ⟨["crate", "e"]⟩ = false := by
    have found : (sample.liveness.outcome.map fun live => live.isLive ⟨["crate", "e"]⟩) = .ok false := by decide +kernel
    rw [run] at found
    exact Except.ok.inj found
  exact ⟨sample_rooted, live, rest, run, dead, restRun, same⟩

end CrateFold.ModuleMap
