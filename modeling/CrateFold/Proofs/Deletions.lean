import CrateFold.Proofs.Boundaries
import CrateFold.Proofs.Removal

/-!
What pruning cuts out. The removals come in the order of the source (`removals_run`): siblings that go with a module hold
no removals themselves, and a removal reaches back over such siblings only (`Spared`). Each removal is the stretch from
the first of the siblings directly before a module that go with it up to the end of the module, so that it spares all other
named siblings (`Deletes`).
-/
namespace CrateFold

namespace SourceUnit

variable {u : SourceUnit} {live : Liveness} {low start found : Nat} {n : Node} {earlier : List Node}

/-! ### Removals in order -/

/-- No removal that would start at an offset or behind it reaches back before the offset. -/
def Spared (u : SourceUnit) (low : Nat) (earlier : List Node) : Prop :=
  ∀ start found, low ≤ start → u.removalStart start earlier = .ok found → low ≤ found

theorem spared_nil (u : SourceUnit) (low : Nat) : u.Spared low [] := by
  intro start found above run
  cases run
  exact above

theorem Spared.cons (spared : u.Spared low earlier) (above : low ≤ n.start) : u.Spared low (n :: earlier) := by
  intro start found behind run
  rcases removalStart_cons.mp run with ⟨-, further⟩ | ⟨-, rfl⟩
  · exact spared n.start found above further
  · exact behind

theorem Spared.after (spared : u.Spared low earlier) (above : low ≤ n.start) : u.Spared low (n.after earlier) := by
  rw [Node.after]
  split
  · exact spared.cons above
  · exact spared

/-- A sibling that stays where it is ends every removal behind it. -/
theorem spared_of_stays (named : n.named = true) (stays : u.belongsToNext n = .ok false) (low : Nat) :
    u.Spared low (n.after earlier) := by
  intro start found above run
  rw [Node.after, if_pos named] at run
  rcases removalStart_cons.mp run with ⟨goes, -⟩ | ⟨-, rfl⟩
  · rw [stays] at goes
    cases goes
  · exact above

/-- What goes with a module is no module, and no module is looked for in it. -/
theorem belongsToNext_of_searched (kind : n.kind ∉ unprunedKinds) : u.belongsToNext n = .ok false := by
  have item : n.kind ≠ "attribute_item" := by
    rintro same
    exact kind (by rw [same]; decide)
  have line : n.kind ≠ "line_comment" := by
    rintro same
    exact kind (by rw [same]; decide)
  have block : n.kind ≠ "block_comment" := by
    rintro same
    exact kind (by rw [same]; decide)
  simp [belongsToNext, item, line, block]

mutual

/-- The removals at a node are in order, and none that follows reaches back before the last of them ends. -/
theorem deadAt_run : ∀ (n : Node) (earlier : List Node) (low : Nat) (path after : ModulePath) (edits : List Edit),
    n.ordered = true → low ≤ n.start → Preceded n.start earlier → u.Spared low earlier →
      (u.deadAt live earlier n path).outcome = .ok (edits, after) →
        ∃ mid ≤ n.stop, Edit.Run low mid edits ∧ u.Spared mid (n.after earlier)
  | ⟨tag, children⟩, earlier, low, path, after, edits, ordered, above, preceded, spared, run => by
    obtain ⟨forward, below⟩ := Node.ordered_iff.mp ordered
    have none : ∃ mid ≤ tag.stop, Edit.Run low mid [] ∧ u.Spared mid (Node.after ⟨tag, children⟩ earlier) :=
      ⟨low, Nat.le_trans above forward, Nat.le_refl low, spared.after above⟩
    rw [deadAt] at run
    split at run
    · cases run
      exact none
    · next named =>
      have named : tag.named = true := by simpa using named
      split at run
      · next other =>
        split at run
        · cases run
          exact none
        · next searched =>
          have stays : u.belongsToNext ⟨tag, children⟩ = .ok false :=
            belongsToNext_of_searched fun listed => searched (List.contains_iff_mem.mpr listed)
          exact ⟨tag.stop, Nat.le_refl _, deadIn_run children [] low tag.start tag.stop path after edits below above forward
            trivial (spared_nil u low) run, spared_of_stays named stays tag.stop⟩
      · next module =>
        have module : tag.kind = "mod_item" := by simpa using module
        have stays : u.belongsToNext ⟨tag, children⟩ = .ok false :=
          belongsToNext_of_searched (by rw [module]; decide)
        refine ⟨tag.stop, Nat.le_refl _, ?_, spared_of_stays named stays tag.stop⟩
        simp only [Traced.outcome_bind] at run
        obtain ⟨name, -, run⟩ := bind_eq_ok.mp run
        obtain ⟨inner, -, run⟩ := bind_eq_ok.mp run
        split at run
        · simp only [Traced.outcome_bind] at run
          obtain ⟨⟨found, left⟩, body, run⟩ := bind_eq_ok.mp run
          cases run
          exact deadInBody_run children low tag.start tag.stop inner left _ below above forward body
        · simp only [Traced.outcome_bind, Traced.outcome_record, ok_bind] at run
          obtain ⟨start, begins, run⟩ := bind_eq_ok.mp run
          cases run
          have back := removalStart_le preceded begins
          exact ⟨spared tag.start start above begins, Nat.le_trans back forward, Nat.le_refl _⟩
termination_by structural n => n

theorem deadIn_run : ∀ (nodes earlier : List Node) (low bound high : Nat) (path after : ModulePath) (edits : List Edit),
    Node.orderedIn bound high nodes = true → low ≤ bound → bound ≤ high → Preceded bound earlier → u.Spared low earlier →
      (u.deadIn live earlier nodes path).outcome = .ok (edits, after) → Edit.Run low high edits
  | [], _, low, bound, high, _, _, _, _, above, forward, _, _, run => by
    cases run
    exact Nat.le_trans above forward
  | n :: rest, earlier, low, bound, high, path, after, edits, ordered, above, forward, preceded, spared, run => by
    obtain ⟨behind, back, here, later⟩ := Node.orderedIn_cons.mp ordered
    simp only [deadIn, Traced.outcome_bind] at run
    obtain ⟨⟨first, between⟩, walked, run⟩ := bind_eq_ok.mp run
    obtain ⟨⟨more, last⟩, further, run⟩ := bind_eq_ok.mp run
    cases run
    have before := preceded.mono behind
    obtain ⟨mid, inside, one, still⟩ :=
      deadAt_run n earlier low path between first here (Nat.le_trans above behind) before spared walked
    exact one.append (deadIn_run rest _ mid n.stop high between last more later inside back
      (before.after (Node.start_le_stop here)) still further)
termination_by structural l => l

theorem deadInBody_run : ∀ (nodes : List Node) (low bound high : Nat) (path after : ModulePath) (edits : List Edit),
    Node.orderedIn bound high nodes = true → low ≤ bound → bound ≤ high →
      (u.deadInBody live nodes path).outcome = .ok (edits, after) → Edit.Run low high edits
  | [], low, bound, high, _, _, _, _, above, forward, run => by
    cases run
    exact Nat.le_trans above forward
  | n :: rest, low, bound, high, path, after, edits, ordered, above, forward, run => by
    obtain ⟨behind, back, here, later⟩ := Node.orderedIn_cons.mp ordered
    have range := Node.start_le_stop here
    rw [deadInBody] at run
    split at run
    · exact (deadBelow_run n low path after edits here (Nat.le_trans above behind) run).mono (Nat.le_refl _) back
    · exact deadInBody_run rest low n.stop high path after edits later (by omega) back run
termination_by structural l => l

theorem deadBelow_run : ∀ (n : Node) (low : Nat) (path after : ModulePath) (edits : List Edit), n.ordered = true →
    low ≤ n.start → (u.deadBelow live n path).outcome = .ok (edits, after) → Edit.Run low n.stop edits
  | ⟨tag, children⟩, low, path, after, edits, ordered, above, run => by
    obtain ⟨forward, below⟩ := Node.ordered_iff.mp ordered
    exact deadIn_run children [] low tag.start tag.stop path after edits below above forward trivial (spared_nil u low) run
termination_by structural n => n

end

/-- The removals of a unit with ordered and nested ranges are in order. -/
theorem removals_run {edits : List Edit} (ordered : u.root.ordered = true) (run : (u.removals live).outcome = .ok edits) :
    Edit.Run 0 u.root.stop edits := by
  simp only [removals, Traced.outcome_bind] at run
  obtain ⟨⟨found, after⟩, walked, run⟩ := bind_eq_ok.mp run
  cases run
  exact deadBelow_run u.root 0 .crate after _ ordered (Nat.zero_le _) walked

end SourceUnit

/-! ### The parent of a node -/

/-- A placed node is among siblings, behind the named siblings before it. -/
def Placed.StandsIn (p : Placed) (earlier nodes : List Node) : Prop :=
  ∃ before after, nodes = before ++ p.node :: after ∧ p.earlier = (before.filter (·.named)).reverse ++ earlier

namespace Node

theorem standsIn_cons {p : Placed} {n : Node} {earlier rest : List Node} (stands : p.StandsIn (n.after earlier) rest) :
    p.StandsIn earlier (n :: rest) := by
  obtain ⟨before, after, split, siblings⟩ := stands
  refine ⟨n :: before, after, by rw [split, List.cons_append], ?_⟩
  rw [siblings, Node.after]
  split <;> simp_all

/-- Ordered and nested siblings end one before the other. -/
theorem orderedIn_apart {nodes : List Node} {low high : Nat} (ordered : orderedIn low high nodes = true) :
    nodes.Pairwise fun a b => a.stop ≤ b.start := by
  induction nodes generalizing low with
  | nil => exact .nil
  | cons n rest ih =>
    obtain ⟨-, -, -, later⟩ := orderedIn_cons.mp ordered
    exact .cons (fun other member => (ordered_of_mem later member).1) (ih later)

/-- The named parts of a node with ordered and nested ranges end one before the other. -/
theorem namedChildren_apart {n : Node} (ordered : n.ordered = true) :
    n.namedChildren.Pairwise fun a b => a.stop ≤ b.start := by
  obtain ⟨tag, children⟩ := n
  exact (orderedIn_apart (ordered_iff.mp ordered).2).filter _

/-- A stretch of siblings that end one before the other lies between the siblings around it. -/
theorem between_of_apart {kept taken later : List Node} {first module : Node}
    (apart : (kept ++ (taken ++ [module]) ++ later).Pairwise fun a b => a.stop ≤ b.start)
    (forward : ∀ n ∈ kept ++ (taken ++ [module]) ++ later, n.start ≤ n.stop)
    (head : (taken ++ [module]).head? = some first) :
    (∀ n ∈ taken ++ [module], first.start ≤ n.start ∧ n.stop ≤ module.stop) ∧ (∀ n ∈ kept, n.stop ≤ first.start) ∧
      ∀ n ∈ later, module.stop ≤ n.start := by
  obtain ⟨rest, cut⟩ : ∃ rest, taken ++ [module] = first :: rest := List.head?_eq_some_iff.mp head
  obtain ⟨front, -, ends⟩ := List.pairwise_append.mp apart
  obtain ⟨-, inside, starts⟩ := List.pairwise_append.mp front
  obtain ⟨-, -, last⟩ := List.pairwise_append.mp inside
  refine ⟨?_, ?_, ?_⟩
  · intro n member
    constructor
    · have range := forward first (by simp [cut])
      rw [cut] at member inside
      rcases List.mem_cons.mp member with rfl | further
      · exact Nat.le_refl _
      · have := List.rel_of_pairwise_cons inside further
        omega
    · have range := forward module (by simp)
      rcases List.mem_append.mp member with early | only
      · have := last n early module (by simp)
        omega
      · rw [List.mem_singleton.mp only]
  · intro n member
    exact starts n member first (by simp [cut])
  · intro n member
    exact ends module (by simp) n member

theorem namedChildren_forward {n part : Node} (ordered : n.ordered = true) (member : part ∈ n.namedChildren) :
    part.start ≤ part.stop := by
  obtain ⟨tag, children⟩ := n
  obtain ⟨-, below⟩ := ordered_iff.mp ordered
  exact start_le_stop (ordered_of_mem below (List.mem_of_mem_filter member)).2.2

mutual

/-- A node below another has a parent. -/
theorem parent_of_placed : ∀ (n : Node) (earlier : List Node), ∀ p ∈ n.placed earlier,
    p = ⟨n, earlier⟩ ∨ ∃ parent ∈ n.placed earlier, p.StandsIn [] parent.node.children
  | ⟨tag, children⟩, earlier, p, member => by
    rw [placed] at member ⊢
    rcases List.mem_cons.mp member with rfl | deeper
    · exact .inl rfl
    · rcases parent_of_placedIn children [] p deeper with top | ⟨parent, listed, stands⟩
      · exact .inr ⟨_, List.mem_cons_self .., top⟩
      · exact .inr ⟨parent, List.mem_cons_of_mem _ listed, stands⟩
termination_by structural n => n

theorem parent_of_placedIn : ∀ (nodes earlier : List Node), ∀ p ∈ placedIn earlier nodes,
    p.StandsIn earlier nodes ∨ ∃ parent ∈ placedIn earlier nodes, p.StandsIn [] parent.node.children
  | [], _, _, member => by cases member
  | n :: rest, earlier, p, member => by
    rw [placedIn] at member ⊢
    rcases List.mem_append.mp member with first | later
    · rcases parent_of_placed n earlier p first with rfl | ⟨parent, listed, stands⟩
      · exact .inl ⟨[], rest, rfl, rfl⟩
      · exact .inr ⟨parent, List.mem_append_left _ listed, stands⟩
    · rcases parent_of_placedIn rest _ p later with stands | ⟨parent, listed, stands⟩
      · exact .inl (standsIn_cons stands)
      · exact .inr ⟨parent, List.mem_append_right _ listed, stands⟩
termination_by structural l => l

end

end Node

/-! ### What a removal takes -/

namespace SourceUnit

variable {u : SourceUnit} {live : Liveness} {n : Node} {edit : Edit} {edits : List Edit}

/-- What goes with a module: an attribute, or a comment that starts with `///` or `/**`. -/
def Accompanies (u : SourceUnit) (n : Node) : Prop :=
  n.kind = "attribute_item" ∨ (n.kind = "line_comment" ∨ n.kind = "block_comment") ∧
    ∃ text, u.textOf n.toTag = .ok text ∧ ("///".toList <+: text.toList ∨ "/**".toList <+: text.toList)

theorem accompanies_iff {goes : Bool} (run : u.belongsToNext n = .ok goes) : u.Accompanies n ↔ goes = true := by
  unfold belongsToNext at run
  split at run
  · next item =>
    cases run
    exact iff_of_true (.inl (beq_iff_eq.mp item)) rfl
  · next item =>
    split at run
    · next comment =>
      obtain ⟨text, read, run⟩ := bind_eq_ok.mp run
      cases run
      simp_all [Accompanies]
    · next comment =>
      cases run
      simp_all [Accompanies]

/-- A removal goes back over the siblings that go with it, as far as these reach. -/
theorem removalStart_split {start found : Nat} {earlier : List Node} (run : u.removalStart start earlier = .ok found) :
    ∃ near further, earlier = near ++ further ∧ (∀ n ∈ near, u.Accompanies n) ∧
      (∀ n, further.head? = some n → ¬ u.Accompanies n) ∧ found = (near.getLast?.map (·.start)).getD start := by
  induction earlier generalizing start with
  | nil =>
    cases run
    exact ⟨[], [], rfl, by simp, by simp, rfl⟩
  | cons n rest ih =>
    rcases removalStart_cons.mp run with ⟨goes, run⟩ | ⟨stays, rfl⟩
    · obtain ⟨near, further, rfl, all, bound, rfl⟩ := ih run
      refine ⟨n :: near, further, rfl, List.forall_mem_cons.mpr ⟨(accompanies_iff goes).mpr rfl, all⟩, bound, ?_⟩
      rw [List.getLast?_cons]
      cases near.getLast? <;> rfl
    · refine ⟨[], n :: rest, rfl, by simp, ?_, rfl⟩
      rintro _ ⟨⟩ goes
      cases (accompanies_iff stays).mp goes

/-- A removal and the named parts of the node in which it is made: the module, those directly before it that go with it,
and those that stay, before and behind. It reaches from the first that it takes to the end of the module, and lies between
those that stay. -/
structure Deletes (u : SourceUnit) (edit : Edit) (kept taken : List Node) (module : Node) (later : List Node) : Prop where
  siblings : ∃ parent ∈ u.root.placed [], parent.node.namedChildren = kept ++ (taken ++ [module]) ++ later
  kind : module.kind = "mod_item"
  goes : ∀ n ∈ taken, u.Accompanies n
  stays : ∀ n, kept.getLast? = some n → ¬ u.Accompanies n
  start : ∀ first, (taken ++ [module]).head? = some first → edit.start = first.start
  stop : edit.stop = module.stop
  empty : edit.replacement = []
  within : ∀ n ∈ taken ++ [module], edit.start ≤ n.start ∧ n.stop ≤ edit.stop
  before : ∀ n ∈ kept, n.stop ≤ edit.start
  behind : ∀ n ∈ later, edit.stop ≤ n.start

/-- What a removal takes of the named parts of an ordered node. -/
theorem Removes.deletes {p parent : Placed} (removes : u.Removes p edit) (named : p.node.named = true)
    (kind : p.node.kind = "mod_item") (listed : parent ∈ u.root.placed []) (stands : p.StandsIn [] parent.node.children)
    (ordered : parent.node.ordered = true) : ∃ kept taken module later, u.Deletes edit kept taken module later := by
  obtain ⟨start, stop, empty⟩ := removes
  obtain ⟨before, after, children, earlier⟩ := stands
  obtain ⟨near, further, split, goes, stays, found⟩ := removalStart_split start
  have siblings : parent.node.namedChildren =
      further.reverse ++ (near.reverse ++ [p.node]) ++ after.filter (·.named) := by
    have reversed : before.filter (·.named) = further.reverse ++ near.reverse := by
      rw [← List.reverse_append, ← split, earlier, List.append_nil, List.reverse_reverse]
    simp [Node.namedChildren, children, reversed, named]
  obtain ⟨first, head⟩ : ∃ first, (near.reverse ++ [p.node]).head? = some first :=
    Option.isSome_iff_exists.mp (by simp)
  have begins : edit.start = first.start := by
    rw [List.head?_append, List.head?_reverse] at head
    cases last : near.getLast? <;> simp_all
  have apart := Node.namedChildren_apart ordered
  have forward := fun n (member : n ∈ parent.node.namedChildren) => Node.namedChildren_forward ordered member
  rw [siblings] at apart forward
  obtain ⟨within, before, behind⟩ := Node.between_of_apart apart forward head
  refine ⟨further.reverse, near.reverse, p.node, after.filter (·.named), ⟨parent, listed, siblings⟩, kind, by simpa using goes,
    by simpa using stays, ?_, stop, empty, by rwa [begins, stop], by rwa [begins], by rwa [stop]⟩
  intro other same
  rw [head] at same
  cases same
  exact begins

theorem RemovesAmong.of_mem {nodes : List Placed} (removes : u.RemovesAmong nodes edits) (member : edit ∈ edits) :
    ∃ p ∈ nodes, (p.node.named = true ∧ p.node.kind = "mod_item") ∧ u.Removes p edit := by
  obtain ⟨removed, listed, modules, removes⟩ := removes
  obtain ⟨length, each⟩ := List.forall₂_iff_get.mp removes
  obtain ⟨i, rfl⟩ := List.get_of_mem member
  have inside : i.val < removed.length := by omega
  have chosen := List.get_mem removed ⟨i, inside⟩
  exact ⟨_, listed.subset chosen, modules _ chosen, each i inside i.isLt⟩

/-- The removals of a unit with ordered and nested ranges are made among the named parts of its nodes. -/
theorem removals_deletes (ordered : u.root.ordered = true) (run : (u.removals live).outcome = .ok edits) :
    ∀ edit ∈ edits, ∃ kept taken module later, u.Deletes edit kept taken module later := by
  simp only [removals, Traced.outcome_bind] at run
  obtain ⟨⟨found, after⟩, walked, run⟩ := bind_eq_ok.mp run
  cases run
  intro edit member
  -- the top of the tree is not removed, so that what is removed has a parent
  obtain ⟨p, ⟨named, kind⟩, removes, parent, listed, stands⟩ : ∃ p : Placed,
      (p.node.named = true ∧ p.node.kind = "mod_item") ∧ u.Removes p edit ∧
        ∃ parent ∈ u.root.placed [], p.StandsIn [] parent.node.children := by
    rcases shape : u.root with ⟨tag, children⟩
    rw [shape] at walked
    obtain ⟨p, among, module, removes⟩ := (deadIn_removes children [] .crate after _ walked).of_mem member
    refine ⟨p, module, removes, ?_⟩
    rcases Node.parent_of_placedIn children [] p among with top | ⟨parent, listed, stands⟩
    · exact ⟨⟨⟨tag, children⟩, []⟩, by simp [Node.placed], top⟩
    · exact ⟨parent, Node.placedIn_subset ⟨tag, children⟩ [] listed, stands⟩
  exact removes.deletes named kind listed stands (Node.all_ordered u.root ordered parent listed)

/-- A removal cuts a text at boundaries. -/
theorem Deletes.keeps {kept taken later : List Node} {module : Node} (sound : u.Sound)
    (deletes : u.Deletes edit kept taken module later) : edit.Keeps u.bytes := by
  obtain ⟨parent, listed, siblings⟩ := deletes.siblings
  have boundaries : ∀ n ∈ taken ++ [module], Utf8.Boundary u.bytes n.start ∧ Utf8.Boundary u.bytes n.stop := by
    intro n member
    have named : n ∈ parent.node.namedChildren := by
      rw [siblings]
      exact List.mem_append_left _ (List.mem_append_right _ member)
    exact sound.part listed (List.mem_of_mem_filter named)
  obtain ⟨first, rest, cut⟩ : ∃ first rest, taken ++ [module] = first :: rest := List.exists_cons_of_ne_nil (by simp)
  refine ⟨?_, ?_, ?_⟩
  · rw [deletes.start first (by rw [cut]; rfl)]
    exact (boundaries first (by simp [cut])).1
  · rw [deletes.stop]
    exact (boundaries module (by simp)).2
  · rw [deletes.empty]
    rfl

/-- The removals of a sound unit may be applied, whatever is live, and each takes a module with what goes with it. -/
theorem Sound.removals (sound : u.Sound) (run : (u.removals live).outcome = .ok edits) :
    u.Accepts edits ∧ ∀ edit ∈ edits, ∃ kept taken module later, u.Deletes edit kept taken module later := by
  have deletes := removals_deletes sound.ordered run
  refine ⟨sound.accepts (removals_run sound.ordered run) ?_, deletes⟩
  intro edit member
  obtain ⟨kept, taken, module, later, deletes⟩ := deletes edit member
  exact deletes.keeps sound

end SourceUnit

end CrateFold
