import CrateFold.Tree.Node

/-!
Trees whose ranges are ordered and nested: a node ends where it starts or later, its parts lie within it, and
each part ends before the next one starts. Nothing is asked of the source, and a range may be empty. In such
a tree the named siblings before a node end one before the other, all before the node
(`placed_preceded`). `Node.All` states a property of all nodes of a tree.
-/
namespace CrateFold

mutual

/-- Whether the ranges of a tree are ordered and nested. -/
def Node.ordered : Node → Bool
  | ⟨tag, children⟩ => decide (tag.start ≤ tag.stop) && Node.orderedIn tag.start tag.stop children
termination_by structural n => n

/-- Whether the ranges of siblings are ordered and nested, between two offsets. -/
def Node.orderedIn (low high : Nat) : List Node → Bool
  | [] => true
  | n :: rest => decide (low ≤ n.start ∧ n.stop ≤ high) && n.ordered && Node.orderedIn n.stop high rest
termination_by structural l => l

end

/-- Nodes, the nearest first, that end one before the other, all before an offset. -/
def Preceded : Nat → List Node → Prop
  | _, [] => True
  | offset, n :: rest => n.start ≤ n.stop ∧ n.stop ≤ offset ∧ Preceded n.start rest

namespace Node

variable {n : Node} {tag : Tag} {children rest : List Node} {low high : Nat}

theorem ordered_iff : ordered ⟨tag, children⟩ = true ↔
    tag.start ≤ tag.stop ∧ orderedIn tag.start tag.stop children = true := by
  simp [ordered]

theorem orderedIn_cons : orderedIn low high (n :: rest) = true ↔
    low ≤ n.start ∧ n.stop ≤ high ∧ n.ordered = true ∧ orderedIn n.stop high rest = true := by
  simp [orderedIn, and_assoc]

theorem start_le_stop (fine : n.ordered = true) : n.start ≤ n.stop := by
  cases n
  exact (ordered_iff.mp fine).1

/-- Ordered and nested siblings lie between the two offsets. -/
theorem ordered_of_mem {nodes : List Node} (ordered : orderedIn low high nodes = true) (member : n ∈ nodes) :
    low ≤ n.start ∧ n.stop ≤ high ∧ n.ordered = true := by
  induction nodes generalizing low with
  | nil => cases member
  | cons first rest ih =>
    obtain ⟨above, back, here, later⟩ := orderedIn_cons.mp ordered
    rcases List.mem_cons.mp member with rfl | further
    · exact ⟨above, back, here⟩
    · obtain ⟨behind, within, fine⟩ := ih later further
      have := start_le_stop here
      exact ⟨by omega, within, fine⟩

end Node

theorem Preceded.mono {low high : Nat} {earlier : List Node} (preceded : Preceded low earlier) (below : low ≤ high) :
    Preceded high earlier := by
  cases earlier with
  | nil => trivial
  | cons n rest =>
    obtain ⟨forward, before, further⟩ := preceded
    exact ⟨forward, by omega, further⟩

/-- What is among nodes before an offset ends before the offset. -/
theorem Preceded.stop_le {offset : Nat} {nearer further : List Node} {n : Node}
    (preceded : Preceded offset (nearer ++ n :: further)) : n.stop ≤ offset := by
  induction nearer generalizing offset with
  | nil => exact preceded.2.1
  | cons other rest ih =>
    obtain ⟨forward, before, beyond⟩ := preceded
    have := ih beyond
    omega

theorem Preceded.after {n : Node} {earlier : List Node} (preceded : Preceded n.start earlier) (forward : n.start ≤ n.stop) :
    Preceded n.stop (n.after earlier) := by
  unfold Node.after
  split
  · exact ⟨forward, Nat.le_refl _, preceded⟩
  · exact preceded.mono forward

namespace Node

mutual

/-- In a tree of ordered and nested ranges every node comes behind the named siblings before it. -/
theorem placed_preceded : ∀ (n : Node) (earlier : List Node), n.ordered = true → Preceded n.start earlier →
    ∀ p ∈ n.placed earlier, p.node.start ≤ p.node.stop ∧ Preceded p.node.start p.earlier
  | ⟨tag, children⟩, earlier, fine, preceded, p, member => by
    obtain ⟨forward, below⟩ := ordered_iff.mp fine
    rw [placed] at member
    rcases List.mem_cons.mp member with rfl | deeper
    · exact ⟨forward, preceded⟩
    · exact placedIn_preceded children [] tag.start tag.stop below trivial p deeper
termination_by structural n => n

theorem placedIn_preceded : ∀ (nodes earlier : List Node) (low high : Nat), orderedIn low high nodes = true →
    Preceded low earlier → ∀ p ∈ placedIn earlier nodes, p.node.start ≤ p.node.stop ∧ Preceded p.node.start p.earlier
  | [], _, _, _, _, _, _, member => by cases member
  | n :: rest, earlier, low, high, fine, preceded, p, member => by
    obtain ⟨above, -, here, later⟩ := orderedIn_cons.mp fine
    have before := preceded.mono above
    rw [placedIn] at member
    rcases List.mem_append.mp member with first | further
    · exact placed_preceded n earlier here before p first
    · exact placedIn_preceded rest _ n.stop high later (before.after (start_le_stop here)) p further
termination_by structural l => l

end

end Node

/-! ### All nodes of a tree -/

namespace Node

/-- A property that passes from the parts of a node to the node holds of every node. -/
@[elab_as_elim]
theorem induction {motive : Node → Prop}
    (node : ∀ tag children, (∀ n ∈ children, motive n) → motive ⟨tag, children⟩) : ∀ n, motive n
  | ⟨tag, children⟩ => node tag children fun n member =>
    have : sizeOf n < sizeOf children := List.sizeOf_lt_of_mem member
    induction node n

/-- What is below siblings is below the node whose parts they are. -/
theorem placedIn_subset (n : Node) (earlier : List Node) : placedIn [] n.children ⊆ n.placed earlier := by
  cases n
  rw [placed]
  exact List.subset_cons_self _ _

theorem placed_subset_of_mem {n : Node} {nodes : List Node} (member : n ∈ nodes) (earlier : List Node) :
    ∃ before, n.placed before ⊆ placedIn earlier nodes := by
  induction nodes generalizing earlier with
  | nil => cases member
  | cons first rest ih =>
    rw [placedIn]
    rcases List.mem_cons.mp member with rfl | later
    · exact ⟨earlier, List.subset_append_left _ _⟩
    · obtain ⟨before, among⟩ := ih later (first.after earlier)
      exact ⟨before, List.subset_append_of_subset_right _ among⟩

/-- A property of a node and of all nodes below it. -/
def All (property : Node → Prop) (n : Node) : Prop := ∀ p ∈ n.placed [], property p.node

variable {property : Node → Prop}

theorem forall_placed_iff (n : Node) (earlier : List Node) : (∀ p ∈ n.placed earlier, property p.node) ↔ n.All property := by
  cases n
  simp [All, placed]

theorem forall_placedIn_iff (nodes earlier : List Node) :
    (∀ p ∈ placedIn earlier nodes, property p.node) ↔ ∀ n ∈ nodes, n.All property := by
  induction nodes generalizing earlier with
  | nil => simp [placedIn]
  | cons n rest ih => rw [placedIn, List.forall_mem_append, forall_placed_iff, ih, List.forall_mem_cons]

theorem all_iff {tag : Tag} {children : List Node} :
    All property ⟨tag, children⟩ ↔ property ⟨tag, children⟩ ∧ ∀ n ∈ children, n.All property := by
  rw [All, placed, List.forall_mem_cons, forall_placedIn_iff]

/-- In a tree of ordered and nested ranges every node is such a tree. -/
theorem all_ordered (n : Node) (ordered : n.ordered = true) : n.All (·.ordered = true) := by
  induction n using induction with
  | node tag children ih =>
    obtain ⟨-, below⟩ := ordered_iff.mp ordered
    refine all_iff.mpr ⟨ordered, ?_⟩
    intro n member
    exact ih n member (ordered_of_mem below member).2.2

theorem All.self {n : Node} (all : n.All property) : property n := by
  cases n
  exact (all_iff.mp all).1

/-- What holds of all nodes of a tree holds of all nodes of every part of it. -/
theorem All.deep {n : Node} (all : n.All property) : n.All (·.All property) := by
  induction n using induction with
  | node tag children ih =>
    refine all_iff.mpr ⟨all, ?_⟩
    intro part member
    exact ih part member ((all_iff.mp all).2 part member)

theorem All.part {n part : Node} {parent : Placed} (all : n.All property) (listed : parent ∈ n.placed [])
    (member : part ∈ parent.node.children) : property part := by
  have below := all.deep parent listed
  rcases shape : parent.node with ⟨tag, children⟩
  rw [shape] at below member
  exact ((all_iff.mp below).2 part member).self

end Node

end CrateFold
