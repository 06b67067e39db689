import CrateFold.Proofs.Decoding
import CrateFold.Proofs.Ranges

/-!
Flaws of a tree. The search for the first flaw enters only the nodes that the parser marks as flawed. In a tree in which
every node with a flaw at or below it is so marked (`Node.Marked`), it finds what a search of all nodes below the root
finds, in source order and parents first (`Node.firstFlaw?_eq_find?`): a node without the mark has nothing to be found,
and a marked one without a flaw is passed over. A source whose tree is marked is refused with the place of that node, or
of the root if nothing below it is a flaw (`SourceUnit.first_flaw_reported`).
-/
namespace CrateFold

/-- Whether a node is a flaw itself: it is missing or holds text that could not be read. -/
def Tag.isFlaw (t : Tag) : Bool := t.broken || t.missing

namespace Node

/-- All nodes below a node, in source order, parents first. -/
def descendants (n : Node) : List Node := (placedIn [] n.children).map (·.node)

theorem map_node_placed (n : Node) (earlier : List Node) : (n.placed earlier).map (·.node) = n :: n.descendants := by
  cases n
  rw [placed]
  rfl

theorem map_node_placedIn (nodes earlier : List Node) :
    (placedIn earlier nodes).map (·.node) = nodes.flatMap fun n => n :: n.descendants := by
  induction nodes generalizing earlier with
  | nil => rw [placedIn, List.map_nil, List.flatMap_nil]
  | cons n rest ih => rw [placedIn, List.map_append, map_node_placed, ih, List.flatMap_cons]

/-- Every node with a flaw at or below it is marked as flawed. -/
def Marked (n : Node) : Prop := n.All fun d => (∃ e ∈ d :: d.descendants, e.isFlaw = true) → d.flawed = true

instance (n : Node) : Decidable n.Marked :=
  inferInstanceAs (Decidable (∀ p ∈ n.placed [], (∃ e ∈ p.node :: p.node.descendants, e.isFlaw = true) → p.node.flawed = true))

/-- Behind a node without the mark there is nothing to be found. -/
theorem find?_of_unmarked {n : Node} (marked : n.Marked) (unmarked : n.flawed = false) :
    (n :: n.descendants).find? (·.isFlaw) = none := by
  rw [List.find?_eq_none]
  intro e member flaw
  have mark := All.self marked ⟨e, member, flaw⟩
  rw [unmarked] at mark
  cases mark

theorem firstFlawIn?_eq_find? {nodes : List Node} (marked : ∀ n ∈ nodes, n.Marked)
    (each : ∀ n ∈ nodes, n.firstFlaw? = n.descendants.find? (·.isFlaw)) :
    firstFlawIn? nodes = (nodes.flatMap fun n => n :: n.descendants).find? (·.isFlaw) := by
  induction nodes with
  | nil => rfl
  | cons n rest ih =>
    obtain ⟨here, others⟩ := List.forall_mem_cons.mp marked
    obtain ⟨same, later⟩ := List.forall_mem_cons.mp each
    rw [firstFlawIn?, List.flatMap_cons, List.find?_append, ← ih others later, same]
    cases flaw : n.isFlaw with
    | true =>
      have found : (n.broken || n.missing) = true := flaw
      simp [found, flaw]
    | false =>
      have passed : (n.broken || n.missing) = false := flaw
      cases mark : n.flawed with
      | false => simp [passed, find?_of_unmarked here mark]
      | true =>
        -- a marked node without a flaw below it does not end the search
        cases found : n.descendants.find? (·.isFlaw) with
        | none => simp [passed, flaw, found]
        | some first => simp [passed, flaw, found]

/-- The search that keeps to marked nodes finds what a search of all nodes finds. -/
theorem firstFlaw?_eq_find? (n : Node) (marked : n.Marked) : n.firstFlaw? = n.descendants.find? (·.isFlaw) := by
  induction n using induction with
  | node tag children ih =>
    have parts := (all_iff.mp marked).2
    rw [firstFlaw?, descendants, map_node_placedIn]
    exact firstFlawIn?_eq_find? parts fun n member => ih n member (parts n member)

end Node

namespace SourceUnit

open Utf8 (IsText)

variable {u : SourceUnit} {flaw : Tag}

theorem textOf_of_isText (text : IsText (u.bytes.slice flaw.start flaw.stop)) : ∃ s, u.textOf flaw = .ok s := by
  have valid : Utf8.invalid? (u.bytes.slice flaw.start flaw.stop) = none := Utf8.valid_iff_isText.mpr text
  exact ⟨_, by rw [textOf, Utf8.decode, valid]; rfl⟩

/-- A flaw that covers a text can be described. -/
theorem describeFlaw_of_isText (text : IsText (u.bytes.slice flaw.start flaw.stop)) :
    ∃ description, u.describeFlaw flaw = .ok description := by
  obtain ⟨s, read⟩ := textOf_of_isText text
  unfold describeFlaw
  split
  · exact ⟨_, rfl⟩
  · exact ⟨_, by rw [read]; rfl⟩

/-- A text whose tree is marked as flawed is refused with the first flaw in it. -/
theorem parse_of_flawed {grammar : Grammar} {bytes : Bytes} {description : String} (text : IsText bytes)
    (flawed : (grammar bytes).flawed = true) (file : String)
    (described : describeFlaw ⟨FilePath.ofString file, bytes, grammar bytes⟩
      ((grammar bytes).firstFlaw?.getD (grammar bytes)).toTag = .ok description) :
    (parse grammar bytes file).outcome = .error (.bundle (malformed ⟨FilePath.ofString file, bytes, grammar bytes⟩ file
      ((grammar bytes).firstFlaw?.getD (grammar bytes)).toTag description)) := by
  have valid : Utf8.invalid? bytes = none := Utf8.valid_iff_isText.mpr text
  simp only [parse, valid, checkTree, flawed, if_true, described, ok_bind, Traced.outcome_bind, Traced.outcome_lift]
  rfl

/-- In a tree that marks its flaws, the search of the marked nodes alone finds the first of all nodes below the root that is
a flaw; and a source with such a tree, whose nodes cover texts, is refused, if the root is marked, with the location of
that node, or of the root if there is none. -/
theorem first_flaw_reported :
    (∀ root : Node, root.Marked → root.firstFlaw? = root.descendants.find? (·.isFlaw)) ∧
    ∀ (grammar : Grammar) (bytes : Bytes) (file : String), IsText bytes → (grammar bytes).Marked →
      ((grammar bytes).All fun n => IsText (bytes.slice n.start n.stop)) → (grammar bytes).flawed = true →
      ∃ e, (parse grammar bytes file).outcome = .error (.bundle e) ∧ e.problem = .malformed file ∧
        e.location = some (locate ⟨FilePath.ofString file, bytes, grammar bytes⟩
          (((grammar bytes).descendants.find? (·.isFlaw)).getD (grammar bytes)).toTag) := by
  refine ⟨Node.firstFlaw?_eq_find?, ?_⟩
  intro grammar bytes file text marked texts flawed
  have first := (grammar bytes).firstFlaw?_eq_find? marked
  have member : (grammar bytes).firstFlaw?.getD (grammar bytes) ∈ grammar bytes :: (grammar bytes).descendants := by
    rw [first]
    cases found : (grammar bytes).descendants.find? (·.isFlaw) with
    | none => exact List.mem_cons_self
    | some flaw => exact List.mem_cons_of_mem _ (List.mem_of_find?_eq_some found)
  rw [← Node.map_node_placed _ []] at member
  obtain ⟨place, listed, same⟩ := List.mem_map.mp member
  have covers := texts place listed
  rw [same] at covers
  obtain ⟨description, described⟩ :=
    describeFlaw_of_isText (u := ⟨FilePath.ofString file, bytes, grammar bytes⟩) covers
  refine ⟨_, parse_of_flawed text flawed file described, rfl, ?_⟩
  rw [← first]
  rfl

/-- A tree over `a\nb`: the first part is marked though there is no flaw in it, the second is not marked, and a token is
missing deep in the third. -/
def missingDeep : Node where
  kind := "source_file"
  flawed := true
  stop := 3
  children := [
    { kind := "function_item", flawed := true, stop := 1, children := [{ kind := "identifier", stop := 1 }] },
    { kind := "line_comment", start := 1, stop := 2 },
    { kind := "mod_item", flawed := true, start := 2, stop := 3, children := [
      { kind := "declaration_list", flawed := true, start := 2, stop := 3, children := [
        { kind := "\x7d", missing := true, flawed := true, start := 2, stop := 2 },
        { kind := "ERROR", broken := true, flawed := true, start := 2, stop := 3 }] }] }]

theorem first_flaw_reported_missingDeep :
    missingDeep.Marked ∧ (missingDeep.firstFlaw?.map (·.kind)) = some "\x7d" ∧
    ∃ e, (parse (fun _ => missingDeep) [0x61, 0x0A, 0x62] "lib.rs").outcome = .error (.bundle e) ∧
      e.problem = .malformed "lib.rs" ∧
      e.location = some { file := "lib.rs", line := 2, column := 1, start := 2, stop := 2, endLine := 2, endColumn := 1 } := by
  have marked : missingDeep.Marked := by decide
  obtain ⟨search, report⟩ := first_flaw_reported
  have text : IsText [0x61, 0x0A, 0x62] := ⟨"a\nb", by decide⟩
  have valid : ∀ p ∈ missingDeep.placed [], Utf8.Valid (Bytes.slice [0x61, 0x0A, 0x62] p.node.start p.node.stop) := by decide
  obtain ⟨e, refused, problem, location⟩ := report (fun _ => missingDeep) [0x61, 0x0A, 0x62] "lib.rs" text marked
    (fun p listed => Utf8.valid_iff_isText.mp (valid p listed)) rfl
  exact ⟨marked, by rw [search missingDeep marked]; decide, e, refused, problem, location.trans (by decide)⟩

end SourceUnit

end CrateFold
