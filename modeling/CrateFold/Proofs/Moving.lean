import CrateFold.Scope.Build
import CrateFold.Proofs.Building

/-!
Reading a tree does not depend on where its text stands. If the offsets of a tree are moved to where another
source has the same bytes (`Copied`), reading the tree there gives the same scope, or the same fault up to
the location that it names (`visit_moved`).
-/
namespace CrateFold

/-! ### Outcomes up to locations -/

/-- A fault without what it says about the place where it arose. -/
def Fault.plain : Fault → Fault
  | .bundle error => .bundle { error with location := none, source := none }
  | fault => fault

/-- Two outcomes with the same result, or with faults that differ at most in the place. -/
def Alike {α : Type} (x y : Except Fault α) : Prop := x.mapError Fault.plain = y.mapError Fault.plain

variable {α β : Type} {x y : Except Fault α}

theorem alike_refl (x : Except Fault α) : Alike x x := rfl

theorem alike_of_eq (same : x = y) : Alike x y := same ▸ rfl

theorem Alike.bind {f g : α → Except Fault β} (one : Alike x y) (two : ∀ a, Alike (f a) (g a)) :
    Alike (x >>= f) (y >>= g) := by
  unfold Alike at one two ⊢
  cases x with
  | error fault =>
    cases y with
    | error other =>
      simp only [Except.mapError, Except.error.injEq] at one
      simp only [error_bind, Except.mapError, one]
    | ok b => cases one
  | ok a =>
    cases y with
    | error other => cases one
    | ok b =>
      cases one
      exact two a

/-- What is like a success is that success. -/
theorem Alike.eq_ok {a : α} (alike : Alike x y) (fine : y = .ok a) : x = .ok a := by
  unfold Alike at alike
  rw [fine] at alike
  cases x with
  | error fault => cases alike
  | ok b =>
    cases alike
    rfl

/-- What is like a failure is a failure with the same fault, but for the place. -/
theorem Alike.eq_error {fault : Fault} (alike : Alike x y) (failed : y = .error fault) :
    ∃ other, x = .error other ∧ other.plain = fault.plain := by
  unfold Alike at alike
  rw [failed] at alike
  cases x with
  | error other => exact ⟨other, rfl, Except.error.inj alike⟩
  | ok b => cases alike

/-! ### Moved trees -/

/-- A node with its offsets moved. -/
def Tag.moved (f : Nat → Nat) (t : Tag) : Tag := { t with start := f t.start, stop := f t.stop }

/-- Whether a node stands between two offsets. -/
def Tag.within (low high : Nat) (t : Tag) : Bool :=
  decide (low ≤ t.start ∧ t.start ≤ high ∧ low ≤ t.stop ∧ t.stop ≤ high)

mutual

/-- A tree with its offsets moved. -/
def Node.moved (f : Nat → Nat) : Node → Node
  | ⟨tag, children⟩ => ⟨tag.moved f, Node.movedIn f children⟩
termination_by structural n => n

/-- Siblings with their offsets moved. -/
def Node.movedIn (f : Nat → Nat) : List Node → List Node
  | [] => []
  | n :: rest => n.moved f :: Node.movedIn f rest
termination_by structural l => l

end

mutual

/-- Whether all nodes of a tree stand between two offsets. -/
def Node.within (low high : Nat) : Node → Bool
  | ⟨tag, children⟩ => tag.within low high && Node.withinIn low high children
termination_by structural n => n

/-- Whether all nodes of siblings stand between two offsets. -/
def Node.withinIn (low high : Nat) : List Node → Bool
  | [] => true
  | n :: rest => n.within low high && Node.withinIn low high rest
termination_by structural l => l

end

namespace Node

variable {f : Nat → Nat} {low high : Nat} {n : Node} {nodes : List Node}

@[simp] theorem moved_toTag (f : Nat → Nat) (n : Node) : (n.moved f).toTag = n.toTag.moved f := by
  cases n
  rfl

theorem find?_movedIn (p : Tag → Bool) (blind : ∀ t : Tag, p (t.moved f) = p t) (nodes : List Node) :
    (movedIn f nodes).find? (fun n => p n.toTag) = (nodes.find? fun n => p n.toTag).map (moved f) := by
  induction nodes with
  | nil => rfl
  | cons n rest ih =>
    rw [movedIn, List.find?_cons, List.find?_cons, moved_toTag, blind]
    cases p n.toTag with
    | true => rfl
    | false => exact ih

theorem within_toTag (inside : n.within low high = true) : n.toTag.within low high = true := by
  cases n
  simp only [within, Bool.and_eq_true] at inside
  exact inside.1

theorem withinIn_iff : withinIn low high nodes = true ↔ ∀ n ∈ nodes, n.within low high = true := by
  induction nodes with
  | nil => simp [withinIn]
  | cons n rest ih => simp [withinIn, ih]

end Node

/-- Between two offsets the source of `u` has the bytes that the source of `v` has at the moved offsets. -/
def Copied (u v : SourceUnit) (f : Nat → Nat) (low high : Nat) : Prop :=
  ∀ a b, low ≤ a → a ≤ high → low ≤ b → b ≤ high → v.bytes.slice (f a) (f b) = u.bytes.slice a b

/-- A choice of nodes that does not look at offsets. -/
def Blind {γ : Type} (choice : Tag → γ) : Prop :=
  ∀ (t : Tag) (start stop : Nat), choice { t with start := start, stop := stop } = choice t

theorem Blind.moved {γ : Type} {choice : Tag → γ} (blind : Blind choice) (t : Tag) (f : Nat → Nat) :
    choice (t.moved f) = choice t := blind t (f t.start) (f t.stop)

namespace SourceUnit

variable {u v : SourceUnit} {f : Nat → Nat} {low high : Nat}

/-! ### Texts and paths -/

theorem textOf_moved (copied : Copied u v f low high) {t : Tag} (inside : t.within low high = true) :
    v.textOf (t.moved f) = u.textOf t := by
  obtain ⟨a, b, c, d⟩ := of_decide_eq_true inside
  have same := copied t.start t.stop a b c d
  simp only [textOf, Tag.moved, same]

theorem nameOf_moved (copied : Copied u v f low high) {nodes : List Node} (inside : Node.withinIn low high nodes = true)
    (field : String) :
    v.nameOf ((Node.movedIn f nodes).find? (·.fills field)) = u.nameOf (nodes.find? (·.fills field)) := by
  rw [Node.find?_movedIn (·.fills field) (fun _ => rfl)]
  cases found : nodes.find? (·.fills field) with
  | none => rfl
  | some n =>
    have member := List.mem_of_find?_eq_some found
    simp only [Option.map_some, nameOf, Node.moved_toTag]
    exact textOf_moved copied (Node.within_toTag (Node.withinIn_iff.mp inside n member))

theorem refuseLeadingSeparator_moved (copied : Copied u v f low high) {tag : Tag} {children : List Node}
    (inside : tag.within low high = true) :
    Alike (v.refuseLeadingSeparator (tag.moved f) (Node.movedIn f children)) (u.refuseLeadingSeparator tag children) := by
  have head : (Node.movedIn f children).head?.any (·.kind == "::") = children.head?.any (·.kind == "::") := by
    cases children with
    | nil => rfl
    | cons n rest =>
      cases n
      rfl
  simp only [refuseLeadingSeparator, head]
  split
  · rw [textOf_moved copied inside]
    apply (alike_refl (u.textOf tag)).bind
    intro text
    rfl
  · rfl

theorem extendSegments_moved (copied : Copied u v f low high) {children : List Node}
    (inside : Node.withinIn low high children = true) (segments : Option (List String)) :
    v.extendSegments (Node.movedIn f children) segments = u.extendSegments children segments := by
  cases segments with
  | none => rfl
  | some segments =>
    simp only [extendSegments]
    rw [Node.find?_movedIn (·.fills "name") (fun _ => rfl)]
    cases found : children.find? (·.fills "name") with
    | none => rfl
    | some n =>
      have member := List.mem_of_find?_eq_some found
      simp only [Option.map_some, Node.moved_toTag,
        textOf_moved copied (Node.within_toTag (Node.withinIn_iff.mp inside n member))]

mutual

theorem segments_moved (copied : Copied u v f low high) : ∀ n : Node, n.within low high = true →
    Alike (v.segments (n.moved f)) (u.segments n)
  | ⟨tag, children⟩, inside => by
    simp only [Node.within, Bool.and_eq_true] at inside
    have shape : (tag.moved f).pathShape = tag.pathShape := rfl
    simp only [Node.moved, segments, shape]
    split
    · rw [textOf_moved copied inside.1]
      rfl
    · apply (segmentsAt_moved copied children "path" inside.2).bind
      intro base
      cases base with
      | none =>
        refine (refuseLeadingSeparator_moved copied inside.1).bind fun _ => ?_
        exact alike_of_eq (extendSegments_moved copied inside.2 _)
      | some base => exact alike_of_eq (extendSegments_moved copied inside.2 _)
    · exact (segmentsAt_moved copied children "type" inside.2).bind fun _ => rfl
    · rfl
termination_by structural n => n

theorem segmentsAt_moved (copied : Copied u v f low high) : ∀ (nodes : List Node) (field : String),
    Node.withinIn low high nodes = true → Alike (v.segmentsAt field (Node.movedIn f nodes)) (u.segmentsAt field nodes)
  | [], _, _ => rfl
  | n :: rest, field, inside => by
    simp only [Node.withinIn, Bool.and_eq_true] at inside
    have fills : (n.moved f).toTag.fills field = n.toTag.fills field := by
      rw [Node.moved_toTag]
      rfl
    simp only [Node.movedIn, segmentsAt, fills]
    split
    · rw [← bind_pure_comp, ← bind_pure_comp]
      exact (segments_moved copied n inside.1).bind fun _ => rfl
    · exact segmentsAt_moved copied rest field inside.2
termination_by structural l => l

end

theorem recordPath_moved (copied : Copied u v f low high) {n : Node} (inside : n.within low high = true) (s : Scope) :
    Alike (v.recordPath (n.moved f) s) (u.recordPath n s) :=
  (segments_moved copied n inside).bind fun _ => rfl

theorem usePath_moved (copied : Copied u v f low high) {n : Node} (inside : n.within low high = true) :
    Alike (v.usePath (n.moved f)) (u.usePath n) := by
  apply (segments_moved copied n inside).bind
  intro segments
  cases segments with
  | none =>
    simp only [Node.moved_toTag, textOf_moved copied (Node.within_toTag inside)]
    apply (alike_refl (u.textOf n.toTag)).bind
    intro text
    rfl
  | some segments => rfl

theorem importLeaf_moved (copied : Copied u v f low high) (base : ModulePath) {n : Node}
    (inside : n.within low high = true) : Alike (v.importLeaf base (n.moved f)) (u.importLeaf base n) :=
  (usePath_moved copied inside).bind fun _ => rfl

theorem extendBase_moved (copied : Copied u v f low high) (base : ModulePath) {tag : Tag} {children : List Node}
    (here : tag.within low high = true) (inside : Node.withinIn low high children = true) {p : Tag → Bool}
    (blind : Blind p) :
    Alike (v.extendBase base (tag.moved f) (Node.movedIn f children) ((Node.movedIn f children).find? fun n => p n.toTag))
      (u.extendBase base tag children (children.find? fun n => p n.toTag)) := by
  rw [Node.find?_movedIn p fun t => blind.moved t f]
  cases found : children.find? fun n => p n.toTag with
  | none => exact (refuseLeadingSeparator_moved copied here).bind fun _ => rfl
  | some n =>
    have member := List.mem_of_find?_eq_some found
    exact (usePath_moved copied (Node.withinIn_iff.mp inside n member)).bind fun _ => rfl

/-! ### Paths in macro input -/

/-- Runs with the offsets of their nodes moved. -/
def movedRuns (f : Nat → Nat) (runs : List (List Node)) : List (List Node) := runs.map fun run => run.map (Node.moved f)

theorem movedRuns_append (f : Nat → Nat) (first rest : List (List Node)) :
    movedRuns f (first ++ rest) = movedRuns f first ++ movedRuns f rest := List.map_append

theorem closeRun_moved (f : Nat → Nat) (run : List Node) : closeRun (run.map (Node.moved f)) = movedRuns f (closeRun run) := by
  cases run <;> rfl

mutual

theorem tokenRuns_moved (copied : Copied u v f low high) : ∀ n : Node, n.within low high = true →
    Node.tokenRuns v.bytes (n.moved f) = movedRuns f (Node.tokenRuns u.bytes n)
  | ⟨tag, children⟩, inside => by
    simp only [Node.within, Bool.and_eq_true] at inside
    obtain ⟨a, b, -⟩ := of_decide_eq_true inside.1
    exact tokenRunsIn_moved copied children tag.start [] a b inside.2
termination_by structural n => n

theorem tokenRunsIn_moved (copied : Copied u v f low high) : ∀ (nodes : List Node) (last : Nat) (run : List Node),
    low ≤ last → last ≤ high → Node.withinIn low high nodes = true →
      Node.tokenRunsIn v.bytes (f last) (run.map (Node.moved f)) (Node.movedIn f nodes) =
        movedRuns f (Node.tokenRunsIn u.bytes last run nodes)
  | [], last, run, _, _, _ => closeRun_moved f run
  | n :: rest, last, run, above, below, inside => by
    simp only [Node.withinIn, Bool.and_eq_true] at inside
    obtain ⟨a, b, c, d⟩ := of_decide_eq_true (Node.within_toTag inside.1)
    have next := fun run => tokenRunsIn_moved copied rest n.stop run c d inside.2
    have none := next []
    have start : (n.moved f).toTag = n.toTag.moved f := Node.moved_toTag f n
    have gap : v.bytes.isSeparator (f last) (f n.start) = u.bytes.isSeparator last n.start := by
      simp only [Bytes.isSeparator, copied last n.start above below a b]
    have shape : (n.toTag.moved f).pathShape = n.toTag.pathShape := rfl
    simp only [Node.movedIn, Node.tokenRunsIn, start, shape]
    change (if !n.named then Node.tokenRunsIn v.bytes (f last) (run.map (Node.moved f)) (Node.movedIn f rest)
      else if n.kind == "token_tree" then _
      else if n.pathShape == .segment then
        if (run.map (Node.moved f)).isEmpty || v.bytes.isSeparator (f last) (f n.start) then
          Node.tokenRunsIn v.bytes (f n.stop) (run.map (Node.moved f) ++ [n.moved f]) (Node.movedIn f rest)
        else closeRun (run.map (Node.moved f)) ++ Node.tokenRunsIn v.bytes (f n.stop) [n.moved f] (Node.movedIn f rest)
      else _) = _
    split
    · exact tokenRunsIn_moved copied rest last run above below inside.2
    · split
      · rw [closeRun_moved, tokenRuns_moved copied n inside.1, movedRuns_append, movedRuns_append, ← none]
        rfl
      · split
        · rw [List.isEmpty_map, gap]
          split
          · rw [← next, List.map_append]
            rfl
          · rw [closeRun_moved, movedRuns_append, ← next]
            rfl
        · rw [closeRun_moved, movedRuns_append, ← none]
          rfl
termination_by structural l => l

end

theorem closeRun_within {run : List Node} (inRun : ∀ m ∈ run, m.toTag.within low high = true) :
    ∀ found ∈ closeRun run, ∀ m ∈ found, m.toTag.within low high = true := by
  intro found listed
  unfold closeRun at listed
  split at listed
  · cases listed
  · rw [List.mem_singleton.mp listed]
    exact inRun

mutual

theorem tokenRuns_within (source : Bytes) : ∀ n : Node, n.within low high = true →
    ∀ run ∈ Node.tokenRuns source n, ∀ m ∈ run, m.toTag.within low high = true
  | ⟨_, children⟩, inside, run, listed => by
    simp only [Node.within, Bool.and_eq_true] at inside
    exact tokenRunsIn_within source children _ [] (by simp) inside.2 run listed
termination_by structural n => n

theorem tokenRunsIn_within (source : Bytes) : ∀ (nodes : List Node) (last : Nat) (run : List Node),
    (∀ m ∈ run, m.toTag.within low high = true) → Node.withinIn low high nodes = true →
      ∀ found ∈ Node.tokenRunsIn source last run nodes, ∀ m ∈ found, m.toTag.within low high = true
  | [], _, run, inRun, _, found, listed => closeRun_within inRun found listed
  | n :: rest, last, run, inRun, inside, found, listed => by
    simp only [Node.withinIn, Bool.and_eq_true] at inside
    have fresh := tokenRunsIn_within source rest n.stop [] (by simp) inside.2
    have here := Node.within_toTag inside.1
    simp only [Node.tokenRunsIn] at listed
    split at listed
    · exact tokenRunsIn_within source rest last run inRun inside.2 found listed
    · split at listed
      · rcases List.mem_append.mp listed with early | later
        · rcases List.mem_append.mp early with closed | deeper
          · exact closeRun_within inRun found closed
          · exact tokenRuns_within source n inside.1 found deeper
        · exact fresh found later
      · split at listed
        · split at listed
          · refine tokenRunsIn_within source rest n.stop (run ++ [n]) ?_ inside.2 found listed
            intro m member
            rcases List.mem_append.mp member with old | new
            · exact inRun m old
            · rw [List.mem_singleton.mp new]
              exact here
          · rcases List.mem_append.mp listed with closed | later
            · exact closeRun_within inRun found closed
            · refine tokenRunsIn_within source rest n.stop [n] ?_ inside.2 found later
              intro m member
              rw [List.mem_singleton.mp member]
              exact here
        · rcases List.mem_append.mp listed with closed | later
          · exact closeRun_within inRun found closed
          · exact fresh found later
termination_by structural l => l

end

theorem texts_moved (copied : Copied u v f low high) (nodes : List Node)
    (inside : ∀ m ∈ nodes, m.toTag.within low high = true) :
    (nodes.map (Node.moved f)).mapM (fun n => v.textOf n.toTag) = nodes.mapM fun n => u.textOf n.toTag := by
  induction nodes with
  | nil => rfl
  | cons n rest ih =>
    simp only [List.map_cons, List.mapM_cons, Node.moved_toTag, textOf_moved copied (inside n (by simp)),
      ih fun m member => inside m (by simp [member])]

theorem recordRuns_moved (copied : Copied u v f low high) (runs : List (List Node))
    (inside : ∀ run ∈ runs, ∀ m ∈ run, m.toTag.within low high = true) (s : Scope) :
    v.recordRuns (movedRuns f runs) s = u.recordRuns runs s := by
  induction runs generalizing s with
  | nil => rfl
  | cons run rest ih =>
    have texts := texts_moved copied run (inside run (by simp))
    change v.recordRuns (run.map (Node.moved f) :: movedRuns f rest) s = _
    simp only [recordRuns, texts, ih fun run member => inside run (by simp [member])]

/-! ### Reading -/

theorem importsAt_moved {n : Node} {base : ModulePath} {s : Scope} (copied : Copied u v f low high)
    (inside : n.within low high = true) (visits : Alike (v.visit .path (n.moved f) s) (u.visit .path n s))
    (others : Alike (v.imports base (n.moved f) s) (u.imports base n s)) :
    Alike (v.importsAt base (n.moved f) s) (u.importsAt base n s) := by
  have kind : (n.moved f).kind = n.kind := by rw [Node.moved_toTag]; rfl
  simp only [importsAt, kind]
  split
  · exact visits.bind fun t => (importLeaf_moved copied base inside).bind fun _ => rfl
  · exact others

theorem any_movedIn {p : Tag → Bool} (blind : Blind p) (f : Nat → Nat) (nodes : List Node) :
    (Node.movedIn f nodes).any (fun n => p n.toTag) = nodes.any fun n => p n.toTag := by
  induction nodes with
  | nil => rfl
  | cons n rest ih => rw [Node.movedIn, List.any_cons, List.any_cons, Node.moved_toTag, blind.moved, ih]

mutual

/-- A tree whose text is copied is read as before. -/
theorem visit_moved (copied : Copied u v f low high) : ∀ (n : Node) (position : Position) (s : Scope),
    n.within low high = true → Alike (v.visit position (n.moved f) s) (u.visit position n s)
  | ⟨tag, children⟩, position, s, whole => by
    have inside := whole
    simp only [Node.within, Bool.and_eq_true] at inside
    have below : ∀ (positionOf : Tag → Option Position) (reach : Reach) (s : Scope), Blind positionOf →
        Alike (v.visitIn positionOf reach (Node.movedIn f children) s) (u.visitIn positionOf reach children s) :=
      fun positionOf reach s blind => visitIn_moved copied children positionOf reach s blind inside.2
    have text := textOf_moved copied inside.1
    have name := nameOf_moved copied inside.2 "name"
    have kind : (tag.moved f).kind = tag.kind := rfl
    have path := fun s => recordPath_moved copied whole s
    simp only [Node.moved] at path
    cases position with
    | item =>
      simp only [Node.moved, visit, kind]
      cases rule : Rule.ofKind tag.kind with
      | skip => rfl
      | name => rw [text]; rfl
      | path => exact (below _ _ _ fun _ _ _ => rfl).bind path
      | call => exact below _ _ _ fun _ _ _ => rfl
      | definition => exact below _ _ _ fun _ _ _ => rfl
      | module =>
        simp only [name]
        exact (alike_refl _).bind fun _ => (below _ _ _ fun _ _ _ => rfl).bind fun _ => rfl
      | function =>
        simp only [name]
        exact (alike_refl _).bind fun _ => (below _ _ _ fun _ _ _ => rfl).bind fun _ => rfl
      | implementation => exact (below _ _ _ fun _ _ _ => rfl).bind fun _ => rfl
      | block => exact (below _ _ _ fun _ _ _ => rfl).bind fun _ => rfl
      | type =>
        simp only
        rw [Node.find?_movedIn (·.fills "name") fun _ => rfl]
        cases found : children.find? (·.fills "name") with
        | none => exact below _ _ _ fun _ _ _ => rfl
        | some n =>
          have member := List.mem_of_find?_eq_some found
          simp only [Option.map_some, Node.moved_toTag,
            textOf_moved copied (Node.within_toTag (Node.withinIn_iff.mp inside.2 n member))]
          exact (alike_refl _).bind fun _ => below _ _ _ fun _ _ _ => rfl
      | trait =>
        simp only [name]
        exact (alike_refl _).bind fun _ => (below _ _ _ fun _ _ _ => rfl).bind fun _ => rfl
      | owner => rfl
      | use =>
        simp only
        rw [any_movedIn (p := (·.fills "argument")) (fun _ _ _ => rfl) f children]
        split
        · exact (importsIn_moved copied children .empty _ .first s (fun _ _ _ => rfl) inside.2).bind fun _ => rfl
        · rfl
      | closure => exact below _ _ _ fun _ _ _ => rfl
      | pattern => exact below _ _ _ fun _ _ _ => rfl
      | plain => exact below _ _ _ fun _ _ _ => rfl
    | body => exact below _ _ _ fun _ _ _ => rfl
    | pattern =>
      simp only [Node.moved, visit, kind]
      cases rule : Rule.ofKind tag.kind with
      | skip => rfl
      | name =>
        simp only
        split
        · rfl
        · rw [text]
          rfl
      | path => exact (below _ _ _ fun _ _ _ => rfl).bind path
      | _ => exact below _ _ _ fun _ _ _ => rfl
    | path =>
      have shape : (tag.moved f).pathShape = tag.pathShape := rfl
      simp only [Node.moved, visit, shape, kind]
      split
      · rfl
      · exact below _ _ _ fun _ _ _ => rfl
      · exact (below _ _ _ fun _ _ _ => rfl).bind fun _ => below _ _ _ fun _ _ _ => rfl
      · exact below _ _ _ fun _ _ _ => rfl
    | parameters => exact below _ _ _ fun _ _ _ => rfl
    | parameter =>
      simp only [Node.moved, visit, kind]
      split
      · rw [text]
        rfl
      · split
        · rfl
        · exact below _ _ _ fun _ _ _ => rfl
    | macroRule => exact below _ _ _ fun _ _ _ => rfl
    | tokens =>
      have runs := tokenRuns_moved copied _ whole
      simp only [Node.moved] at runs
      simp only [Node.moved, visit, runs]
      exact alike_of_eq (recordRuns_moved copied _ (tokenRuns_within u.bytes _ whole) s)
termination_by structural n => n

theorem visitIn_moved (copied : Copied u v f low high) : ∀ (nodes : List Node) (positionOf : Tag → Option Position)
    (reach : Reach) (s : Scope), Blind positionOf → Node.withinIn low high nodes = true →
      Alike (v.visitIn positionOf reach (Node.movedIn f nodes) s) (u.visitIn positionOf reach nodes s)
  | [], _, _, _, _, _ => rfl
  | n :: rest, positionOf, reach, s, blind, inside => by
    simp only [Node.withinIn, Bool.and_eq_true] at inside
    have later := fun s => visitIn_moved copied rest positionOf reach s blind inside.2
    rw [Node.movedIn, visitIn, visitIn, Node.moved_toTag, blind.moved]
    cases positionOf n.toTag with
    | none => exact later s
    | some position =>
      apply (visit_moved copied n position s inside.1).bind
      intro t
      cases reach with
      | first => rfl
      | all => exact later t
termination_by structural l => l

theorem imports_moved (copied : Copied u v f low high) : ∀ (n : Node) (base : ModulePath) (s : Scope),
    n.within low high = true → Alike (v.imports base (n.moved f) s) (u.imports base n s)
  | ⟨tag, children⟩, base, s, whole => by
    have inside := whole
    simp only [Node.within, Bool.and_eq_true] at inside
    have below : ∀ (positionOf : Tag → Option Position) (reach : Reach) (s : Scope), Blind positionOf →
        Alike (v.visitIn positionOf reach (Node.movedIn f children) s) (u.visitIn positionOf reach children s) :=
      fun positionOf reach s blind => visitIn_moved copied children positionOf reach s blind inside.2
    have kind : (tag.moved f).kind = tag.kind := rfl
    simp only [Node.moved, imports, kind]
    cases UseShape.ofKind tag.kind with
    | list => exact importsIn_moved copied children base _ .all s (fun _ _ _ => rfl) inside.2
    | scopedList =>
      apply (below _ _ _ fun _ _ _ => rfl).bind
      intro t
      apply (extendBase_moved copied base inside.1 inside.2 (p := (·.fills "path")) fun _ _ _ => rfl).bind
      intro inner
      exact importsIn_moved copied children inner _ .first t (fun _ _ _ => rfl) inside.2
    | glob =>
      apply (below _ _ _ fun _ _ _ => rfl).bind
      intro t
      exact (extendBase_moved copied base inside.1 inside.2 (p := (·.named)) fun _ _ _ => rfl).bind fun _ => rfl
    | renamed =>
      simp only
      rw [Node.find?_movedIn (·.fills "path") fun _ => rfl]
      cases found : children.find? (·.fills "path") with
      | none => rfl
      | some path =>
        have member := Node.withinIn_iff.mp inside.2 path (List.mem_of_find?_eq_some found)
        simp only [Option.map_some, nameOf_moved copied inside.2 "alias"]
        apply (below _ _ _ fun _ _ _ => rfl).bind
        intro t
        exact (usePath_moved copied member).bind fun _ => rfl
    | leaf => rfl
termination_by structural n => n

theorem importsIn_moved (copied : Copied u v f low high) : ∀ (nodes : List Node) (base : ModulePath) (pick : Tag → Bool)
    (reach : Reach) (s : Scope), Blind pick → Node.withinIn low high nodes = true →
      Alike (v.importsIn base pick reach (Node.movedIn f nodes) s) (u.importsIn base pick reach nodes s)
  | [], _, _, _, _, _, _ => rfl
  | n :: rest, base, pick, reach, s, blind, inside => by
    simp only [Node.withinIn, Bool.and_eq_true] at inside
    rw [Node.movedIn, importsIn_cons, importsIn_cons, Node.moved_toTag, blind.moved]
    split
    · exact importsIn_moved copied rest base pick reach s blind inside.2
    · refine (importsAt_moved copied inside.1 (visit_moved copied n .path s inside.1)
        (imports_moved copied n base s inside.1)).bind fun found => ?_
      cases reach with
      | first => rfl
      | all => exact (importsIn_moved copied rest base pick .all found.1 blind inside.2).bind fun _ => rfl
termination_by structural l => l

end

end SourceUnit

end CrateFold
