import CrateFold.Proofs.Building
import CrateFold.Proofs.Ranges
import Mathlib.Data.List.TakeWhile

/-!
Comments and the scope tree. `Node.Sheds` relates a tree to what is left of it after dropping any of its
comments, wherever the construct around them does not read them as parts of its own. Such a tree is read as
before: every node gives the same scope or the same fault (`reads_sheds`). A use tree is the exception that
`Tag.Admits` makes: it takes its named children for paths, and a comment among them is refused
(`imports_comment`).
-/
namespace CrateFold

open SourceUnit (UseShape)

/-! ### Dropping comments -/

/-- A node of kinds that hold no reference and declare nothing, down to its leaves. -/
inductive Node.Inert : Node → Prop where
  | node {tag : Tag} {children : List Node} (rule : Rule.ofKind tag.kind = .skip ∨ Rule.ofKind tag.kind = .plain)
      (below : ∀ n ∈ children, n.Inert) : Node.Inert ⟨tag, children⟩

/-- Whether a node is a comment by its kind. -/
def Tag.isComment (t : Tag) : Bool := t.kind == "line_comment" || t.kind == "block_comment"

/-- The byte that every comment starts with. -/
def Bytes.slash : UInt8 := 47

/-- A comment: it fills no field, its text starts with a slash, and what the parser finds in it is inert. -/
structure SourceUnit.Comment (u : SourceUnit) (c : Node) : Prop where
  kind : c.isComment = true
  field : c.field = none
  text : (u.bytes.slice c.start c.stop).head? = some Bytes.slash
  inert : c.Inert

/-- Where a comment may stand among the children of a node, given the siblings before it, without being
taken for one of the parts that the node is read by: a use list reads all its named children, a glob its
first one, and a path may start with `::`. -/
structure Tag.Admits (parent : Tag) (before : List Tag) : Prop where
  list : UseShape.ofKind parent.kind ≠ .list
  glob : UseShape.ofKind parent.kind = .glob → ∃ t ∈ before, t.named = true
  path : UseShape.ofKind parent.kind = .scopedList ∨ parent.pathShape = .scoped → before ≠ []

/-- A choice of nodes of which no comment that may go from a node is the first. -/
def SourceUnit.Passes (u : SourceUnit) (parent : Tag) (choice : Tag → Bool) : Prop :=
  ∀ c before, u.Comment c → parent.Admits before → choice c.toTag = true → ∃ t ∈ before, choice t = true

theorem SourceUnit.passes_fills (u : SourceUnit) (parent : Tag) (field : String) : u.Passes parent (·.fills field) := by
  intro c before comment _ fills
  simp [Tag.fills, comment.field] at fills

mutual

/-- A tree and what is left of it without some of its comments. -/
inductive Node.Sheds (u : SourceUnit) : Node → Node → Prop where
  | node {tag : Tag} {children others : List Node} (parts : Node.ShedsIn u tag [] children others) :
      Node.Sheds u ⟨tag, children⟩ ⟨tag, others⟩

/-- Children of a node behind the given siblings, and what is left of them without some of the comments. -/
inductive Node.ShedsIn (u : SourceUnit) : Tag → List Tag → List Node → List Node → Prop where
  | nil {parent : Tag} {before : List Tag} : Node.ShedsIn u parent before [] []
  | keep {parent : Tag} {before : List Tag} {n m : Node} {rest others : List Node} (here : Node.Sheds u n m)
      (later : Node.ShedsIn u parent (n.toTag :: before) rest others) :
      Node.ShedsIn u parent before (n :: rest) (m :: others)
  | drop {parent : Tag} {before : List Tag} {c : Node} {rest others : List Node} (comment : u.Comment c)
      (admits : parent.Admits before) (later : Node.ShedsIn u parent (c.toTag :: before) rest others) :
      Node.ShedsIn u parent before (c :: rest) others

end

/-- A unit with another tree over its bytes. -/
def SourceUnit.withTree (u : SourceUnit) (tree : Node) : SourceUnit := { u with root := tree }

namespace Node

variable {u : SourceUnit} {n m : Node} {parent : Tag} {before : List Tag} {nodes others : List Node}

theorem Sheds.toTag_eq (sheds : n.Sheds u m) : m.toTag = n.toTag := by
  cases sheds
  rfl

theorem ShedsIn.of_forall (same : ∀ n ∈ nodes, n.Sheds u n) : ShedsIn u parent before nodes nodes := by
  induction nodes generalizing before with
  | nil => exact .nil
  | cons n rest ih =>
    obtain ⟨here, later⟩ := List.forall_mem_cons.mp same
    exact .keep here (ih later)

/-- No comment has to go. -/
theorem Sheds.refl (n : Node) : n.Sheds u n := by
  induction n using Node.induction with
  | node tag children ih => exact .node (.of_forall ih)

theorem ShedsIn.refl : ShedsIn u parent before nodes nodes := .of_forall fun n _ => .refl n

/-- What is left are nodes that were there. -/
theorem ShedsIn.tag_mem (sheds : ShedsIn u parent before nodes others) (member : m ∈ others) :
    ∃ n ∈ nodes, m.toTag = n.toTag := by
  induction nodes generalizing before others with
  | nil =>
    cases sheds
    cases member
  | cons first rest ih =>
    cases sheds with
    | keep here later =>
      rcases List.mem_cons.mp member with rfl | further
      · exact ⟨first, by simp, here.toTag_eq⟩
      · obtain ⟨n, listed, same⟩ := ih later further
        exact ⟨n, by simp [listed], same⟩
    | drop _ _ later =>
      obtain ⟨n, listed, same⟩ := ih later member
      exact ⟨n, by simp [listed], same⟩

/-- The first node of a choice, if there is one, is left. -/
def KeepsFirst (u : SourceUnit) (choice : Tag → Bool) (nodes others : List Node) : Prop :=
  ((nodes.find? fun n => choice n.toTag) = none ∧ (others.find? fun n => choice n.toTag) = none) ∨
    ∃ n ∈ nodes, ∃ m, (nodes.find? fun n => choice n.toTag) = some n ∧ (others.find? fun n => choice n.toTag) = some m ∧
      n.Sheds u m

theorem KeepsFirst.cons {choice : Tag → Bool} (kept : KeepsFirst u choice nodes others) (passed : choice n.toTag = false) :
    KeepsFirst u choice (n :: nodes) others := by
  unfold KeepsFirst
  simp only [List.find?_cons, passed]
  rcases kept with nothing | ⟨first, member, found⟩
  · exact .inl nothing
  · exact .inr ⟨first, List.mem_cons_of_mem _ member, found⟩

theorem ShedsIn.keepsFirst (sheds : ShedsIn u parent before nodes others) {choice : Tag → Bool}
    (passes : u.Passes parent choice) (fresh : ∀ t ∈ before, choice t = false) : KeepsFirst u choice nodes others := by
  induction nodes generalizing before others with
  | nil =>
    cases sheds
    exact .inl ⟨rfl, rfl⟩
  | cons first rest ih =>
    cases sheds with
    | @keep _ _ _ m _ _ here later =>
      cases chosen : choice first.toTag with
      | true =>
        exact .inr ⟨first, List.mem_cons_self, m, List.find?_cons_of_pos chosen,
          List.find?_cons_of_pos (by rw [here.toTag_eq]; exact chosen), here⟩
      | false =>
        have kept := (ih later (List.forall_mem_cons.mpr ⟨chosen, fresh⟩)).cons chosen
        unfold KeepsFirst at kept ⊢
        simpa only [List.find?_cons, here.toTag_eq, chosen] using kept
    | drop comment admits later =>
      have passed : choice first.toTag = false := by
        by_contra chosen
        obtain ⟨t, earlier, taken⟩ := passes first before comment admits (by simpa using chosen)
        simp [fresh t earlier] at taken
      exact (ih later (List.forall_mem_cons.mpr ⟨passed, fresh⟩)).cons passed

/-- No comment is the first node that fills a field. -/
theorem ShedsIn.keepsFirst_fills (sheds : ShedsIn u parent [] nodes others) (field : String) :
    KeepsFirst u (·.fills field) nodes others := sheds.keepsFirst (u.passes_fills parent field) (by simp)

/-- The first child stays where no comment may come first. -/
theorem ShedsIn.head? (sheds : ShedsIn u parent [] nodes others) (first : ¬ parent.Admits []) :
    others.head?.map (·.toTag) = nodes.head?.map (·.toTag) := by
  cases sheds with
  | nil => rfl
  | keep here _ => simp [here.toTag_eq]
  | drop _ admits _ => exact absurd admits first

end Node

/-! ### Comments between segments -/

namespace Bytes

variable {l : Bytes} {a b low high : Nat} {x : UInt8}

theorem mem_trim (member : x ∈ l) (dark : isBlank x = false) : x ∈ l.trim := by
  have kept : ∀ {l : Bytes}, x ∈ l → x ∈ l.dropWhile isBlank := by
    intro l member
    rw [← List.takeWhile_append_dropWhile (p := isBlank) (l := l)] at member
    rcases List.mem_append.mp member with early | late
    · have blank := List.mem_takeWhile_imp early
      simp [dark] at blank
    · exact late
  simp only [trim, List.mem_reverse]
  exact kept (List.mem_reverse.mpr (kept member))

theorem mem_slice_iff : x ∈ l.slice a b ↔ ∃ i, a ≤ i ∧ i < b ∧ l[i]? = some x := by
  simp only [slice, List.mem_iff_getElem?, List.getElem?_take, List.getElem?_drop]
  constructor
  · rintro ⟨i, found⟩
    split at found
    · exact ⟨a + i, by omega, by omega, found⟩
    · cases found
  · rintro ⟨i, above, below, found⟩
    refine ⟨i - a, ?_⟩
    rw [if_pos (by omega), Nat.add_sub_cancel' above]
    exact found

/-- Bytes with a slash among them do not separate segments. -/
theorem isSeparator_of_slash (slash : (l.slice a b).head? = some Bytes.slash) (above : low ≤ a) (below : b ≤ high) :
    l.isSeparator low high = false := by
  obtain ⟨i, lower, upper, found⟩ := mem_slice_iff.mp (List.mem_of_head? slash)
  have inside : Bytes.slash ∈ l.slice low high := mem_slice_iff.mpr ⟨i, by omega, by omega, found⟩
  have kept := mem_trim inside rfl
  by_contra separates
  simp only [isSeparator, Bool.not_eq_false, beq_iff_eq] at separates
  rw [separates] at kept
  revert kept
  decide

end Bytes

namespace Node

variable {u : SourceUnit} {n m : Node} {parent : Tag} {before : List Tag} {nodes others : List Node}

/-- The nodes of runs without their children. -/
def tagRuns (runs : List (List Node)) : List (List Tag) := runs.map fun run => run.map (·.toTag)

theorem tagRuns_append (first rest : List (List Node)) : tagRuns (first ++ rest) = tagRuns first ++ tagRuns rest :=
  List.map_append

theorem tagRuns_closeRun {run other : List Node} (same : other.map (·.toTag) = run.map (·.toTag)) :
    tagRuns (closeRun other) = tagRuns (closeRun run) := by
  have empty : other.isEmpty = run.isEmpty := by
    simpa only [List.isEmpty_map] using congrArg List.isEmpty same
  unfold closeRun
  rw [empty]
  split
  · rfl
  · simp only [tagRuns, List.map_cons, List.map_nil, same]

/-- A run ends where something that is no separator comes before every later node. -/
theorem tokenRunsIn_apart {source : Bytes} {last : Nat} (next : Nat) (run : List Node)
    (apart : ∀ n ∈ nodes, source.isSeparator last n.start = false) :
    tokenRunsIn source last run nodes = closeRun run ++ tokenRunsIn source next [] nodes := by
  induction nodes with
  | nil => simp [tokenRunsIn, closeRun]
  | cons n rest ih =>
    obtain ⟨here, later⟩ := List.forall_mem_cons.mp apart
    simp only [tokenRunsIn]
    split
    · exact ih later
    · cases run with
      | nil => simp [closeRun]
      | cons first more =>
        simp only [here, List.isEmpty_cons, List.isEmpty_nil, Bool.or_false, Bool.true_or, Bool.false_eq_true, if_false,
          if_true]
        split
        · simp [closeRun]
        · split <;> simp [closeRun]

/-- Runs do not change if the nested token trees among the nodes are read as before. -/
theorem ShedsIn.tokenRunsIn_eq {low high last : Nat} (run other : List Node) (sheds : ShedsIn u parent before nodes others)
    (ordered : orderedIn low high nodes = true) (behind : last ≤ low) (same : other.map (·.toTag) = run.map (·.toTag))
    (nested : ∀ n ∈ nodes, ∀ m, n.Sheds u m → tagRuns (m.tokenRuns u.bytes) = tagRuns (n.tokenRuns u.bytes)) :
    tagRuns (tokenRunsIn u.bytes last other others) = tagRuns (tokenRunsIn u.bytes last run nodes) := by
  induction nodes generalizing before others low last run other with
  | nil =>
    cases sheds
    exact tagRuns_closeRun same
  | cons n rest ih =>
    obtain ⟨above, -, fine, after⟩ := orderedIn_cons.mp ordered
    obtain ⟨here, below⟩ := List.forall_mem_cons.mp nested
    have forward := start_le_stop fine
    cases sheds with
    | @keep _ _ _ m _ others kept later =>
      have tag := kept.toTag_eq
      have empty : other.isEmpty = run.isEmpty := by
        simpa only [List.isEmpty_map] using congrArg List.isEmpty same
      have closed := tagRuns_closeRun same
      have none := ih [] [] later after (Nat.le_refl _) rfl below
      simp only [tokenRunsIn, tag, empty]
      split
      · exact ih run other later after (by omega) same below
      · split
        · simp only [tagRuns_append, closed, here m kept, none]
        · split
          · split
            · exact ih _ _ later after (Nat.le_refl _) (by simp [same, tag]) below
            · simp only [tagRuns_append, closed]
              rw [ih [n] [m] later after (Nat.le_refl _) (by simp [tag]) below]
          · simp only [tagRuns_append, closed, none]
    | drop comment admits later =>
      -- Without the comment the run stays open, but the text of the comment parts it from what follows.
      have apart : ∀ m ∈ others, u.bytes.isSeparator last m.start = false := by
        intro m member
        obtain ⟨k, listed, tag⟩ := later.tag_mem member
        have start : n.stop ≤ m.start := by
          rw [tag]
          exact (ordered_of_mem after listed).1
        exact Bytes.isSeparator_of_slash comment.text (by omega) start
      have kinds : n.kind ≠ "token_tree" ∧ n.pathShape ≠ .segment := by
        have := comment.kind
        simp only [Tag.isComment, Bool.or_eq_true, beq_iff_eq] at this
        rcases this with kind | kind
        · simp [Tag.pathShape, kind]
        · simp [Tag.pathShape, kind]
      simp only [tokenRunsIn]
      split
      · exact ih run other later after (by omega) same below
      · rw [tokenRunsIn_apart n.stop other apart]
        simp only [kinds.1, kinds.2, beq_iff_eq, if_false, tagRuns_append, tagRuns_closeRun same]
        rw [ih [] [] later after (Nat.le_refl _) rfl below]

theorem Sheds.tokenRuns_eq (sheds : n.Sheds u m) (ordered : n.ordered = true) :
    tagRuns (m.tokenRuns u.bytes) = tagRuns (n.tokenRuns u.bytes) := by
  induction n using Node.induction generalizing m with
  | node tag children ih =>
    obtain ⟨-, below⟩ := ordered_iff.mp ordered
    cases sheds with
    | node parts =>
      apply parts.tokenRunsIn_eq [] [] below (Nat.le_refl _) rfl
      intro n member m shed
      exact ih n member shed (ordered_of_mem below member).2.2

end Node

/-! ### Reading over comments -/

/-- The positions at which an inert node is read without a trace. -/
def Position.quiet : Position → Bool
  | .item | .pattern | .parameter => true
  | _ => false

/-- A choice of positions that puts comments only where they are read without a trace. -/
def Overlooks (positionOf : Tag → Option Position) : Prop :=
  ∀ t : Tag, t.isComment = true → t.field = none → ∀ position, positionOf t = some position → position.quiet = true

section Positions

variable {t : Tag} {position : Position}

theorem ifNamed_eq_some {wanted : Option Position} (found : t.ifNamed wanted = some position) : wanted = some position := by
  unfold Tag.ifNamed at found
  split at found
  · exact found
  · cases found

theorem childPosition_quiet {parent : String} (found : childPosition parent t = some position) : position.quiet = true := by
  have wanted := ifNamed_eq_some found
  split_ifs at wanted <;> cases wanted <;> rfl

theorem patternPosition_quiet (found : patternPosition t = some position) : position.quiet = true := by
  have wanted := ifNamed_eq_some found
  split_ifs at wanted <;> cases wanted <;> rfl

theorem parameterPosition_quiet {parent : String} (found : parameterPosition parent t = some position) :
    position.quiet = true := by
  have wanted := ifNamed_eq_some found
  split_ifs at wanted <;> cases wanted <;> rfl

theorem overlooks_named (quiet : position.quiet = true) : Overlooks (namedPosition position) := by
  intro t _ _ found wanted
  cases ifNamed_eq_some wanted
  exact quiet

theorem overlooks_owner : Overlooks ownerPosition := by
  intro t _ field position found
  have wanted := ifNamed_eq_some found
  simp only [Tag.fills, field] at wanted
  cases wanted
  rfl

theorem overlooks_call : Overlooks callPosition := by
  intro t comment field position found
  have wanted := ifNamed_eq_some found
  have kind : t.kind ≠ "token_tree" := by
    rintro same
    simp [Tag.isComment, same] at comment
  simp [Tag.fills, field, kind] at wanted

theorem overlooks_definition : Overlooks definitionPosition := by
  intro t comment field position found
  have wanted := ifNamed_eq_some found
  have kind : t.kind ≠ "macro_rule" := by
    rintro same
    simp [Tag.isComment, same] at comment
  simp [kind] at wanted

end Positions

namespace SourceUnit

variable {u : SourceUnit} {tree n m c : Node} {tag parent : Tag} {before : List Tag} {nodes others : List Node}

theorem visitIn_silent {positionOf : Tag → Option Position} (s : Scope)
    (silent : ∀ n ∈ nodes, ∀ position, positionOf n.toTag = some position → u.visit position n s = .ok s) :
    u.visitIn positionOf .all nodes s = .ok s := by
  induction nodes with
  | nil => rfl
  | cons n rest ih =>
    obtain ⟨here, later⟩ := List.forall_mem_cons.mp silent
    rw [visitIn]
    cases found : positionOf n.toTag with
    | none => exact ih later
    | some position =>
      simp only [here position found, ok_bind]
      exact ih later

theorem visit_inert (inert : n.Inert) {position : Position} (quiet : position.quiet = true) (s : Scope) :
    u.visit position n s = .ok s := by
  induction inert generalizing position with
  | @node tag children rule below ih =>
    have parts : ∀ positionOf : Tag → Option Position,
        (∀ t position, positionOf t = some position → position.quiet = true) → u.visitIn positionOf .all children s = .ok s := by
      intro positionOf allowed
      apply visitIn_silent
      intro n member position found
      exact ih n member (allowed _ _ found)
    cases position with
    | item =>
      simp only [visit]
      rcases rule with rule | rule <;> simp only [rule]
      exact parts _ fun _ _ => childPosition_quiet
    | pattern =>
      simp only [visit]
      rcases rule with rule | rule <;> simp only [rule]
      exact parts _ fun _ _ => patternPosition_quiet
    | parameter =>
      have kind : tag.kind ≠ "type_identifier" := by
        intro same
        rw [same] at rule
        revert rule
        decide
      simp only [visit, beq_iff_eq, kind, if_false]
      split
      · rfl
      · exact parts _ fun _ _ => parameterPosition_quiet
    | _ => cases quiet

/-! ### Texts and paths -/

theorem texts_tags {run other : List Node} (same : other.map (·.toTag) = run.map (·.toTag)) :
    (other.mapM fun n => (u.withTree tree).textOf n.toTag) = run.mapM fun n => u.textOf n.toTag := by
  have tags : ∀ nodes : List Node, (nodes.mapM fun n => u.textOf n.toTag) = (nodes.map (·.toTag)).mapM u.textOf := by
    intro nodes
    rw [List.mapM_map]
    rfl
  rw [tags run, ← same, ← tags other]
  rfl

theorem recordRuns_tags {runs new : List (List Node)} (same : Node.tagRuns new = Node.tagRuns runs) (s : Scope) :
    (u.withTree tree).recordRuns new s = u.recordRuns runs s := by
  induction runs generalizing new s with
  | nil =>
    rw [List.map_eq_nil_iff.mp same]
    rfl
  | cons run rest ih =>
    obtain ⟨other, later, rfl, here, below⟩ := List.map_eq_cons_iff.mp same
    simp only [recordRuns, texts_tags here, fun s => ih below s]

theorem nameOf_sheds (sheds : Node.ShedsIn u parent [] nodes others) (field : String) :
    (u.withTree tree).nameOf (others.find? (·.fills field)) = u.nameOf (nodes.find? (·.fills field)) := by
  rcases sheds.keepsFirst_fills field with ⟨found, left⟩ | ⟨n, -, m, found, left, here⟩
  · rw [found, left]
    rfl
  · rw [found, left, nameOf, nameOf, here.toTag_eq]
    rfl

theorem refuseLeadingSeparator_sheds (sheds : Node.ShedsIn u tag [] nodes others) (first : ¬ tag.Admits []) :
    (u.withTree tree).refuseLeadingSeparator tag others = u.refuseLeadingSeparator tag nodes := by
  have head : others.head?.any (·.kind == "::") = nodes.head?.any (·.kind == "::") := by
    have same := congrArg (fun t : Option Tag => t.any (·.kind == "::")) (sheds.head? first)
    simpa only [Option.any_map] using same
  simp only [refuseLeadingSeparator, head]
  rfl

theorem extendSegments_sheds (sheds : Node.ShedsIn u parent [] nodes others) (segments : Option (List String)) :
    (u.withTree tree).extendSegments others segments = u.extendSegments nodes segments := by
  cases segments with
  | none => rfl
  | some segments =>
    simp only [extendSegments]
    rcases sheds.keepsFirst_fills "name" with ⟨found, left⟩ | ⟨n, -, m, found, left, here⟩
    · simp only [found, left]
    · simp only [found, left, here.toTag_eq]
      rfl

theorem segmentsAt_eq (u : SourceUnit) (field : String) (nodes : List Node) :
    u.segmentsAt field nodes = (nodes.find? (·.fills field)).elim (.ok none) fun n => some <$> u.segments n := by
  induction nodes with
  | nil => rfl
  | cons n rest ih =>
    rw [segmentsAt, List.find?_cons]
    cases n.fills field with
    | true => rfl
    | false => exact ih

theorem segments_sheds (sheds : n.Sheds u m) : (u.withTree tree).segments m = u.segments n := by
  induction n using Node.induction generalizing m with
  | node tag children ih =>
    cases sheds with
    | @node _ _ others parts =>
      have inner : ∀ field : String, (u.withTree tree).segmentsAt field others = u.segmentsAt field children := by
        intro field
        rw [segmentsAt_eq, segmentsAt_eq]
        rcases parts.keepsFirst_fills field with ⟨found, left⟩ | ⟨n, member, m, found, left, here⟩
        · rw [found, left]
          rfl
        · rw [found, left, Option.elim_some, Option.elim_some, ih n member here]
      simp only [segments]
      split
      · rfl
      · rename_i shape
        have first : ¬ tag.Admits [] := fun admits => admits.path (.inr shape) rfl
        simp only [inner, extendSegments_sheds parts, refuseLeadingSeparator_sheds parts first]
      · simp only [inner]
      · rfl

theorem recordPath_sheds (sheds : n.Sheds u m) (s : Scope) :
    (u.withTree tree).recordPath m s = u.recordPath n s := by
  simp only [recordPath, segments_sheds sheds]

theorem usePath_sheds (sheds : n.Sheds u m) : (u.withTree tree).usePath m = u.usePath n := by
  simp only [usePath, segments_sheds sheds, sheds.toTag_eq]
  rfl

theorem extendBase_sheds {p : Tag → Bool} (base : ModulePath) (sheds : Node.ShedsIn u tag [] nodes others)
    (first : ¬ tag.Admits []) (passes : u.Passes tag p) :
    (u.withTree tree).extendBase base tag others (others.find? fun n => p n.toTag) =
      u.extendBase base tag nodes (nodes.find? fun n => p n.toTag) := by
  rcases sheds.keepsFirst passes (by simp) with ⟨found, left⟩ | ⟨n, -, m, found, left, here⟩
  · simp only [found, left, extendBase, refuseLeadingSeparator_sheds sheds first]
  · simp only [found, left, extendBase, usePath_sheds here]

/-! ### Scopes -/

/-- Whether the two nodes are read alike, wherever they stand. -/
structure ReadsAs (u : SourceUnit) (tree n m : Node) : Prop where
  visit : ∀ position s, (u.withTree tree).visit position m s = u.visit position n s
  imports : ∀ base s, (u.withTree tree).imports base m s = u.imports base n s

/-- Reading the first sibling of a choice. -/
theorem visitIn_first (u : SourceUnit) (p : Tag → Bool) (position : Position) (nodes : List Node) (s : Scope) :
    u.visitIn (fun t => if p t then some position else none) .first nodes s =
      (nodes.find? fun n => p n.toTag).elim (.ok s) fun n => u.visit position n s := by
  induction nodes with
  | nil => rfl
  | cons n rest ih =>
    rw [visitIn, List.find?_cons]
    cases p n.toTag with
    | true => exact bind_pure _
    | false => exact ih

theorem importsIn_first (u : SourceUnit) (base : ModulePath) (p : Tag → Bool) (nodes : List Node) (s : Scope) :
    u.importsIn base p .first nodes s =
      (nodes.find? fun n => p n.toTag).elim (.ok (s, [])) fun n => u.importsAt base n s := by
  induction nodes with
  | nil => rfl
  | cons n rest ih =>
    rw [importsIn_cons, List.find?_cons]
    cases p n.toTag with
    | true => exact bind_pure _
    | false => exact ih

theorem visitIn_first_sheds {p : Tag → Bool} (sheds : Node.ShedsIn u parent [] nodes others)
    (passes : u.Passes parent p) (alike : ∀ n ∈ nodes, ∀ m, n.Sheds u m → u.ReadsAs tree n m) (position : Position) (s : Scope) :
    (u.withTree tree).visitIn (fun t => if p t then some position else none) .first others s =
      u.visitIn (fun t => if p t then some position else none) .first nodes s := by
  rw [visitIn_first, visitIn_first]
  rcases sheds.keepsFirst passes (by simp) with ⟨found, left⟩ | ⟨n, member, m, found, left, here⟩
  · rw [found, left]
    rfl
  · rw [found, left]
    exact (alike n member m here).visit position s

theorem visitIn_all_sheds {positionOf : Tag → Option Position} (overlooks : Overlooks positionOf)
    (sheds : Node.ShedsIn u parent before nodes others)
    (alike : ∀ n ∈ nodes, ∀ m, n.Sheds u m → u.ReadsAs tree n m) (s : Scope) :
    (u.withTree tree).visitIn positionOf .all others s = u.visitIn positionOf .all nodes s := by
  induction nodes generalizing before others s with
  | nil =>
    cases sheds
    rfl
  | cons n rest ih =>
    obtain ⟨first, below⟩ := List.forall_mem_cons.mp alike
    cases sheds with
    | @keep _ _ _ m _ _ here later =>
      rw [visitIn, visitIn, here.toTag_eq]
      cases positionOf n.toTag with
      | none => exact ih later below s
      | some position => simp only [(first m here).visit, ih later below]
    | drop comment admits later =>
      rw [visitIn, ih later below]
      cases found : positionOf n.toTag with
      | none => rfl
      | some position =>
        have quiet := overlooks n.toTag comment.kind comment.field position found
        simp only [visit_inert comment.inert quiet, ok_bind]

theorem importsAt_sheds (here : n.Sheds u m) (alike : u.ReadsAs tree n m) (base : ModulePath) (s : Scope) :
    (u.withTree tree).importsAt base m s = u.importsAt base n s := by
  simp only [importsAt, importLeaf, here.toTag_eq, alike.visit, alike.imports, usePath_sheds here]

/-- A use list stays whole. -/
theorem importsIn_all_sheds (base : ModulePath) (p : Tag → Bool) (list : UseShape.ofKind parent.kind = .list)
    (sheds : Node.ShedsIn u parent before nodes others)
    (alike : ∀ n ∈ nodes, ∀ m, n.Sheds u m → u.ReadsAs tree n m) (s : Scope) :
    (u.withTree tree).importsIn base p .all others s = u.importsIn base p .all nodes s := by
  induction nodes generalizing before others s with
  | nil =>
    cases sheds
    rfl
  | cons n rest ih =>
    obtain ⟨first, below⟩ := List.forall_mem_cons.mp alike
    cases sheds with
    | @keep _ _ _ m _ _ here later =>
      rw [importsIn_cons, importsIn_cons, here.toTag_eq]
      simp only [importsAt_sheds here (first m here), ih later below]
    | drop _ admits _ => exact absurd list admits.list

theorem importsIn_first_sheds (base : ModulePath) (field : String) (sheds : Node.ShedsIn u parent [] nodes others)
    (alike : ∀ n ∈ nodes, ∀ m, n.Sheds u m → u.ReadsAs tree n m) (s : Scope) :
    (u.withTree tree).importsIn base (·.fills field) .first others s = u.importsIn base (·.fills field) .first nodes s := by
  rw [importsIn_first, importsIn_first]
  rcases sheds.keepsFirst_fills field with ⟨found, left⟩ | ⟨n, member, m, found, left, here⟩
  · rw [found, left]
    rfl
  · rw [found, left]
    exact importsAt_sheds here (alike n member m here) base s

theorem any_sheds (sheds : Node.ShedsIn u parent [] nodes others) (field : String) :
    others.any (·.fills field) = nodes.any (·.fills field) := by
  rw [← List.isSome_find?, ← List.isSome_find?]
  rcases sheds.keepsFirst_fills field with ⟨found, left⟩ | ⟨n, -, m, found, left, -⟩
  · rw [found, left]
  · rw [found, left]
    rfl

section Parts

variable {children : List Node}

theorem visit_sheds (parts : Node.ShedsIn u tag [] children others) (ordered : Node.ordered ⟨tag, children⟩ = true)
    (alike : ∀ n ∈ children, ∀ m, n.Sheds u m → u.ReadsAs tree n m) (position : Position) (s : Scope) :
    (u.withTree tree).visit position ⟨tag, others⟩ s = u.visit position ⟨tag, children⟩ s := by
  have whole : Node.Sheds u ⟨tag, children⟩ ⟨tag, others⟩ := .node parts
  have all : ∀ {positionOf : Tag → Option Position}, Overlooks positionOf → ∀ s : Scope,
      (u.withTree tree).visitIn positionOf .all others s = u.visitIn positionOf .all children s :=
    fun overlooks s => visitIn_all_sheds overlooks parts alike s
  have inside : ∀ s : Scope, (u.withTree tree).visitIn (childPosition tag.kind) .all others s =
      u.visitIn (childPosition tag.kind) .all children s := all fun _ _ _ _ => childPosition_quiet
  have first : ∀ (field : String) (position : Position) (s : Scope),
      (u.withTree tree).visitIn (fieldPosition field position) .first others s =
        u.visitIn (fieldPosition field position) .first children s := by
    intro field position s
    exact visitIn_first_sheds parts (u.passes_fills tag field) alike position s
  have name : (u.withTree tree).nameOf (others.find? (·.fills "name")) = u.nameOf (children.find? (·.fills "name")) :=
    nameOf_sheds parts "name"
  cases position with
  | item =>
    simp only [visit]
    cases Rule.ofKind tag.kind with
    | skip => rfl
    | name => rfl
    | path => simp only [first, recordPath_sheds whole]
    | call => exact all overlooks_call s
    | definition => exact all overlooks_definition _
    | module => simp only [name, first]
    | function => simp only [name, all overlooks_owner]
    | implementation => simp only [all overlooks_owner]
    | block => simp only [inside]
    | type =>
      simp only [inside]
      rcases parts.keepsFirst_fills "name" with ⟨found, left⟩ | ⟨n, -, m, found, left, here⟩
      · simp only [found, left]
      · simp only [found, left, here.toTag_eq]
        rfl
    | trait => simp only [name, all overlooks_owner]
    | owner => rfl
    | use => simp only [any_sheds parts, importsIn_first_sheds _ "argument" parts alike]
    | closure => exact all (overlooks_named rfl) s
    | pattern => exact all (fun _ _ _ _ => patternPosition_quiet) s
    | plain => exact inside s
  | body => exact inside s
  | pattern =>
    simp only [visit]
    cases Rule.ofKind tag.kind with
    | skip => rfl
    | name => rfl
    | path => simp only [first, recordPath_sheds whole]
    | call => exact all overlooks_call s
    | _ => exact all (fun _ _ _ _ => patternPosition_quiet) s
  | path =>
    simp only [visit]
    split
    · rfl
    · exact first _ _ s
    · simp only [first]
    · exact inside s
  | parameters => exact all (overlooks_named rfl) s
  | parameter =>
    simp only [visit]
    split
    · rfl
    · split
      · rfl
      · exact all (fun _ _ _ _ => parameterPosition_quiet) s
  | macroRule => exact first _ _ s
  | tokens => exact recordRuns_tags (whole.tokenRuns_eq ordered) s

theorem imports_sheds (parts : Node.ShedsIn u tag [] children others)
    (alike : ∀ n ∈ children, ∀ m, n.Sheds u m → u.ReadsAs tree n m) (base : ModulePath) (s : Scope) :
    (u.withTree tree).imports base ⟨tag, others⟩ s = u.imports base ⟨tag, children⟩ s := by
  have written := u.passes_fills tag "path"
  have first : (u.withTree tree).visitIn (fieldPosition "path" .path) .first others s =
      u.visitIn (fieldPosition "path" .path) .first children s := visitIn_first_sheds parts written alike .path s
  simp only [imports]
  cases shape : UseShape.ofKind tag.kind with
  | list => exact importsIn_all_sheds base _ shape parts alike s
  | scopedList =>
    have head : ¬ tag.Admits [] := fun admits => admits.path (.inl shape) rfl
    simp only [first, extendBase_sheds base parts head written, importsIn_first_sheds _ "list" parts alike]
  | glob =>
    have head : ¬ tag.Admits [] := by
      intro admits
      obtain ⟨t, earlier, -⟩ := admits.glob shape
      cases earlier
    have behind : u.Passes tag (·.named) := fun _ _ _ admits _ => admits.glob shape
    have named : (u.withTree tree).visitIn (namedPosition .path) .first others s =
        u.visitIn (namedPosition .path) .first children s := visitIn_first_sheds parts behind alike .path s
    simp only [named, extendBase_sheds base parts head behind]
  | renamed =>
    rcases parts.keepsFirst_fills "path" with ⟨found, left⟩ | ⟨n, -, m, found, left, here⟩
    · simp only [found, left]
    · simp only [found, left, first, usePath_sheds here, nameOf_sheds parts]
  | leaf => rfl

end Parts

/-- A tree without some of its comments is read as before. -/
theorem reads_sheds (sheds : n.Sheds u m) (ordered : n.ordered = true) : u.ReadsAs tree n m := by
  induction n using Node.induction generalizing m with
  | node tag children ih =>
    cases sheds with
    | node parts =>
      have alike : ∀ n ∈ children, ∀ m, n.Sheds u m → u.ReadsAs tree n m :=
        fun n member m here => ih n member here (Node.ordered_of_mem (Node.ordered_iff.mp ordered).2 member).2.2
      exact ⟨visit_sheds parts ordered alike, imports_sheds parts alike⟩

/-! ### Comments in use trees -/

/-- A comment is no path. -/
theorem usePath_comment (comment : c.isComment = true) : ∃ fault, u.usePath c = .error fault := by
  have shape : c.pathShape = .other := by
    simp only [Tag.isComment, Bool.or_eq_true, beq_iff_eq] at comment
    rcases comment with kind | kind <;> simp [Tag.pathShape, kind]
  have segments : u.segments c = .ok none := by
    obtain ⟨tag, children⟩ := c
    simp only [SourceUnit.segments, shape]
  simp only [usePath, segments, ok_bind]
  cases u.textOf c.toTag with
  | error fault => exact ⟨fault, rfl⟩
  | ok text => exact ⟨_, rfl⟩

theorem importsAt_comment (comment : c.isComment = true) (base : ModulePath) (s : Scope) :
    ∃ fault, u.importsAt base c s = .error fault := by
  have leaf : (UseShape.ofKind c.kind == .leaf) = true := by
    simp only [Tag.isComment, Bool.or_eq_true, beq_iff_eq] at comment
    rcases comment with kind | kind <;> rw [kind] <;> rfl
  obtain ⟨fault, refused⟩ := usePath_comment (u := u) comment
  simp only [importsAt, leaf, if_true, importLeaf, refused]
  cases u.visit .path c s with
  | error earlier => exact ⟨earlier, rfl⟩
  | ok t => exact ⟨fault, rfl⟩

theorem importsIn_comment (comment : c.isComment = true) (member : c ∈ nodes) {p : Tag → Bool} (picked : p c.toTag = true)
    (base : ModulePath) (s : Scope) : ∃ fault, u.importsIn base p .all nodes s = .error fault := by
  induction nodes generalizing s with
  | nil => cases member
  | cons n rest ih =>
    rw [importsIn_cons]
    rcases List.mem_cons.mp member with rfl | later
    · obtain ⟨fault, refused⟩ := importsAt_comment (u := u) comment base s
      simp [picked, refused]
    · split
      · exact ih later s
      · cases u.importsAt base n s with
        | error fault => exact ⟨fault, rfl⟩
        | ok found =>
          obtain ⟨fault, refused⟩ := ih later found.1
          simp [refused]

/-- A comment that a use list or a glob takes for a path is refused. -/
theorem imports_comment (comment : c.isComment = true)
    (part : UseShape.ofKind n.kind = .list ∧ c ∈ n.children ∧ c.named = true ∨
      UseShape.ofKind n.kind = .glob ∧ n.firstNamed? = some c) (base : ModulePath) (s : Scope) :
    ∃ fault, u.imports base n s = .error fault := by
  obtain ⟨tag, children⟩ := n
  rcases part with ⟨shape, member, named⟩ | ⟨shape, first⟩
  · simp only [imports, shape]
    exact importsIn_comment comment member named base s
  · have found : children.find? (·.named) = some c := first
    obtain ⟨fault, refused⟩ := usePath_comment (u := u) comment
    simp only [imports, shape, found, extendBase, refused]
    cases u.visitIn (namedPosition .path) .first children s with
    | error earlier => exact ⟨earlier, rfl⟩
    | ok t => exact ⟨fault, rfl⟩

/-- Comments do not change the scope tree, its fault or its log, unless a use list or a glob takes one for a path
or a path starts with one. A use list with a comment among its trees is refused. -/
theorem scopeTree_sheds (u : SourceUnit) :
    (∀ tree, u.root.ordered = true → u.root.Sheds u tree → (u.withTree tree).scopeTree = u.scopeTree) ∧
      ∀ (n c : Node) (base : ModulePath) (s : Scope), c.isComment = true →
        (UseShape.ofKind n.kind = .list ∧ c ∈ n.children ∧ c.named = true ∨
          UseShape.ofKind n.kind = .glob ∧ n.firstNamed? = some c) →
        ∃ fault, u.imports base n s = .error fault := by
  constructor
  · intro tree ordered sheds
    have same : (u.withTree tree).scope = u.scope := (reads_sheds sheds ordered).visit .body .empty
    simp only [scopeTree, same]
    rfl
  · intro n c base s comment part
    exact imports_comment comment part base s

/-- A block comment between two offsets, if it is wanted. -/
def remark (wanted : Bool) (start stop : Nat) : List Node :=
  if wanted then [⟨{ kind := "block_comment", named := true, start := start, stop := stop }, []⟩] else []

/-- The tree of `use a /*g*/ ::*; fn f</*t*/T>() { m!(a /*c*/ ::b) }`, with or without the comments. -/
def remarkedTree (remarks : Bool) : Node :=
  ⟨{ kind := "source_file", named := true, stop := 52 }, [
    ⟨{ kind := "use_declaration", named := true, start := 0, stop := 16 }, [
      ⟨{ kind := "use", start := 0, stop := 3 }, []⟩,
      ⟨{ kind := "use_wildcard", named := true, start := 4, stop := 15, field := some "argument" },
        ⟨{ kind := "identifier", named := true, start := 4, stop := 5 }, []⟩ :: remark remarks 6 11 ++ [
        ⟨{ kind := "::", start := 12, stop := 14 }, []⟩,
        ⟨{ kind := "*", start := 14, stop := 15 }, []⟩]⟩,
      ⟨{ kind := ";", start := 15, stop := 16 }, []⟩]⟩,
    ⟨{ kind := "function_item", named := true, start := 17, stop := 51 }, [
      ⟨{ kind := "identifier", named := true, start := 20, stop := 21, field := some "name" }, []⟩,
      ⟨{ kind := "type_parameters", named := true, start := 21, stop := 29, field := some "type_parameters" },
        ⟨{ kind := "<", start := 21, stop := 22 }, []⟩ :: remark remarks 22 27 ++ [
        ⟨{ kind := "type_parameter", named := true, start := 27, stop := 28 }, [
          ⟨{ kind := "type_identifier", named := true, start := 27, stop := 28, field := some "name" }, []⟩]⟩,
        ⟨{ kind := ">", start := 28, stop := 29 }, []⟩]⟩,
      ⟨{ kind := "block", named := true, start := 32, stop := 51, field := some "body" }, [
        ⟨{ kind := "macro_invocation", named := true, start := 34, stop := 49 }, [
          ⟨{ kind := "identifier", named := true, start := 34, stop := 35, field := some "macro" }, []⟩,
          ⟨{ kind := "token_tree", named := true, start := 36, stop := 49 },
            ⟨{ kind := "identifier", named := true, start := 37, stop := 38 }, []⟩ :: remark remarks 39 44 ++ [
            ⟨{ kind := "::", start := 45, stop := 47 }, []⟩,
            ⟨{ kind := "identifier", named := true, start := 47, stop := 48 }, []⟩]⟩]⟩]⟩]⟩]⟩

def remarked : SourceUnit where
  path := ⟨0, ["lib.rs"]⟩
  bytes := [117, 115, 101, 32, 97, 32, 47, 42, 103, 42, 47, 32, 58, 58, 42, 59, 32, 102, 110, 32, 102, 60, 47, 42, 116, 42,
    47, 84, 62, 40, 41, 32, 123, 32, 109, 33, 40, 97, 32, 47, 42, 99, 42, 47, 32, 58, 58, 98, 41, 32, 125, 10]
  root := remarkedTree true

theorem scopeTree_sheds_remarked : remarked.root.ordered = true ∧ remarked.root.Sheds remarked (remarkedTree false) ∧
    (remarked.withTree (remarkedTree false)).scopeTree = remarked.scopeTree ∧
    ∃ fault, remarked.imports .empty ⟨{ kind := "use_list", named := true }, remark true 6 11⟩ .empty = .error fault := by
  have ordered : remarked.root.ordered = true := by decide
  have bare : ∀ start stop, Node.Inert ⟨{ kind := "block_comment", named := true, start := start, stop := stop }, []⟩ :=
    fun start stop => .node (.inl rfl) (by simp)
  have sheds : remarked.root.Sheds remarked (remarkedTree false) := by
    refine .node (.keep (.node (.keep (.refl _) (.keep ?glob .refl))) (.keep (.node (.keep (.refl _)
      (.keep ?parameters (.keep (.node (.keep (.node (.keep (.refl _) (.keep ?tokens .nil))) .nil)) .nil)))) .nil))
    case glob => exact .node (.keep (.refl _) (.drop ⟨rfl, rfl, rfl, bare 6 11⟩ ⟨by decide, by decide, by decide⟩ .refl))
    case parameters =>
      exact .node (.keep (.refl _) (.drop ⟨rfl, rfl, rfl, bare 22 27⟩ ⟨by decide, by decide, by decide⟩ .refl))
    case tokens => exact .node (.keep (.refl _) (.drop ⟨rfl, rfl, rfl, bare 39 44⟩ ⟨by decide, by decide, by decide⟩ .refl))
  exact ⟨ordered, sheds, (scopeTree_sheds remarked).1 _ ordered sheds,
    (scopeTree_sheds remarked).2 _ _ .empty .empty rfl (.inl ⟨rfl, List.mem_singleton.mpr rfl, rfl⟩)⟩

end SourceUnit

end CrateFold
