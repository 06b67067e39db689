import CrateFold.Proofs.PathNodes
import Mathlib.Data.List.SplitBy

/-!
Paths in the input of macros. Named siblings are `Joined` if both are segments and `::` stands between them, with white
space at most; `Node.Cut` cuts siblings into the longest blocks of joined ones, and `Node.Runs` lists the blocks of
segments in a token tree and in the token trees below it. These are the runs that the walk reads (`runs_iff`), and a run
of several segments is read like the same path where an expression stands (`tokens_read_as_paths`).
-/
namespace CrateFold

namespace Bytes

variable {l : Bytes}

theorem exists_trim (l : Bytes) : ∃ before after : Bytes, (∀ b ∈ before, isBlank b = true) ∧
    (∀ b ∈ after, isBlank b = true) ∧ l = before ++ l.trim ++ after := by
  let rest := l.dropWhile isBlank
  refine ⟨l.takeWhile isBlank, (rest.reverse.takeWhile isBlank).reverse, fun b => List.mem_takeWhile_imp, ?_, ?_⟩
  · intro b member
    exact List.mem_takeWhile_imp (List.mem_reverse.mp member)
  · have back : rest = l.trim ++ (rest.reverse.takeWhile isBlank).reverse := by
      rw [trim, ← List.reverse_append, List.takeWhile_append_dropWhile, List.reverse_reverse]
    rw [List.append_assoc, ← back, List.takeWhile_append_dropWhile]

theorem trim_separator {before after : Bytes} (first : ∀ b ∈ before, isBlank b = true)
    (last : ∀ b ∈ after, isBlank b = true) : trim (before ++ [58, 58] ++ after) = [58, 58] := by
  have front : (before ++ ([58, 58] ++ after)).dropWhile isBlank = [58, 58] ++ after := by
    rw [List.dropWhile_append_of_pos first]
    rfl
  have back : (after.reverse ++ [58, 58]).dropWhile isBlank = [58, 58] := by
    rw [List.dropWhile_append_of_pos fun b member => last b (List.mem_reverse.mp member)]
    rfl
  rw [trim, List.append_assoc, front, List.reverse_append]
  exact congrArg List.reverse back

/-- A separator is one `::` with white space around it. -/
theorem isSeparator_iff {start stop : Nat} : l.isSeparator start stop = true ↔ ∃ before after : Bytes,
    (∀ b ∈ before, isBlank b = true) ∧ (∀ b ∈ after, isBlank b = true) ∧
      l.slice start stop = before ++ [58, 58] ++ after := by
  rw [isSeparator, beq_iff_eq]
  constructor
  · intro trimmed
    obtain ⟨before, after, first, last, whole⟩ := exists_trim (l.slice start stop)
    rw [trimmed] at whole
    exact ⟨before, after, first, last, whole⟩
  · rintro ⟨before, after, first, last, whole⟩
    rw [whole]
    exact trim_separator first last

end Bytes

namespace Node

/-- Two segments with `::` between them, and white space at most. -/
structure Joined (source : Bytes) (a b : Node) : Prop where
  left : a.pathShape = .segment
  right : b.pathShape = .segment
  separator : ∃ before after : Bytes, (∀ x ∈ before, Bytes.isBlank x = true) ∧ (∀ x ∈ after, Bytes.isBlank x = true) ∧
    source.slice a.stop b.start = before ++ [58, 58] ++ after

/-- Siblings cut into blocks of joined ones that are as long as they can be. -/
structure Cut (source : Bytes) (nodes : List Node) (blocks : List (List Node)) : Prop where
  whole : nodes = blocks.flatten
  nonempty : [] ∉ blocks
  joined : ∀ block ∈ blocks, block.IsChain (Joined source)
  apart : blocks.IsChain fun a b => ∃ some next, ¬ Joined source (a.getLast some) (b.head next)

mutual

/-- The runs of a token tree, in source order. -/
inductive Runs (source : Bytes) : Node → List (List Node) → Prop where
  | tree {n : Node} {blocks runs : List (List Node)} (cut : Cut source n.namedChildren blocks)
      (parts : RunsIn source blocks runs) : Runs source n runs

/-- The runs of siblings cut into blocks: a block of segments is a run, a nested token tree has runs of its own. -/
inductive RunsIn (source : Bytes) : List (List Node) → List (List Node) → Prop where
  | nil : RunsIn source [] []
  | run {block : List Node} {rest runs : List (List Node)} (segments : ∀ n ∈ block, n.pathShape = .segment)
      (later : RunsIn source rest runs) : RunsIn source (block :: rest) (block :: runs)
  | nested {n : Node} {rest inner runs : List (List Node)} (kind : n.kind = "token_tree") (below : Runs source n inner)
      (later : RunsIn source rest runs) : RunsIn source ([n] :: rest) (inner ++ runs)
  | other {n : Node} {rest runs : List (List Node)} (kind : n.kind ≠ "token_tree") (shape : n.pathShape ≠ .segment)
      (later : RunsIn source rest runs) : RunsIn source ([n] :: rest) runs

end

/-! ### The runs that are read -/

/-- Whether two nodes are joined. -/
def joins (source : Bytes) (a b : Node) : Bool :=
  a.pathShape == .segment && b.pathShape == .segment && source.isSeparator a.stop b.start

/-- The runs of a block. -/
def blockRuns (source : Bytes) : List Node → List (List Node)
  | [n] => if n.kind == "token_tree" then n.tokenRuns source else if n.pathShape == .segment then [[n]] else []
  | block => [block]

variable {source : Bytes} {a b n : Node} {nodes run : List Node} {blocks runs : List (List Node)}

theorem joins_iff : joins source a b = true ↔ Joined source a b := by
  simp only [joins, Bool.and_eq_true, beq_iff_eq, Bytes.isSeparator_iff]
  exact ⟨fun ⟨⟨left, right⟩, separator⟩ => ⟨left, right, separator⟩, fun ⟨left, right, separator⟩ => ⟨⟨left, right⟩, separator⟩⟩

instance (source : Bytes) (a b : Node) : Decidable (Joined source a b) := decidable_of_iff _ joins_iff

theorem cut_iff : Cut source nodes blocks ↔ nodes.splitBy (joins source) = blocks := by
  rw [List.splitBy_eq_iff]
  simp only [joins_iff, ← Bool.not_eq_true]
  exact ⟨fun ⟨whole, nonempty, joined, apart⟩ => ⟨whole, nonempty, joined, apart⟩,
    fun ⟨whole, nonempty, joined, apart⟩ => ⟨whole, nonempty, joined, apart⟩⟩

theorem kind_of_segment (shape : n.pathShape = .segment) : (n.kind == "token_tree") = false := by
  rw [beq_eq_false_iff_ne]
  intro kind
  rw [Tag.pathShape, kind] at shape
  revert shape
  decide

theorem blockRuns_run (some : run ≠ []) (segments : ∀ n ∈ run, n.pathShape = .segment) : blockRuns source run = [run] := by
  match run with
  | [] => exact absurd rfl some
  | [n] =>
    have shape := segments n (by simp)
    simp [blockRuns, kind_of_segment shape, shape]
  | first :: second :: rest => rfl

/-- What holds of a run that is still open, given the end of the last named node. -/
structure Open (source : Bytes) (last : Nat) (run : List Node) : Prop where
  segments : ∀ n ∈ run, n.pathShape = .segment
  joined : run.IsChain (joins source · ·)
  ends : ∀ n ∈ run.getLast?, n.stop = last

theorem Open.nil (last : Nat) : Open source last [] := ⟨by simp, .nil, by simp⟩

theorem Open.joins_eq {last : Nat} (opened : Open source last run) (shape : n.pathShape = .segment) :
    ∀ m ∈ run.getLast?, joins source m n = source.isSeparator last n.start := by
  intro m member
  rw [joins, opened.segments m (List.mem_of_getLast? member), shape, opened.ends m member]
  rfl

theorem Open.snoc {last : Nat} (opened : Open source last run) (shape : n.pathShape = .segment)
    (goes : run = [] ∨ source.isSeparator last n.start = true) : Open source n.stop (run ++ [n]) := by
  refine ⟨?_, ?_, by simp⟩
  · intro m member
    rcases List.mem_append.mp member with earlier | last
    · exact opened.segments m earlier
    · rw [List.mem_singleton.mp last, shape]
  · refine List.isChain_append.mpr ⟨opened.joined, .singleton n, ?_⟩
    intro m member other first
    cases first
    rcases goes with rfl | separator
    · cases member
    · rw [opened.joins_eq shape m member, separator]

/-- An open run is closed as the block that it is. -/
theorem Open.splitBy {last : Nat} (opened : Open source last run) :
    (run.splitBy (joins source)).flatMap (blockRuns source) = closeRun run := by
  cases run with
  | nil => rfl
  | cons first rest =>
    rw [List.splitBy_of_isChain (by simp) opened.joined, List.flatMap_singleton, blockRuns_run (by simp) opened.segments]
    rfl

/-- A node that is no segment is a block by itself. -/
theorem splitBy_other (other : n.pathShape ≠ .segment) (rest : List Node) :
    (run ++ n :: rest).splitBy (joins source) = run.splitBy (joins source) ++ [n] :: rest.splitBy (joins source) := by
  have before : ∀ m, joins source m n = false := fun m => by simp [joins, other]
  have after : ∀ m, joins source n m = false := fun m => by simp [joins, other]
  have single := List.splitBy_append (r := joins source) (l := [n]) (m := rest) (by simp [after])
  rw [List.splitBy_append_cons rest fun m _ => before m]
  exact congrArg _ single

theorem tokenRunsIn_eq {last : Nat} (opened : Open source last run) : tokenRunsIn source last run nodes =
    ((run ++ nodes.filter (·.named)).splitBy (joins source)).flatMap (blockRuns source) := by
  induction nodes generalizing run last with
  | nil =>
    rw [List.filter_nil, List.append_nil, opened.splitBy]
    rfl
  | cons n rest ih =>
    rw [tokenRunsIn, List.filter_cons]
    cases n.named with
    | false => exact ih opened
    | true =>
      simp only [Bool.not_true, Bool.false_eq_true, if_false, if_true]
      by_cases shape : n.pathShape = .segment
      · simp only [kind_of_segment shape, shape, Bool.false_eq_true, if_false, BEq.rfl, if_true]
        cases goes : run.isEmpty || source.isSeparator last n.start with
        | true =>
          rw [if_pos rfl, ih (opened.snoc shape (by simpa using goes)), List.append_assoc]
          rfl
        | false =>
          obtain ⟨-, stops⟩ := Bool.or_eq_false_iff.mp goes
          have apart : ∀ m ∈ run.getLast?, joins source m n = false := by
            intro m member
            rw [opened.joins_eq shape m member, stops]
          rw [if_neg Bool.false_ne_true, List.splitBy_append_cons _ apart, List.flatMap_append, opened.splitBy]
          exact congrArg _ (ih ((Open.nil last).snoc shape (.inl rfl)))
      · have after := ih (Open.nil n.stop)
        rw [splitBy_other shape, List.flatMap_append, List.flatMap_cons, opened.splitBy, after]
        cases kind : n.kind == "token_tree" <;> simp [blockRuns, kind, shape]

/-- The runs of a token tree are those of the blocks that its named children are cut into. -/
theorem tokenRuns_eq (n : Node) :
    n.tokenRuns source = (n.namedChildren.splitBy (joins source)).flatMap (blockRuns source) := by
  rcases n with ⟨tag, children⟩
  rw [tokenRuns]
  exact tokenRunsIn_eq (.nil tag.start)

/-- Of several joined nodes, all are segments. -/
theorem segments_of_joined (joined : (a :: b :: run).IsChain (Joined source)) :
    ∀ n ∈ a :: b :: run, n.pathShape = .segment := by
  induction run generalizing a b with
  | nil =>
    obtain ⟨pair, -⟩ := List.isChain_cons_cons.mp joined
    simp [pair.left, pair.right]
  | cons c rest ih =>
    obtain ⟨pair, later⟩ := List.isChain_cons_cons.mp joined
    exact List.forall_mem_cons.mpr ⟨pair.left, ih later⟩

theorem RunsIn.eq_flatMap (parts : RunsIn source blocks runs) (nonempty : [] ∉ blocks)
    (nested : ∀ block ∈ blocks, ∀ m ∈ block, ∀ inner, Runs source m inner → m.tokenRuns source = inner) :
    blocks.flatMap (blockRuns source) = runs := by
  induction blocks generalizing runs with
  | nil =>
    cases parts
    rfl
  | cons block rest ih =>
    obtain ⟨some, others⟩ := not_or.mp (List.mem_cons.not.mp nonempty)
    obtain ⟨here, below⟩ := List.forall_mem_cons.mp nested
    rw [List.flatMap_cons]
    cases parts with
    | run segments later =>
      rw [ih later others below, blockRuns_run (Ne.symm some) segments]
      rfl
    | nested kind inner later =>
      rw [ih later others below, blockRuns, kind, here _ (by simp) _ inner]
      rfl
    | other kind shape later =>
      rw [ih later others below]
      simp [blockRuns, kind, shape]

theorem runsIn_flatMap (nonempty : [] ∉ blocks) (joined : ∀ block ∈ blocks, block.IsChain (Joined source))
    (nested : ∀ block ∈ blocks, ∀ m ∈ block, Runs source m (m.tokenRuns source)) :
    RunsIn source blocks (blocks.flatMap (blockRuns source)) := by
  induction blocks with
  | nil => exact .nil
  | cons block rest ih =>
    obtain ⟨some, others⟩ := not_or.mp (List.mem_cons.not.mp nonempty)
    obtain ⟨chain, chains⟩ := List.forall_mem_cons.mp joined
    obtain ⟨here, below⟩ := List.forall_mem_cons.mp nested
    have later := ih others chains below
    rw [List.flatMap_cons]
    match block with
    | [] => exact absurd rfl some
    | [n] =>
      by_cases kind : n.kind = "token_tree"
      · simpa [blockRuns, kind] using RunsIn.nested kind (here n (by simp)) later
      · by_cases shape : n.pathShape = .segment
        · simpa [blockRuns, kind, shape] using RunsIn.run (by simpa using shape) later
        · simpa [blockRuns, kind, shape] using RunsIn.other kind shape later
    | first :: second :: more => exact .run (segments_of_joined chain) later

theorem Cut.mem {block : List Node} (cut : Cut source n.namedChildren blocks) (listed : block ∈ blocks) (member : a ∈ block) :
    a ∈ n.children := by
  have inside : a ∈ n.namedChildren := cut.whole ▸ List.mem_flatten_of_mem listed member
  exact (List.mem_filter.mp inside).1

/-- The runs of a token tree are those that are read. -/
theorem runs_iff : Runs source n runs ↔ n.tokenRuns source = runs := by
  induction n using Node.induction generalizing runs with
  | node tag children ih =>
    rw [tokenRuns_eq]
    constructor
    · rintro ⟨cut, parts⟩
      rw [cut_iff.mp cut]
      exact parts.eq_flatMap cut.nonempty fun block listed m member inner below =>
        (ih m (cut.mem listed member)).mp below
    · rintro rfl
      have cut := cut_iff.mpr (rfl : (namedChildren ⟨tag, children⟩).splitBy (joins source) = _)
      exact .tree cut (runsIn_flatMap cut.nonempty cut.joined fun block listed m member =>
        (ih m (cut.mem listed member)).mpr rfl)

theorem mem_blockRuns {block : List Node} (joined : block.IsChain (Joined source)) (member : run ∈ blockRuns source block) :
    (run = block ∧ ∀ m ∈ block, m.pathShape = .segment) ∨ ∃ m ∈ block, run ∈ m.tokenRuns source := by
  match block with
  | [] => exact .inl ⟨by simpa [blockRuns] using member, by simp⟩
  | [n] =>
    simp only [blockRuns] at member
    split at member
    · exact .inr ⟨n, by simp, member⟩
    · split at member
      · next shape => exact .inl ⟨by simpa using member, by simpa using shape⟩
      · cases member
  | first :: second :: rest => exact .inl ⟨by simpa [blockRuns] using member, segments_of_joined joined⟩

/-- A run consists of segments of the tree. -/
theorem all_of_mem_tokenRuns {property : Node → Prop} (all : n.All property) (member : run ∈ n.tokenRuns source) :
    ∀ m ∈ run, m.pathShape = .segment ∧ property m := by
  induction n using Node.induction with
  | node tag children ih =>
    obtain ⟨-, below⟩ := all_iff.mp all
    rw [tokenRuns_eq] at member
    obtain ⟨block, listed, inside⟩ := List.mem_flatMap.mp member
    have cut : Cut source (namedChildren ⟨tag, children⟩) _ := cut_iff.mpr rfl
    rcases mem_blockRuns (cut.joined block listed) inside with ⟨rfl, segments⟩ | ⟨n, part, deeper⟩
    · exact fun m there => ⟨segments m there, (below m (cut.mem listed there)).self⟩
    · have child := cut.mem listed part
      exact ih n child (below n child) deeper

end Node

/-- Texts of a run that are a reference: no keyword by itself, and no variable but `$crate` before something. -/
structure Refers (texts : List String) : Prop where
  nonempty : texts ≠ []
  keyword : texts ≠ ["self"] ∧ texts ≠ ["super"] ∧ texts ≠ ["crate"]
  dollar : ∀ name rest, texts = name :: rest → name.toList.head? = some '$' → name = "$crate" ∧ rest ≠ []

theorem isReference_iff {texts : List String} : isReference texts = true ↔ Refers texts := by
  match texts with
  | [] =>
    constructor
    · intro reference
      cases reference
    · intro refers
      exact absurd rfl refers.nonempty
  | [name] =>
    have one : isReference [name] = true ↔
        (name ≠ "self" ∧ name ≠ "super" ∧ name ≠ "crate") ∧ name.toList.head? ≠ some '$' := by
      simp [isReference, keywordSegments]
    rw [one]
    constructor
    · rintro ⟨keyword, plain⟩
      refine ⟨by simp, by simpa using keyword, ?_⟩
      rintro _ _ ⟨⟩ dollar
      exact absurd dollar plain
    · intro refers
      exact ⟨by simpa using refers.keyword, fun dollar => (refers.dollar name [] rfl dollar).2 rfl⟩
  | name :: next :: rest =>
    have several : isReference (name :: next :: rest) = true ↔ (name.toList.head? = some '$' → name = "$crate") := by
      simp only [isReference, Bool.or_eq_true, beq_iff_eq, bne_iff_ne]
      tauto
    rw [several]
    constructor
    · intro crate
      refine ⟨by simp, by simp, ?_⟩
      rintro _ _ ⟨⟩ dollar
      exact ⟨crate dollar, by simp⟩
    · intro refers dollar
      exact (refers.dollar name _ rfl dollar).1

instance (texts : List String) : Decidable (Refers texts) := decidable_of_iff _ isReference_iff

/-- Steps that each succeed with a result of some kind. -/
theorem mapM_eq_ok {ε α β : Type} {f : α → Except ε β} {property : β → Prop} {l : List α}
    (each : ∀ a ∈ l, ∃ b, f a = .ok b ∧ property b) : ∃ results, l.mapM f = .ok results ∧ ∀ b ∈ results, property b := by
  induction l with
  | nil => exact ⟨[], rfl, by simp⟩
  | cons a rest ih =>
    obtain ⟨⟨b, first, here⟩, later⟩ := List.forall_mem_cons.mp each
    obtain ⟨results, others, all⟩ := ih later
    refine ⟨b :: results, ?_, List.forall_mem_cons.mpr ⟨here, all⟩⟩
    rw [List.mapM_cons, first, ok_bind, others]
    rfl

namespace SourceUnit

variable {u v : SourceUnit} {n m : Node} {s : Scope}

/-- A node whose text is a segment. -/
def IsWord (u : SourceUnit) (n : Node) : Prop := ∃ text, u.textOf n.toTag = .ok text ∧ ModulePath.isSegment text.toList = true

/-- The texts of runs of nodes. -/
def textsOf (u : SourceUnit) (runs : List (List Node)) : Except Fault (List (List String)) :=
  runs.mapM fun run => run.mapM fun n => u.textOf n.toTag

theorem textsOf_ok {runs : List (List Node)} (words : ∀ run ∈ runs, ∀ n ∈ run, u.IsWord n) :
    ∃ texts, u.textsOf runs = .ok texts ∧ ∀ segments ∈ texts, (ModulePath.mk segments).IsValid :=
  mapM_eq_ok fun run member => mapM_eq_ok (words run member)

theorem recordRuns_eq {runs : List (List Node)} {texts : List (List String)} (read : u.textsOf runs = .ok texts)
    (valid : ∀ segments ∈ texts, (ModulePath.mk segments).IsValid) (s : Scope) :
    u.recordRuns runs s = .ok (((texts.filter (Refers ·)).map ModulePath.mk).foldl Scope.addAccess s) := by
  induction runs generalizing texts s with
  | nil =>
    cases read
    rfl
  | cons run rest ih =>
    rw [textsOf, List.mapM_cons] at read
    obtain ⟨segments, first, read⟩ := bind_eq_ok.mp read
    obtain ⟨others, later, read⟩ := bind_eq_ok.mp read
    cases read
    obtain ⟨here, below⟩ := List.forall_mem_cons.mp valid
    have same : isReference segments = decide (Refers segments) := by
      rw [Bool.eq_iff_iff, isReference_iff, decide_eq_true_iff]
    have parsed : ModulePath.ofSegments segments = .ok ⟨segments⟩ := ofSegments_of_valid ⟨segments⟩ here
    rw [recordRuns, first, ok_bind, same, List.filter_cons]
    by_cases refers : Refers segments
    · simp only [refers, decide_true, if_true, recordAccess, parsed, ok_bind, pure_eq_ok]
      exact ih later below _
    · simp only [refers, decide_false, Bool.false_eq_true, if_false, pure_eq_ok, ok_bind]
      exact ih later below s

theorem recordRuns_append (first rest : List (List Node)) (s : Scope) :
    u.recordRuns (first ++ rest) s = u.recordRuns first s >>= u.recordRuns rest := by
  induction first generalizing s with
  | nil => rfl
  | cons run more ih =>
    simp only [List.cons_append, recordRuns, bind_assoc]
    refine congrArg _ (funext fun texts => ?_)
    split
    · simp only [ih, bind_assoc]
    · exact ih s

/-- Joined segments with the given texts among the named children of a node, between others that they are not joined to. -/
structure Among (u : SourceUnit) (n : Node) (before run after : List Node) (texts : List String) : Prop where
  children : n.namedChildren = before ++ run ++ after
  joined : run.IsChain (Node.Joined u.bytes)
  left : ∀ x ∈ before.getLast?, ∀ y ∈ run.head?, ¬ Node.Joined u.bytes x y
  right : ∀ x ∈ run.getLast?, ∀ y ∈ after.head?, ¬ Node.Joined u.bytes x y
  read : (run.mapM fun x => u.textOf x.toTag) = .ok texts
  valid : (ModulePath.mk texts).IsValid

theorem Among.segments {before run after : List Node} {texts : List String} (among : u.Among n before run after texts)
    (long : 2 ≤ texts.length) : run ≠ [] ∧ ∀ x ∈ run, x.pathShape = .segment := by
  have read := among.read
  match run, among.joined with
  | [], _ =>
    cases read
    cases long
  | [x], _ =>
    rw [List.mapM_cons] at read
    obtain ⟨text, -, read⟩ := bind_eq_ok.mp read
    cases read
    simp at long
  | first :: second :: rest, joined => exact ⟨by simp, Node.segments_of_joined joined⟩

/-- A run between other nodes is cut out. -/
theorem Among.tokenRuns_eq {before run after : List Node} {texts : List String} (among : u.Among n before run after texts)
    (long : 2 ≤ texts.length) : n.tokenRuns u.bytes =
      Node.tokenRuns u.bytes ⟨n.toTag, before⟩ ++ ([run] ++ Node.tokenRuns u.bytes ⟨n.toTag, after⟩) := by
  obtain ⟨some, segments⟩ := among.segments long
  have named : ∀ part, part ⊆ before ++ run ++ after → Node.namedChildren ⟨n.toTag, part⟩ = part := by
    intro part inside
    refine List.filter_eq_self.mpr fun x member => ?_
    have child : x ∈ n.namedChildren := among.children ▸ inside member
    exact (List.mem_filter.mp child).2
  have apart : ∀ x y, ¬ Node.Joined u.bytes x y → Node.joins u.bytes x y = false := by
    intro x y none
    rw [← Bool.not_eq_true, Node.joins_iff]
    exact none
  have chain : run.IsChain (Node.joins u.bytes · ·) := by
    simpa only [Node.joins_iff] using among.joined
  have left : ∀ x ∈ before.getLast?, ∀ y ∈ (run ++ after).head?, Node.joins u.bytes x y = false := by
    intro x last y head
    rw [List.head?_append_of_ne_nil run some] at head
    exact apart x y (among.left x last y head)
  have right : ∀ x ∈ run.getLast?, ∀ y ∈ after.head?, Node.joins u.bytes x y = false :=
    fun x last y head => apart x y (among.right x last y head)
  rw [Node.tokenRuns_eq n, Node.tokenRuns_eq ⟨n.toTag, before⟩, Node.tokenRuns_eq ⟨n.toTag, after⟩,
    named before (by simp), named after (by simp), among.children, List.append_assoc, List.splitBy_append left,
    List.splitBy_append right, List.flatMap_append, List.flatMap_append, List.splitBy_of_isChain some chain,
    List.flatMap_singleton, Node.blockRuns_run some segments]

theorem Among.recordRuns {before run after : List Node} {texts : List String} (among : u.Among n before run after texts)
    (long : 2 ≤ texts.length) (dollar : ∀ name ∈ texts.head?, name.toList.head? = some '$' → name = "$crate") (s : Scope) :
    u.recordRuns [run] s = .ok (s.addAccess ⟨texts⟩) := by
  have refers : Refers texts := by
    match texts with
    | [] | [_] => simp at long
    | name :: next :: rest =>
      refine ⟨by simp, by simp, ?_⟩
      rintro _ _ ⟨⟩ start
      exact ⟨dollar name rfl start, by simp⟩
  have read : u.textsOf [run] = .ok [texts] := by
    rw [textsOf, List.mapM_cons, among.read]
    rfl
  rw [recordRuns_eq read (by simpa using among.valid)]
  simp [refers]

/-- Paths in the input of a macro are read as if they stood in the code. Reading a token tree whose segments can be read
adds, in source order, an access for each of its runs that is a reference; which runs there are, the tree and the source
say (`Node.Runs`). Where several joined segments stand between nodes that are not joined to them, reading the tree comes
to reading what is before them, then a node that spells the same path where an expression stands, then what is behind
them. -/
theorem tokens_read_as_paths (u : SourceUnit) (n : Node) (s : Scope) :
    (∃! runs, Node.Runs u.bytes n runs) ∧
    (n.All (fun m => m.pathShape = .segment → u.IsWord m) → ∀ runs, Node.Runs u.bytes n runs →
      ∃ texts, u.textsOf runs = .ok texts ∧
        u.visit .tokens n s = .ok (((texts.filter (Refers ·)).map ModulePath.mk).foldl Scope.addAccess s)) ∧
    ∀ (before run after : List Node) (texts : List String) (v : SourceUnit) (m : Node), u.Among n before run after texts →
      2 ≤ texts.length → (∀ name ∈ texts.head?, name.toList.head? = some '$' → name = "$crate") →
      v.Spells m ⟨false, texts⟩ →
      v.visit .item m s = .ok (s.addAccess ⟨texts⟩) ∧ u.visit .tokens n s =
        u.visit .tokens ⟨n.toTag, before⟩ s >>= v.visit .item m >>= u.visit .tokens ⟨n.toTag, after⟩ := by
  have tokens : ∀ (n : Node) s, u.visit .tokens n s = u.recordRuns (n.tokenRuns u.bytes) s := by
    intro n s
    cases n
    rw [visit]
  refine ⟨⟨_, Node.runs_iff.mpr rfl, fun runs made => (Node.runs_iff.mp made).symm⟩, ?_, ?_⟩
  · intro words runs made
    have read := Node.runs_iff.mp made
    have each : ∀ run ∈ runs, ∀ x ∈ run, u.IsWord x := by
      intro run member x inside
      obtain ⟨shape, word⟩ := Node.all_of_mem_tokenRuns words (read ▸ member) x inside
      exact word shape
    obtain ⟨texts, given, valid⟩ := textsOf_ok each
    refine ⟨texts, given, ?_⟩
    rw [tokens, read, recordRuns_eq given valid]
  · intro before run after texts v m among long dollar spells
    have item : ∀ t, v.visit .item m t = .ok (t.addAccess ⟨texts⟩) := spells.visit_item long among.valid rfl
    have same : u.recordRuns [run] = v.visit .item m := by
      funext t
      rw [among.recordRuns long dollar, item]
    refine ⟨item s, ?_⟩
    rw [tokens, among.tokenRuns_eq long, recordRuns_append, tokens, bind_assoc]
    refine congrArg _ (funext fun t => ?_)
    rw [recordRuns_append, same]
    exact congrArg _ (funext fun t => (tokens _ t).symm)

/-- A node without children in a token tree. -/
def token (kind : String) (start stop : Nat) : Node := ⟨{ kind := kind, named := true, start := start, stop := stop }, []⟩

/-- The input of the call `m!(a :: b, self, $x::y (c))`. -/
def callTokens : Node :=
  ⟨{ kind := "token_tree", named := true, start := 2, stop := 27 }, [token "identifier" 3 4, token "identifier" 8 9,
    token "self" 11 15, token "metavariable" 17 19, token "identifier" 21 22,
    ⟨{ kind := "token_tree", named := true, start := 23, stop := 26 }, [token "identifier" 24 25]⟩]⟩

def calling : SourceUnit where
  path := ⟨0, ["lib.rs"]⟩
  bytes := Utf8.encode "m!(a :: b, self, $x::y (c))"
  root := ⟨{ kind := "source_file", named := true, stop := 27 }, [
    ⟨{ kind := "macro_invocation", named := true, stop := 27 }, [callTokens]⟩]⟩

/-- The path `a::b` by itself. -/
def pathAlone : SourceUnit where
  path := ⟨0, ["lib.rs"]⟩
  bytes := Utf8.encode "a::b"
  root := ⟨{ kind := "scoped_identifier", named := true, stop := 4 }, [
    ⟨{ kind := "identifier", named := true, start := 0, stop := 1, field := some "path" }, []⟩,
    ⟨{ kind := "identifier", named := true, start := 3, stop := 4, field := some "name" }, []⟩]⟩

theorem tokens_read_as_paths_calling :
    calling.visit .tokens callTokens .empty = .ok ⟨[], [⟨["a", "b"]⟩, ⟨["c"]⟩], false⟩ ∧
    calling.visit .tokens callTokens .empty =
      pathAlone.visit .item pathAlone.root .empty >>= calling.visit .tokens ⟨callTokens.toTag, callTokens.children.drop 2⟩ := by
  obtain ⟨-, read, split⟩ := tokens_read_as_paths calling callTokens .empty
  have words : callTokens.All fun m => m.pathShape = .segment → calling.IsWord m := by
    have named : ∀ text : String, ModulePath.isSegment text.toList = true → ∀ n : Node,
        calling.textOf n.toTag = .ok text → n.children = [] → n.All fun m => m.pathShape = .segment → calling.IsWord m := by
      intro text segment n given leaf
      rcases n with ⟨tag, children⟩
      cases leaf
      exact Node.all_iff.mpr ⟨fun _ => ⟨text, given, segment⟩, by simp⟩
    refine Node.all_iff.mpr ⟨fun shape => absurd shape (by decide), ?_⟩
    simp only [List.forall_mem_cons]
    refine ⟨named "a" (by decide +kernel) _ rfl rfl, named "b" (by decide +kernel) _ rfl rfl,
      named "self" (by decide +kernel) _ rfl rfl, named "$x" (by decide +kernel) _ rfl rfl,
      named "y" (by decide +kernel) _ rfl rfl, ?_, by simp⟩
    exact Node.all_iff.mpr ⟨fun shape => absurd shape (by decide), by simpa using named "c" (by decide +kernel) _ rfl rfl⟩
  have runs : Node.Runs calling.bytes callTokens [[token "identifier" 3 4, token "identifier" 8 9], [token "self" 11 15],
      [token "metavariable" 17 19, token "identifier" 21 22], [token "identifier" 24 25]] := Node.runs_iff.mpr rfl
  constructor
  · obtain ⟨texts, given, accesses⟩ := read words _ runs
    cases given
    exact accesses
  · have among : calling.Among callTokens [] [token "identifier" 3 4, token "identifier" 8 9] (callTokens.children.drop 2)
        ["a", "b"] := ⟨rfl, by decide +kernel, by simp, by decide +kernel, rfl, by decide +kernel⟩
    have spells : pathAlone.Spells pathAlone.root ⟨false, ["a", "b"]⟩ := .behind rfl rfl (.segment rfl rfl) rfl rfl
    exact (split [] _ _ ["a", "b"] pathAlone pathAlone.root among (by decide) (by decide) spells).2

end SourceUnit

end CrateFold
