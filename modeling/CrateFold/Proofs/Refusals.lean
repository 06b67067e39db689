import CrateFold.Proofs.Building
import CrateFold.Proofs.Identifiers
import CrateFold.Proofs.MacroInput

/-!
What is refused for its names. If all segments and module names of a tree are from a vocabulary of names
(`SourceUnit.From`), a refused one is from it too and holds a character that is no word character
(`Fault.Fair`). Building a scope tree is shown to give a fine result or a fair fault (`Fairly`) step by step
along the walk, a fine scope being one that has its modules under names from the vocabulary (`visit_fairly`);
this is what flattening needs to be fair in turn (`ofTree_fairly`).
-/
namespace CrateFold

open Text

/-! ### Fair faults -/

/-- A set of names. -/
structure Vocabulary where
  has : String → Bool
  spelled : ∀ name, has name = true → isSpelling name.toList = true

/-- A fault that does no wrong to a name: a segment is refused if it is a name of the vocabulary with a character that is
no word character, and a module is not below the crate root only if it is the crate root. -/
def Fault.Fair (v : Vocabulary) : Fault → Prop
  | .invalidSegment segment _ => v.has segment = true ∧ isWorded segment.toList = false
  | .notBelowCrate path => path = .crate
  | _ => True

/-- A fine result or a fair fault. -/
def Fairly {α : Type} (v : Vocabulary) (fine : α → Prop) : Except Fault α → Prop
  | .ok a => fine a
  | .error fault => fault.Fair v

variable {v : Vocabulary}

section

variable {α β : Type} {fine : α → Prop} {next : β → Prop} {x : Except Fault α}

theorem Fairly.bind {f : α → Except Fault β} (first : Fairly v fine x) (rest : ∀ a, fine a → Fairly v next (f a)) :
    Fairly v next (x >>= f) := by
  cases x with
  | ok a => exact rest a first
  | error fault => exact first

theorem Fairly.imp {other : α → Prop} (fair : Fairly v fine x) (weaker : ∀ a, fine a → other a) : Fairly v other x := by
  cases x with
  | ok a => exact weaker a fair
  | error fault => exact fair

theorem Fairly.map {f : α → β} (first : Fairly v fine x) (rest : ∀ a, fine a → next (f a)) : Fairly v next (f <$> x) := by
  cases x with
  | ok a => exact rest a first
  | error fault => exact first

theorem fairly_mapM {γ : Type} {l : List γ} {f : γ → Except Fault α} (each : ∀ c ∈ l, Fairly v fine (f c)) :
    Fairly v (fun all => ∀ a ∈ all, fine a) (l.mapM f) := by
  induction l with
  | nil => exact List.forall_mem_nil _
  | cons c rest ih =>
    rw [List.mapM_cons]
    refine (each c (List.mem_cons_self ..)).bind fun a here => ?_
    refine (ih fun c member => each c (List.mem_cons_of_mem _ member)).bind fun others later => ?_
    exact List.forall_mem_cons.mpr ⟨here, later⟩

end

theorem ModulePath.fairly_ofSegments {segments : List String} (known : ∀ segment ∈ segments, v.has segment = true) :
    Fairly v (fun path => path = ⟨segments⟩) (ModulePath.ofSegments segments) := by
  have spelled := fun segment member => v.spelled segment (known segment member)
  rcases ModulePath.ofSegments_spelled spelled with accepted | ⟨segment, member, strange, refused⟩
  · rw [accepted]
    rfl
  · rw [refused]
    exact ⟨known segment member, strange⟩

theorem ModulePath.fairly_joinText {name : String} (known : v.has name = true) (p : ModulePath) :
    Fairly v (fun path => path = p.join ⟨[name]⟩) (p.joinText name) := by
  have read := fairly_ofSegments (List.forall_mem_singleton.mpr known)
  rw [ofSegments, show "::".intercalate [name] = name by simp] at read
  refine read.bind ?_
  rintro _ rfl
  rfl

/-! ### Names in a tree -/

/-- The names that are read at a node: the node itself if it is a segment, the last segment of a path and the name of
a module. -/
def Node.names : Node → List Tag
  | ⟨tag, children⟩ =>
    (if tag.pathShape == .segment then [tag] else []) ++
      if tag.pathShape == .scoped || tag.kind == "mod_item" then
        ((children.find? (·.fills "name")).map Node.toTag).toList
      else []

namespace SourceUnit

/-- Whether the text of a node is from a vocabulary, if it has a text. -/
def textFrom (u : SourceUnit) (v : Vocabulary) (t : Tag) : Bool :=
  match u.textOf t with
  | .ok text => v.has text
  | .error _ => true

/-- The names that are read at a node are from a vocabulary. -/
def NamesFrom (u : SourceUnit) (v : Vocabulary) (n : Node) : Prop := ∀ t ∈ n.names, u.textFrom v t = true

/-- All segments and module names of a unit are from a vocabulary. -/
def From (u : SourceUnit) (v : Vocabulary) : Prop := u.root.All (u.NamesFrom v)

instance (u : SourceUnit) : Decidable (u.From v) :=
  inferInstanceAs (Decidable (∀ p ∈ u.root.placed [], ∀ t ∈ p.node.names, u.textFrom v t = true))

variable {u : SourceUnit} {n : Node} {tag : Tag} {children : List Node}

theorem NamesFrom.segment (names : u.NamesFrom v ⟨tag, children⟩) (shape : tag.pathShape = .segment) :
    u.textFrom v tag = true :=
  names tag (by simp [Node.names, shape])

theorem NamesFrom.name {name : Node} (names : u.NamesFrom v ⟨tag, children⟩)
    (named : tag.pathShape = .scoped ∨ tag.kind = "mod_item") (found : children.find? (·.fills "name") = some name) :
    u.textFrom v name.toTag = true :=
  names name.toTag (by simp [Node.names, named, found])

theorem fairly_textOf (u : SourceUnit) (t : Tag) : Fairly v (fun text => u.textFrom v t = true → v.has text = true)
    (u.textOf t) := by
  unfold textFrom
  unfold textOf
  cases Utf8.decode (u.bytes.slice t.start t.stop) with
  | error run => trivial
  | ok text => exact id

theorem fairly_nameOf (u : SourceUnit) (n : Option Node) :
    Fairly v (fun text => (∀ name ∈ n, u.textFrom v name.toTag = true) → v.has text = true) (u.nameOf n) := by
  cases n with
  | none => trivial
  | some n => exact (u.fairly_textOf n.toTag).imp fun text named all => named (all n rfl)

theorem fairly_refuseLeadingSeparator (u : SourceUnit) (t : Tag) (children : List Node) :
    Fairly v (fun _ => True) (u.refuseLeadingSeparator t children) := by
  unfold refuseLeadingSeparator
  split
  · exact (u.fairly_textOf t).bind fun _ _ => trivial
  · trivial

/-- The segments of a path, if it has any, are from a vocabulary. -/
def PathFrom (v : Vocabulary) (found : Option (List String)) : Prop :=
  ∀ segments ∈ found, ∀ segment ∈ segments, v.has segment = true

theorem fairly_extendSegments (names : u.NamesFrom v ⟨tag, children⟩) (shape : tag.pathShape = .scoped)
    {before : Option (List String)} (known : PathFrom v before) : Fairly v (PathFrom v) (u.extendSegments children before) := by
  cases before with
  | none => exact nofun
  | some segments =>
    unfold extendSegments
    simp only
    split
    · exact nofun
    · next name found =>
      refine (u.fairly_textOf name.toTag).bind fun text named => ?_
      rintro _ ⟨⟩ segment member
      rcases List.mem_append.mp member with earlier | last
      · exact known segments rfl segment earlier
      · rw [List.mem_singleton.mp last]
        exact named (names.name (.inl shape) found)

mutual

theorem fairly_segments : ∀ n : Node, n.All (u.NamesFrom v) → Fairly v (PathFrom v) (u.segments n)
  | ⟨tag, children⟩, all => by
    obtain ⟨here, below⟩ := Node.all_iff.mp all
    unfold segments
    split
    · next shape =>
      refine (u.fairly_textOf tag).bind fun text named => ?_
      rintro _ ⟨⟩ segment member
      rw [List.mem_singleton.mp member]
      exact named (here.segment shape)
    · next shape =>
      refine (fairly_segmentsAt children "path" below).bind fun found known => ?_
      cases found with
      | some base => exact fairly_extendSegments here shape (known base rfl)
      | none =>
        refine (u.fairly_refuseLeadingSeparator tag children).bind fun _ _ => ?_
        exact fairly_extendSegments here shape (by rintro _ ⟨⟩ _ ⟨⟩)
    · refine (fairly_segmentsAt children "type" below).bind fun found known => ?_
      cases found with
      | some base => exact known base rfl
      | none => exact nofun
    · exact nofun
termination_by structural n => n

theorem fairly_segmentsAt : ∀ (nodes : List Node) (field : String), (∀ n ∈ nodes, n.All (u.NamesFrom v)) →
    Fairly v (fun found => ∀ path ∈ found, PathFrom v path) (u.segmentsAt field nodes)
  | [], _, _ => nofun
  | n :: rest, field, all => by
    obtain ⟨here, later⟩ := List.forall_mem_cons.mp all
    unfold segmentsAt
    split
    · refine (fairly_segments n here).map fun path known => ?_
      rintro _ ⟨⟩
      exact known
    · exact fairly_segmentsAt rest field later
termination_by structural l => l

end

end SourceUnit

/-! ### Scopes with names from a vocabulary -/

/-- Whether an item that is a module has its name from a vocabulary. -/
def Item.isFrom (v : Vocabulary) : Item → Bool
  | .module name _ => v.has name
  | _ => true

namespace Scope

/-- Whether the modules directly in a scope have their names from a vocabulary. -/
def modulesFrom (v : Vocabulary) (s : Scope) : Bool := s.items.all (Item.isFrom v)

/-- The modules of a scope, at any depth, have their names from a vocabulary. -/
def From (v : Vocabulary) (s : Scope) : Prop := everywhere (modulesFrom v) s = true

variable {s : Scope}

theorem From.addItem {item : Item} (known : s.From v) (named : item.isFrom v = true)
    (below : everywhereAt (modulesFrom v) item = true) : (s.addItem item).From v := by
  refine everywhere_addItem ?_ known below
  have here : s.items.all (Item.isFrom v) = true := (everywhere_iff.mp known).1
  simp [modulesFrom, Scope.addItem, List.all_append, here, named]

theorem From.addAccess (known : s.From v) (path : ModulePath) : (s.addAccess path).From v := by
  obtain ⟨here, deeper⟩ := everywhere_iff.mp known
  exact everywhere_iff.mpr ⟨here, deeper⟩

theorem From.addMacros (known : s.From v) : s.addMacros.From v := by
  obtain ⟨here, deeper⟩ := everywhere_iff.mp known
  exact everywhere_iff.mpr ⟨here, deeper⟩

end Scope

namespace SourceUnit

variable {u : SourceUnit} {s : Scope}

theorem fairly_recordAccess {segments : List String} (named : ∀ segment ∈ segments, v.has segment = true)
    (known : s.From v) : Fairly v (Scope.From v) (recordAccess s segments) :=
  (ModulePath.fairly_ofSegments named).bind fun path _ => known.addAccess path

theorem fairly_recordName {t : Tag} (named : u.textFrom v t = true) (known : s.From v) :
    Fairly v (Scope.From v) (u.textOf t >>= fun text => recordAccess s [text]) :=
  (u.fairly_textOf t).bind fun _ name => fairly_recordAccess (List.forall_mem_singleton.mpr (name named)) known

theorem fairly_recordRuns {runs : List (List Node)} (named : ∀ run ∈ runs, ∀ n ∈ run, u.textFrom v n.toTag = true)
    (known : s.From v) : Fairly v (Scope.From v) (u.recordRuns runs s) := by
  induction runs generalizing s with
  | nil => exact known
  | cons run rest ih =>
    obtain ⟨here, later⟩ := List.forall_mem_cons.mp named
    have texts : Fairly v (fun texts => ∀ text ∈ texts, v.has text = true) (run.mapM fun n => u.textOf n.toTag) :=
      fairly_mapM fun n member => (u.fairly_textOf n.toTag).imp fun text name => name (here n member)
    refine texts.bind fun texts fine => ?_
    by_cases reference : isReference texts = true
    · simp only [reference, if_true]
      exact (fairly_recordAccess fine known).bind fun t known => ih later known
    · simp only [reference, Bool.false_eq_true, if_false]
      exact ih later known

theorem fairly_recordPath {n : Node} (all : n.All (u.NamesFrom v)) (known : s.From v) :
    Fairly v (Scope.From v) (u.recordPath n s) := by
  refine (fairly_segments n all).bind fun found named => ?_
  cases found with
  | none => exact known
  | some segments => exact fairly_recordAccess (named segments rfl) known

theorem fairly_usePath {n : Node} (all : n.All (u.NamesFrom v)) : Fairly v (fun _ => True) (u.usePath n) := by
  refine (fairly_segments n all).bind fun found named => ?_
  cases found with
  | none => exact (u.fairly_textOf n.toTag).bind fun _ _ => trivial
  | some segments => exact (ModulePath.fairly_ofSegments (named segments rfl)).imp fun _ _ => trivial

theorem fairly_importLeaf {n : Node} (all : n.All (u.NamesFrom v)) (base : ModulePath) :
    Fairly v (fun _ => True) (u.importLeaf base n) :=
  (fairly_usePath all).bind fun _ _ => trivial

theorem fairly_extendBase {children : List Node} (all : ∀ n ∈ children, n.All (u.NamesFrom v)) (base : ModulePath) (t : Tag)
    {path : Option Node} (part : ∀ n ∈ path, n ∈ children) : Fairly v (fun _ => True) (u.extendBase base t children path) := by
  cases path with
  | none => exact (u.fairly_refuseLeadingSeparator t children).bind fun _ _ => trivial
  | some n => exact (fairly_usePath (all n (part n rfl))).bind fun _ _ => trivial

/-! ### The walk -/

theorem segment_of_ruleOfKind {t : Tag} (rule : Rule.ofKind t.kind = .name) : t.pathShape = .segment := by
  unfold Rule.ofKind at rule
  split at rule
  · cases rule
  · split at rule
    · next kind => simp [Tag.pathShape, kind]
    · next kind => simp [Tag.pathShape, kind]
    all_goals cases rule

mutual

/-- Reading a node refuses names fairly, and enters modules under names from the vocabulary. -/
theorem visit_fairly : ∀ (n : Node) (position : Position) (s : Scope), n.All (u.NamesFrom v) → s.From v →
    Fairly v (Scope.From v) (u.visit position n s)
  | ⟨tag, children⟩, position, s, all, known => by
    obtain ⟨here, parts⟩ := Node.all_iff.mp all
    have below := fun positionOf reach s known => visitIn_fairly children positionOf reach s parts known
    have inner := fun positionOf reach => below positionOf reach .empty rfl
    cases position with
    | item =>
      simp only [visit]
      cases rule : Rule.ofKind tag.kind with
      | skip => exact known
      | name => exact fairly_recordName (here.segment (segment_of_ruleOfKind rule)) known
      | path => exact (below _ _ s known).bind fun t known => fairly_recordPath all known
      | call => exact below _ _ s known
      | definition => exact below _ _ _ known.addMacros
      | module =>
        refine (u.fairly_nameOf _).bind fun name named => (inner _ _).bind fun body fine => ?_
        exact known.addItem (named fun n found => here.name (.inr (ruleOfKind_eq_module.mp rule)) found) fine
      | function =>
        refine (u.fairly_nameOf _).bind fun name _ => (inner _ _).bind fun body fine => ?_
        exact known.addItem rfl fine
      | implementation => exact (inner _ _).bind fun body fine => known.addItem rfl fine
      | block => exact (inner _ _).bind fun body fine => known.addItem rfl fine
      | type =>
        simp only
        cases children.find? (·.fills "name") with
        | none => exact below _ _ s known
        | some name =>
          exact (u.fairly_textOf name.toTag).bind fun text _ => below _ _ _ (known.addItem rfl rfl)
      | trait =>
        refine (u.fairly_nameOf _).bind fun name _ => (inner _ _).bind fun body fine => ?_
        exact (Scope.From.addItem known rfl rfl).addItem rfl fine
      | owner => trivial
      | use =>
        simp only
        split
        · refine (importsIn_fairly children .empty _ .first s parts known).bind fun found known => ?_
          exact known.addItem rfl rfl
        · exact known
      | closure => exact below _ _ s known
      | pattern => exact below _ _ s known
      | plain => exact below _ _ s known
    | body => exact below _ _ s known
    | pattern =>
      simp only [visit]
      split
      · exact known
      · next rule =>
        split
        · exact known
        · exact fairly_recordName (here.segment (segment_of_ruleOfKind rule)) known
      · exact (below _ _ s known).bind fun t known => fairly_recordPath all known
      · exact below _ _ s known
      · exact below _ _ s known
    | path =>
      simp only [visit]
      split
      · exact known
      · exact below _ _ s known
      · exact (below _ _ s known).bind fun t known => below _ _ t known
      · exact below _ _ s known
    | parameters => exact below _ _ s known
    | parameter =>
      simp only [visit]
      split
      · exact (u.fairly_textOf tag).bind fun text _ => known.addItem rfl rfl
      · split
        · exact known
        · exact below _ _ s known
    | macroRule => exact below _ _ s known
    | tokens =>
      refine fairly_recordRuns ?_ known
      intro run listed n member
      obtain ⟨shape, names⟩ := Node.all_of_mem_tokenRuns all listed n member
      cases n
      exact names.segment shape
termination_by structural n => n

theorem visitIn_fairly : ∀ (nodes : List Node) (positionOf : Tag → Option Position) (reach : Reach) (s : Scope),
    (∀ n ∈ nodes, n.All (u.NamesFrom v)) → s.From v → Fairly v (Scope.From v) (u.visitIn positionOf reach nodes s)
  | [], _, _, _, _, known => known
  | n :: rest, positionOf, reach, s, all, known => by
    obtain ⟨here, later⟩ := List.forall_mem_cons.mp all
    rw [visitIn]
    split
    · exact visitIn_fairly rest positionOf reach s later known
    · next position _ =>
      refine (visit_fairly n position s here known).bind fun t known => ?_
      cases reach with
      | first => exact known
      | all => exact visitIn_fairly rest positionOf .all t later known
termination_by structural l => l

theorem imports_fairly : ∀ (n : Node) (base : ModulePath) (s : Scope), n.All (u.NamesFrom v) → s.From v →
    Fairly v (fun found => found.1.From v) (u.imports base n s)
  | ⟨tag, children⟩, base, s, all, known => by
    obtain ⟨-, parts⟩ := Node.all_iff.mp all
    have below := fun positionOf reach => visitIn_fairly children positionOf reach s parts known
    have among := fun (p : Node → Bool) n (found : n ∈ children.find? p) => List.mem_of_find?_eq_some found
    simp only [imports]
    split
    · exact importsIn_fairly children base _ .all s parts known
    · refine (below _ _).bind fun t known => (fairly_extendBase parts base tag (among _)).bind fun inner _ => ?_
      exact importsIn_fairly children inner _ .first t parts known
    · exact (below _ _).bind fun t known => (fairly_extendBase parts base tag (among _)).bind fun _ _ => known
    · split
      · trivial
      · next path found =>
        refine (below _ _).bind fun t known => (fairly_usePath (parts path (among _ path found))).bind fun _ _ => ?_
        exact (u.fairly_nameOf _).bind fun _ _ => known
    · exact known
termination_by structural n => n

theorem importsIn_fairly : ∀ (nodes : List Node) (base : ModulePath) (pick : Tag → Bool) (reach : Reach) (s : Scope),
    (∀ n ∈ nodes, n.All (u.NamesFrom v)) → s.From v →
      Fairly v (fun found => found.1.From v) (u.importsIn base pick reach nodes s)
  | [], _, _, _, _, _, known => known
  | n :: rest, base, pick, reach, s, all, known => by
    obtain ⟨here, later⟩ := List.forall_mem_cons.mp all
    rw [importsIn_cons]
    split
    · exact importsIn_fairly rest base pick reach s later known
    · have first : Fairly v (fun found => found.1.From v) (u.importsAt base n s) := by
        unfold importsAt
        split
        · refine (visit_fairly n .path s here known).bind fun t known => ?_
          exact (fairly_importLeaf here base).bind fun _ _ => known
        · exact imports_fairly n base s here known
      refine first.bind fun found known => ?_
      cases reach with
      | first => exact known
      | all => exact (importsIn_fairly rest base pick .all found.1 later known).bind fun _ known => known
termination_by structural l => l

end

theorem scopeTree_fairly (known : u.From v) :
    Fairly v (fun tree => ∃ s : Scope, tree = .file s ∧ s.From v) u.scopeTree.outcome := by
  have built : Fairly v (Scope.From v) u.scope := visit_fairly u.root .body .empty known rfl
  simp only [scopeTree, Traced.outcome_bind, Traced.outcome_lift]
  exact built.bind fun s fine => ⟨s, rfl, fine⟩

end SourceUnit

/-! ### Flattening -/

namespace ModuleMap

mutual

/-- Filing a body refuses names fairly. -/
theorem lift_fairly : ∀ (s : ScopeOf Item) (path : ModulePath) (m : ModuleMap), Scope.From v s →
    Fairly v (fun _ => True) (lift path s m).outcome
  | ⟨items, _, _⟩, path, m, known => by
    obtain ⟨here, below⟩ := Scope.everywhere_iff.mp known
    simp only [lift, Traced.outcome_bind, reserve_outcome, ok_bind]
    exact (stripItems_fairly items path _ here below).bind fun _ _ => trivial
termination_by structural s => s

theorem strip_fairly : ∀ (s : ScopeOf Item) (path : ModulePath) (m : ModuleMap), Scope.From v s →
    Fairly v (fun _ => True) (strip path s m).outcome
  | ⟨items, _, _⟩, path, m, known => by
    obtain ⟨here, below⟩ := Scope.everywhere_iff.mp known
    simp only [strip, Traced.outcome_bind]
    exact (stripItems_fairly items path m here below).bind fun _ _ => trivial
termination_by structural s => s

theorem stripItems_fairly : ∀ (items : List Item) (path : ModulePath) (m : ModuleMap), items.all (Item.isFrom v) = true →
    Scope.everywhereIn (Scope.modulesFrom v) items = true → Fairly v (fun _ => True) (stripItems path items m).outcome
  | [], _, _, _, _ => trivial
  | item :: rest, path, m, here, below => by
    simp only [List.all_cons, Bool.and_eq_true] at here
    simp only [Scope.everywhereIn, Bool.and_eq_true] at below
    simp only [stripItems, Traced.outcome_bind]
    refine (stripItem_fairly item path m here.1 below.1).bind fun found _ => ?_
    exact (stripItems_fairly rest path found.1 here.2 below.2).bind fun _ _ => trivial
termination_by structural l => l

theorem stripItem_fairly : ∀ (item : Item) (path : ModulePath) (m : ModuleMap), item.isFrom v = true →
    Scope.everywhereAt (Scope.modulesFrom v) item = true → Fairly v (fun _ => True) (stripItem path item m).outcome
  | .module name body, path, m, named, below => by
    simp only [stripItem, Traced.outcome_bind, Traced.outcome_lift]
    refine (ModulePath.fairly_joinText named path).bind fun inner _ => ?_
    exact (lift_fairly body inner m below).bind fun _ _ => trivial
  | .generic _ body, path, m, _, below => by
    simp only [stripItem, Traced.outcome_bind]
    exact (strip_fairly body path m below).bind fun _ _ => trivial
  | .block body, path, m, _, below => by
    simp only [stripItem, Traced.outcome_bind]
    exact (strip_fairly body path m below).bind fun _ _ => trivial
  | .imports _, _, _, _, _ => trivial
  | .type _, _, _, _, _ => trivial
  | .file _, _, _, _, _ => trivial
  | .bare _, _, _, _, _ => trivial
termination_by structural item => item

end

theorem ofTree_fairly {s : Scope} (known : s.From v) : Fairly v (fun _ => True) (ofTree (.file s)).outcome := by
  simp only [ofTree, Traced.outcome_bind]
  exact (lift_fairly s .crate {} known).bind fun _ _ => trivial

end ModuleMap

end CrateFold
