import CrateFold.Proofs.PathText
import CrateFold.Proofs.Pruning
import CrateFold.Proofs.Removal
import Mathlib.Data.List.Sort

/-!
What pruning cuts out of a source. Edits that are applied and put nothing in place leave the bytes outside their
stretches (`without_of_splice`), and the removals of dead modules are such edits in a tree of ordered ranges. The
walk removes nothing if all modules that it meets are live (`removals_of_live`). It is stopped by an error of the
run only at a module whose name starts with `::`, which the declarations of the unit report too
(`removals_refused`, `Refuses.mem_declarations`).
-/
namespace CrateFold

namespace Bytes

variable {l : Bytes} {ranges others : List (Nat × Nat)} {low high : Nat}

/-! ### Stretches taken out -/

/-- Whether an offset lies in one of the ranges. -/
def covered (ranges : List (Nat × Nat)) (offset : Nat) : Bool :=
  ranges.any fun range => range.1 ≤ offset && offset < range.2

/-- The bytes of a string that starts at an offset, without those in the ranges. -/
def withoutFrom (ranges : List (Nat × Nat)) : Nat → Bytes → Bytes
  | _, [] => []
  | offset, b :: rest =>
    if covered ranges offset then withoutFrom ranges (offset + 1) rest else b :: withoutFrom ranges (offset + 1) rest

/-- A byte string without the bytes in the ranges. -/
def without (l : Bytes) (ranges : List (Nat × Nat)) : Bytes := l.withoutFrom ranges 0

theorem covered_iff {offset : Nat} :
    covered ranges offset = true ↔ ∃ range ∈ ranges, range.1 ≤ offset ∧ offset < range.2 := by
  simp [covered]

theorem withoutFrom_congr (same : ∀ offset, low ≤ offset → covered ranges offset = covered others offset) :
    withoutFrom ranges low l = withoutFrom others low l := by
  induction l generalizing low with
  | nil => rfl
  | cons b rest ih =>
    have later : withoutFrom ranges (low + 1) rest = withoutFrom others (low + 1) rest :=
      ih fun offset above => same offset (by omega)
    rw [withoutFrom, withoutFrom, same low (Nat.le_refl _), later]

theorem withoutFrom_nil : withoutFrom [] low l = l := by
  induction l generalizing low with
  | nil => rfl
  | cons b rest ih => simp [withoutFrom, covered, ih]

theorem drop_cases (l : Bytes) (n : Nat) :
    (l.drop n = [] ∧ l.drop (n + 1) = []) ∨ ∃ b, l.drop n = b :: l.drop (n + 1) := by
  by_cases inside : n < l.length
  · exact .inr ⟨l[n], List.drop_eq_getElem_cons inside⟩
  · exact .inl ⟨List.drop_eq_nil_of_le (by omega), List.drop_eq_nil_of_le (by omega)⟩

/-- What lies in the ranges is passed over. -/
theorem withoutFrom_covered (upward : low ≤ high)
    (all : ∀ offset, low ≤ offset → offset < high → covered ranges offset = true) :
    withoutFrom ranges low (l.drop low) = withoutFrom ranges high (l.drop high) := by
  induction high, upward using Nat.le_induction with
  | base => rfl
  | succ top above ih =>
    rw [ih fun offset least most => all offset least (by omega)]
    rcases drop_cases l top with ⟨none, next⟩ | ⟨b, next⟩
    · rw [none, next]
      rfl
    · rw [next, withoutFrom, if_pos (all top above (by omega))]

/-- What lies before all ranges stays. -/
theorem withoutFrom_uncovered (upward : low ≤ high)
    (none : ∀ offset, low ≤ offset → offset < high → covered ranges offset = false) :
    withoutFrom ranges low (l.drop low) = l.slice low high ++ withoutFrom ranges high (l.drop high) := by
  induction high, upward using Nat.le_induction with
  | base => simp [slice]
  | succ top above ih =>
    have longer : l.slice low (top + 1) = l.slice low top ++ (l.drop top).take 1 := by
      have width : top + 1 - low = top - low + 1 := by omega
      have back : low + (top - low) = top := by omega
      rw [slice, slice, width, List.take_add, List.drop_drop, back]
    rw [ih fun offset least most => none offset least (by omega), longer]
    rcases drop_cases l top with ⟨nothing, next⟩ | ⟨b, next⟩
    · rw [nothing, next]
      simp [withoutFrom]
    · rw [next, withoutFrom, if_neg (by simp [none top above (by omega)])]
      simp

end Bytes

namespace Edit

variable {edit : Edit} {edits : List Edit} {source bytes : Bytes} {file : FilePath} {position : Nat}

/-- The stretch that an edit replaces. -/
def range (edit : Edit) : Nat × Nat := (edit.start, edit.stop)

/-- An edit that puts nothing in the place of its stretch. -/
structure Cut (edit : Edit) : Prop where
  forward : edit.start ≤ edit.stop
  empty : edit.replacement = []

theorem before_iff {a b : Edit} : a.before b = true ↔ a.start < b.start ∨ a.start = b.start ∧ a.stop ≤ b.stop := by
  simp [before]

instance : Std.Total fun a b : Edit => a.before b = true where
  total a b := by
    simp only [before_iff]
    omega

instance : IsTrans Edit fun a b => a.before b = true where
  trans a b c first second := by
    rw [before_iff] at first second ⊢
    omega

theorem inOrder_eq_insertionSort (edits : List Edit) :
    inOrder edits = edits.insertionSort fun a b => a.before b = true := by
  have inserts : ∀ (edit : Edit) (list : List Edit),
      edit.insertInOrder list = list.orderedInsert (fun a b => a.before b = true) edit := by
    intro edit list
    induction list with
    | nil => rfl
    | cons next rest ih => rw [insertInOrder, List.orderedInsert_cons, ih]
  induction edits with
  | nil => rfl
  | cons edit rest ih => rw [inOrder, List.insertionSort_cons, inserts, ih]

/-- Sorting edits loses none. -/
theorem perm_inOrder (edits : List Edit) : (inOrder edits).Perm edits := by
  rw [inOrder_eq_insertionSort]
  exact List.perm_insertionSort _ edits

theorem mem_inOrder : edit ∈ inOrder edits ↔ edit ∈ edits := (perm_inOrder edits).mem_iff

theorem covered_inOrder (offset : Nat) :
    Bytes.covered ((inOrder edits).map range) offset = Bytes.covered (edits.map range) offset := by
  rw [Bool.eq_iff_iff]
  simp [Bytes.covered, mem_inOrder]

/-- Edits that have been applied from an offset on start there or later. -/
theorem start_of_applyFrom (applied : applyFrom source file position edits = .ok bytes) (cuts : ∀ edit ∈ edits, edit.Cut) :
    ∀ edit ∈ edits, position ≤ edit.start := by
  induction edits generalizing position bytes with
  | nil => simp
  | cons first rest ih =>
    rw [applyFrom] at applied
    split at applied
    · cases applied
    · next behind =>
      obtain ⟨tail, later, -⟩ := bind_eq_ok.mp applied
      intro edit member
      rcases List.mem_cons.mp member with rfl | further
      · omega
      · have := ih later (fun edit member => cuts edit (List.mem_cons_of_mem _ member)) edit further
        have := (cuts first (List.mem_cons_self ..)).forward
        omega

/-- Cuts that are applied leave the bytes outside their stretches. -/
theorem withoutFrom_of_applyFrom (applied : applyFrom source file position edits = .ok bytes)
    (cuts : ∀ edit ∈ edits, edit.Cut) : bytes = Bytes.withoutFrom (edits.map range) position (source.drop position) := by
  have starts := start_of_applyFrom applied cuts
  induction edits generalizing position bytes with
  | nil =>
    cases applied
    exact Bytes.withoutFrom_nil.symm
  | cons edit rest ih =>
    have others := fun other member => cuts other (List.mem_cons_of_mem edit member)
    have forward := (cuts edit (List.mem_cons_self ..)).forward
    rw [applyFrom, if_neg (by have := starts edit (List.mem_cons_self ..); omega)] at applied
    obtain ⟨tail, later, made⟩ := bind_eq_ok.mp applied
    cases made
    have behind := start_of_applyFrom later others
    have uncovered : ∀ offset, offset < edit.start → Bytes.covered ((edit :: rest).map range) offset = false := by
      intro offset before
      rw [Bool.eq_false_iff, ne_eq, Bytes.covered_iff]
      rintro ⟨_, member, least, -⟩
      obtain ⟨other, listed, rfl⟩ := List.mem_map.mp member
      have begins : other.start ≤ offset := least
      rcases List.mem_cons.mp listed with rfl | further
      · omega
      · have := behind other further
        omega
    have inside : ∀ offset, edit.start ≤ offset → offset < edit.stop →
        Bytes.covered ((edit :: rest).map range) offset = true := by
      intro offset least most
      exact Bytes.covered_iff.mpr ⟨edit.range, by simp, least, most⟩
    have beyond : ∀ offset, edit.stop ≤ offset →
        Bytes.covered ((edit :: rest).map range) offset = Bytes.covered (rest.map range) offset := by
      intro offset above
      have outside : ¬ offset < edit.stop := by omega
      simp [Bytes.covered, range, outside]
    rw [Bytes.withoutFrom_uncovered (starts edit (List.mem_cons_self ..)) fun offset _ before => uncovered offset before,
      Bytes.withoutFrom_covered forward inside, Bytes.withoutFrom_congr beyond, ← ih later others behind,
      (cuts edit (List.mem_cons_self ..)).empty, List.append_nil]

end Edit

namespace SourceUnit

variable {u : SourceUnit} {live : Liveness} {edits : List Edit} {error : BundleError}

theorem without_of_splice {bytes : Bytes} (spliced : u.splice edits = .ok bytes) (cuts : ∀ edit ∈ edits, edit.Cut) :
    bytes = u.bytes.without (edits.map Edit.range) := by
  have whole := Edit.withoutFrom_of_applyFrom spliced fun edit member => cuts edit (Edit.mem_inOrder.mp member)
  rw [whole, Bytes.without]
  exact Bytes.withoutFrom_congr fun offset _ => Edit.covered_inOrder offset

/-! ### The removals of a walk -/

/-- The removals in a tree of ordered and nested ranges are cuts. -/
theorem removals_cut (ordered : u.root.ordered = true) (run : (u.removals live).outcome = .ok edits) :
    ∀ edit ∈ edits, edit.Cut := by
  simp only [removals, Traced.outcome_bind] at run
  obtain ⟨⟨found, after⟩, walked, run⟩ := bind_eq_ok.mp run
  cases run
  obtain ⟨removed, listed, -, removes⟩ := deadBelow_removes u.root [] .crate after _ walked
  intro edit member
  obtain ⟨p, chosen, start, stop, empty⟩ : ∃ p ∈ removed, u.Removes p edit := by
    obtain ⟨index, here, rfl⟩ := List.getElem_of_mem member
    have there : index < removed.length := by rw [removes.length_eq]; exact here
    exact ⟨removed[index], List.getElem_mem there, removes.get there here⟩
  obtain ⟨forward, preceded⟩ := Node.placed_preceded u.root [] ordered trivial p (listed.subset chosen)
  have before := removalStart_le preceded start
  exact ⟨by omega, empty⟩

mutual

theorem deadAt_of_live (all : ∀ p path, u.Meets live p path → live.isLive path = true) :
    ∀ (n : Node) (earlier rest : List Node) (path after : ModulePath) (edits : List Edit),
      u.Reached live earlier (n :: rest) path → (u.deadAt live earlier n path).outcome = .ok (edits, after) → edits = []
  | ⟨tag, children⟩, earlier, rest, path, after, edits, call, run => by
    rw [deadAt] at run
    split at run
    · cases run
      rfl
    · next named =>
      have isNamed : tag.named = true := by simpa using named
      split at run
      · next other =>
        split at run
        · cases run
          rfl
        · next looked =>
          exact deadIn_of_live all children [] path after edits
            (.down call isNamed (by simpa using other) (by simpa using looked)) run
      · next module =>
        have isModule : tag.kind = "mod_item" := by simpa using module
        simp only [Traced.outcome_bind] at run
        obtain ⟨name, text, run⟩ := bind_eq_ok.mp run
        obtain ⟨inner, joined, run⟩ := bind_eq_ok.mp run
        rw [Traced.outcome_lift] at text joined
        have pushed : u.modulePath path children = .ok inner := by rw [modulePath, text]; exact joined
        have alive := all ⟨⟨tag, children⟩, earlier⟩ inner ⟨rest, path, call, isNamed, isModule, pushed⟩
        rw [if_pos alive, Traced.outcome_bind] at run
        obtain ⟨⟨found, left⟩, body, run⟩ := bind_eq_ok.mp run
        cases run
        refine deadInBody_of_live all children inner left _ ?_ body
        intro n there
        exact .enter call isNamed isModule pushed alive there
termination_by structural n => n

theorem deadIn_of_live (all : ∀ p path, u.Meets live p path → live.isLive path = true) :
    ∀ (nodes earlier : List Node) (path after : ModulePath) (edits : List Edit),
      u.Reached live earlier nodes path → (u.deadIn live earlier nodes path).outcome = .ok (edits, after) → edits = []
  | [], _, _, _, _, _, run => by
    cases run
    rfl
  | n :: rest, earlier, path, after, edits, call, run => by
    simp only [deadIn, Traced.outcome_bind] at run
    obtain ⟨⟨first, between⟩, here, run⟩ := bind_eq_ok.mp run
    obtain ⟨⟨more, last⟩, later, run⟩ := bind_eq_ok.mp run
    cases run
    rw [deadAt_of_live all n earlier rest path between first call here,
      deadIn_of_live all rest _ between last more (.next call here) later]
    rfl
termination_by structural l => l

theorem deadInBody_of_live (all : ∀ p path, u.Meets live p path → live.isLive path = true) :
    ∀ (nodes : List Node) (path after : ModulePath) (edits : List Edit),
      (∀ body, nodes.find? (·.fills "body") = some body → u.Reached live [] body.children path) →
        (u.deadInBody live nodes path).outcome = .ok (edits, after) → edits = []
  | [], _, _, _, _, run => by
    cases run
    rfl
  | n :: rest, path, after, edits, calls, run => by
    rw [deadInBody] at run
    split at run
    · next body =>
      exact deadBelow_of_live all n path after edits (calls n (by simp [body])) run
    · next other =>
      refine deadInBody_of_live all rest path after edits (fun inner found => calls inner ?_) run
      simpa [other] using found
termination_by structural l => l

theorem deadBelow_of_live (all : ∀ p path, u.Meets live p path → live.isLive path = true) :
    ∀ (n : Node) (path after : ModulePath) (edits : List Edit), u.Reached live [] n.children path →
      (u.deadBelow live n path).outcome = .ok (edits, after) → edits = []
  | ⟨_, children⟩, path, after, edits, call, run => deadIn_of_live all children [] path after edits call run
termination_by structural n => n

end

/-- Nothing is removed if all modules met are live. -/
theorem removals_of_live (all : ∀ p path, u.Meets live p path → live.isLive path = true)
    (run : (u.removals live).outcome = .ok edits) : edits = [] := by
  simp only [removals, Traced.outcome_bind] at run
  obtain ⟨⟨found, after⟩, walked, run⟩ := bind_eq_ok.mp run
  cases run
  exact deadBelow_of_live all u.root .crate after _ .root walked

/-! ### Names that are refused -/

/-- The walk that prunes comes, among siblings or below them, to a module whose name is refused with the error. -/
inductive Refuses (u : SourceUnit) (error : BundleError) : List Node → Prop where
  | here {n : Node} {rest : List Node} {name : String} (named : n.named = true) (module : n.kind = "mod_item")
      (text : u.nameOf (n.child? "name") = .ok name) (leading : [':', ':'] <+: Text.trim name.toList)
      (raised : error = ModulePath.leadingSeparator (String.ofList (Text.trim name.toList))) : Refuses u error (n :: rest)
  | next {n : Node} {rest : List Node} (later : Refuses u error rest) : Refuses u error (n :: rest)
  | down {n : Node} {rest : List Node} (named : n.named = true) (other : n.kind ≠ "mod_item")
      (looked : n.kind ∉ unprunedKinds) (below : Refuses u error n.children) : Refuses u error (n :: rest)
  | enter {n body : Node} {rest : List Node} {name : String} {path : ModulePath} (named : n.named = true)
      (module : n.kind = "mod_item") (text : u.nameOf (n.child? "name") = .ok name)
      (read : ModulePath.parse name = .ok path) (there : n.child? "body" = some body)
      (below : Refuses u error body.children) : Refuses u error (n :: rest)

theorem nameOf_ne_bundle (n : Option Node) : u.nameOf n ≠ .error (.bundle error) := by
  cases n with
  | none => simp [nameOf]
  | some n => exact textOf_ne_bundle n.toTag

theorem belongsToNext_ne_bundle (n : Node) : u.belongsToNext n ≠ .error (.bundle error) := by
  intro failed
  unfold belongsToNext at failed
  split at failed
  · cases failed
  · split at failed
    · rcases bind_eq_error.mp failed with text | ⟨_, -, impossible⟩
      · exact textOf_ne_bundle _ text
      · cases impossible
    · cases failed

theorem removalStart_ne_bundle (earlier : List Node) (start : Nat) :
    u.removalStart start earlier ≠ .error (.bundle error) := by
  induction earlier generalizing start with
  | nil => simp [removalStart]
  | cons n rest ih =>
    intro failed
    rw [removalStart] at failed
    rcases bind_eq_error.mp failed with goes | ⟨goes, -, later⟩
    · exact belongsToNext_ne_bundle n goes
    · cases goes with
      | true => exact ih n.start later
      | false => cases later

/-- Joining fails as the reading of the name does. -/
theorem parse_of_joinText {path : ModulePath} {name : String} {fault : Fault} (failed : path.joinText name = .error fault) :
    ModulePath.parse name = .error fault := by
  rcases bind_eq_error.mp failed with read | ⟨_, -, impossible⟩
  · exact read
  · cases impossible

mutual

/-- The walk is stopped by an error of the run only where it comes to a name that is refused. -/
theorem deadAt_refused : ∀ (n : Node) (earlier rest : List Node) (path : ModulePath),
    (u.deadAt live earlier n path).outcome = .error (.bundle error) → u.Refuses error (n :: rest)
  | ⟨tag, children⟩, earlier, rest, path, failed => by
    rw [deadAt] at failed
    split at failed
    · cases failed
    · next named =>
      have isNamed : tag.named = true := by simpa using named
      split at failed
      · next other =>
        split at failed
        · cases failed
        · next looked =>
          exact .down isNamed (by simpa using other) (by simpa using looked) (deadIn_refused children [] path failed)
      · next module =>
        have isModule : tag.kind = "mod_item" := by simpa using module
        simp only [Traced.outcome_bind, Traced.outcome_lift] at failed
        rcases bind_eq_error.mp failed with unnamed | ⟨name, text, failed⟩
        · exact absurd unnamed (nameOf_ne_bundle _)
        rcases bind_eq_error.mp failed with refused | ⟨inner, joined, failed⟩
        · obtain ⟨leading, raised⟩ := ModulePath.parse_eq_bundle_iff.mp (parse_of_joinText refused)
          exact .here isNamed isModule text leading raised
        split at failed
        · simp only [Traced.outcome_bind] at failed
          rcases bind_eq_error.mp failed with body | ⟨_, -, impossible⟩
          · obtain ⟨read, parsed, -⟩ := bind_eq_ok.mp joined
            obtain ⟨node, there, below⟩ := deadInBody_refused children inner body
            exact .enter isNamed isModule text parsed there below
          · cases impossible
        · simp only [Traced.outcome_bind, Traced.outcome_record, Traced.outcome_lift, ok_bind] at failed
          rcases bind_eq_error.mp failed with start | ⟨_, -, impossible⟩
          · exact absurd start (removalStart_ne_bundle earlier _)
          · cases impossible
termination_by structural n => n

theorem deadIn_refused : ∀ (nodes earlier : List Node) (path : ModulePath),
    (u.deadIn live earlier nodes path).outcome = .error (.bundle error) → u.Refuses error nodes
  | [], _, _, failed => by cases failed
  | n :: rest, earlier, path, failed => by
    simp only [deadIn, Traced.outcome_bind] at failed
    rcases bind_eq_error.mp failed with here | ⟨⟨first, between⟩, -, failed⟩
    · exact deadAt_refused n earlier rest path here
    rcases bind_eq_error.mp failed with later | ⟨_, -, impossible⟩
    · exact .next (deadIn_refused rest _ between later)
    · cases impossible
termination_by structural l => l

theorem deadInBody_refused : ∀ (nodes : List Node) (path : ModulePath),
    (u.deadInBody live nodes path).outcome = .error (.bundle error) →
      ∃ body, nodes.find? (·.fills "body") = some body ∧ u.Refuses error body.children
  | [], _, failed => by cases failed
  | n :: rest, path, failed => by
    rw [deadInBody] at failed
    split at failed
    · next body => exact ⟨n, by simp [body], deadBelow_refused n path failed⟩
    · next other =>
      obtain ⟨body, found, below⟩ := deadInBody_refused rest path failed
      exact ⟨body, by simpa [other] using found, below⟩
termination_by structural l => l

theorem deadBelow_refused : ∀ (n : Node) (path : ModulePath),
    (u.deadBelow live n path).outcome = .error (.bundle error) → u.Refuses error n.children
  | ⟨_, children⟩, path, failed => deadIn_refused children [] path failed
termination_by structural n => n

end

theorem removals_refused (failed : (u.removals live).outcome = .error (.bundle error)) :
    u.Refuses error u.root.children := by
  simp only [removals, Traced.outcome_bind] at failed
  rcases bind_eq_error.mp failed with walked | ⟨_, -, impossible⟩
  · exact deadBelow_refused u.root .crate walked
  · cases impossible

theorem declarationsInBody_of_find? {outer : ModulePath} {body : Node} (nodes : List Node)
    (there : nodes.find? (·.fills "body") = some body) :
    u.declarationsInBody outer nodes = u.declarationsIn outer [] body.children := by
  induction nodes with
  | nil => cases there
  | cons first rest ih =>
    rw [declarationsInBody]
    rw [List.find?_cons] at there
    cases fills : first.toTag.fills "body" with
    | true =>
      simp only [fills, Option.some.injEq] at there
      subst there
      cases first
      rfl
    | false =>
      simp only [fills] at there
      exact ih there

theorem mem_declarationsIn_of_at {n : Node} {rest earlier : List Node} {outer : ModulePath} {entry : Except Fault Declaration}
    (member : entry ∈ u.declarationsAt outer earlier n) : entry ∈ u.declarationsIn outer earlier (n :: rest) := by
  rw [declarationsIn]
  exact List.mem_append_left _ member

/-- A name that the walk refuses is among the declarations, which look into all that the walk looks into. -/
theorem Refuses.mem_declarationsIn {nodes : List Node} (refuses : u.Refuses error nodes) :
    ∀ (outer : ModulePath) (earlier : List Node), .error (.bundle error) ∈ u.declarationsIn outer earlier nodes := by
  induction refuses with
  | @here n rest name named module text leading raised =>
    intro outer earlier
    obtain ⟨tag, children⟩ := n
    have refused : u.modulePath outer children = .error (.bundle error) := by
      simp only [Node.child?] at text
      simp [modulePath, text, ModulePath.joinText, ModulePath.parse_eq_bundle_iff.mpr ⟨leading, raised⟩]
    apply mem_declarationsIn_of_at
    simp only at named module
    simp [declarationsAt, named, module, refused]
  | @next n rest later ih =>
    intro outer earlier
    rw [declarationsIn]
    exact List.mem_append_right _ (ih outer _)
  | @down n rest named other looked below ih =>
    intro outer earlier
    obtain ⟨tag, children⟩ := n
    simp only at named other looked ih
    have open_ : tag.kind ∉ undeclaringKinds := by
      intro closed
      apply looked
      revert closed
      simp only [undeclaringKinds, unprunedKinds, List.mem_cons, List.not_mem_nil, or_false]
      tauto
    apply mem_declarationsIn_of_at
    simpa [declarationsAt, named, other, open_] using ih outer []
  | @enter n body rest name path named module text read there below ih =>
    intro outer earlier
    obtain ⟨tag, children⟩ := n
    have entered : u.modulePath outer children = .ok (outer.join path) := by
      simp only [Node.child?] at text
      simp [modulePath, text, ModulePath.joinText, read]
    have some : children.any (·.fills "body") = true := by
      have found := List.find?_some there
      exact List.any_eq_true.mpr ⟨body, List.mem_of_find?_eq_some there, found⟩
    apply mem_declarationsIn_of_at
    simp only at named module
    have inside := ih (outer.join path) []
    rw [← declarationsInBody_of_find? children there] at inside
    simpa [declarationsAt, named, module, entered, some] using inside

theorem Refuses.mem_declarations (refuses : u.Refuses error u.root.children) (outer : ModulePath) :
    .error (.bundle error) ∈ u.declarations outer := by
  have listed := refuses.mem_declarationsIn outer []
  rw [declarations]
  cases root : u.root
  rw [root] at listed
  exact listed

end SourceUnit

end CrateFold
