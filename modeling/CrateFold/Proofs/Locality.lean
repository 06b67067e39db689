import CrateFold.Proofs.Building
import Mathlib.Data.List.Nodup

/-!
Reading is local: what a node adds to a scope does not depend on what the scope holds. Reading a node into a
scope gives the scope with what reading the node into the empty scope gives added to it (`visit_local`), or
the same fault. So the scope of siblings is put together from those of the single siblings (`visitIn_cons`).
A scope whose accesses are distinct keeps them so, and what is added to it is merged with it; the scope of a
file is the merge of those of its parts (`visit_merge`).
-/
namespace CrateFold

theorem insertNew_of_mem {α : Type} [BEq α] [LawfulBEq α] {l : List α} {a : α} (member : a ∈ l) : insertNew l a = l := by
  simp [insertNew, member]

theorem mem_foldl_insertNew {α : Type} [BEq α] [LawfulBEq α] {l new : List α} {a : α} :
    a ∈ new.foldl insertNew l ↔ a ∈ l ∨ a ∈ new := by
  induction new generalizing l with
  | nil => simp
  | cons first rest ih =>
    rw [List.foldl_cons, ih, mem_insertNew, List.mem_cons, or_assoc]

theorem foldl_insertNew_insertNew {α : Type} [BEq α] [LawfulBEq α] (l new : List α) (a : α) :
    (insertNew new a).foldl insertNew l = insertNew (new.foldl insertNew l) a := by
  by_cases member : a ∈ new
  · rw [insertNew_of_mem member, insertNew_of_mem (mem_foldl_insertNew.mpr (.inr member))]
  · have fresh : insertNew new a = new ++ [a] := by simp [insertNew, member]
    rw [fresh, List.foldl_append]
    rfl

theorem foldl_insertNew_foldl {α : Type} [BEq α] [LawfulBEq α] (l new more : List α) :
    (more.foldl insertNew new).foldl insertNew l = more.foldl insertNew (new.foldl insertNew l) := by
  induction more generalizing new with
  | nil => rfl
  | cons a rest ih => rw [List.foldl_cons, ih, foldl_insertNew_insertNew, List.foldl_cons]

theorem nodup_insertNew {α : Type} [BEq α] [LawfulBEq α] {l : List α} {a : α} (distinct : l.Nodup) : (insertNew l a).Nodup := by
  unfold insertNew
  split
  · exact distinct
  · next fresh =>
    refine List.nodup_append.mpr ⟨distinct, List.nodup_singleton a, ?_⟩
    rintro b member _ single rfl
    rw [List.mem_singleton.mp single] at member
    simp [member] at fresh

theorem nodup_foldl_insertNew {α : Type} [BEq α] [LawfulBEq α] {l new : List α} (distinct : l.Nodup) :
    (new.foldl insertNew l).Nodup := by
  induction new generalizing l with
  | nil => exact distinct
  | cons a rest ih => exact ih (nodup_insertNew distinct)

/-- Distinct elements are all seen for the first time. -/
theorem firstSeen_of_nodup {α : Type} [BEq α] [LawfulBEq α] {l : List α} (distinct : l.Nodup) : firstSeen l = l := by
  induction l using List.reverseRecOn with
  | nil => rfl
  | append_singleton l a ih =>
    obtain ⟨before, -, apart⟩ := List.nodup_append.mp distinct
    have fresh : a ∉ l := fun member => apart a member a (List.mem_singleton.mpr rfl) rfl
    rw [firstSeen, List.foldl_append, ← firstSeen, ih before]
    simp [insertNew, fresh]

namespace Scope

/-- A scope with what another one holds added to it. -/
def absorb (s t : Scope) : Scope :=
  ⟨s.items ++ t.items, t.accesses.foldl insertNew s.accesses, s.definesMacros || t.definesMacros⟩

@[simp] theorem absorb_empty (s : Scope) : s.absorb .empty = s := by
  cases s
  simp [absorb, empty]

theorem absorb_assoc (s t r : Scope) : (s.absorb t).absorb r = s.absorb (t.absorb r) := by
  simp only [absorb, List.append_assoc, Bool.or_assoc, foldl_insertNew_foldl]

/-- What is added to a scope whose accesses are distinct is merged with it. -/
theorem absorb_eq_merge {s : Scope} (distinct : s.accesses.Nodup) (t : Scope) : s.absorb t = s.merge t := by
  have seen : firstSeen (s.accesses ++ t.accesses) = t.accesses.foldl insertNew s.accesses := by
    rw [firstSeen, List.foldl_append, ← firstSeen, firstSeen_of_nodup distinct]
  rw [absorb, merge, ofParts, seen]

theorem nodup_absorb {s : Scope} (distinct : s.accesses.Nodup) (t : Scope) : (s.absorb t).accesses.Nodup :=
  nodup_foldl_insertNew distinct

/-! ### Local readings -/

/-- A reading that adds the same to every scope. -/
def Local (reading : Scope → Except Fault Scope) : Prop := ∀ s, reading s = s.absorb <$> reading .empty

/-- A reading that adds the same to every scope, with a result of its own. -/
def LocalWith {α : Type} (reading : Scope → Except Fault (Scope × α)) : Prop :=
  ∀ s, reading s = (fun found => (s.absorb found.1, found.2)) <$> reading .empty

variable {one two : Scope → Except Fault Scope} {α : Type}

theorem local_ok : Local (fun s => .ok s) := by
  intro s
  simp

theorem local_error (fault : Fault) : Local (fun _ => .error fault) := fun _ => rfl

theorem Local.bind (first : Local one) (second : Local two) : Local (fun s => one s >>= two) := by
  intro s
  simp only
  rw [first s]
  cases found : one .empty with
  | error fault => rfl
  | ok t =>
    simp only [map_ok, ok_bind]
    rw [second (s.absorb t), second t]
    cases two .empty with
    | error fault => rfl
    | ok r => simp [absorb_assoc]

/-- A step that needs what does not depend on the scope is local if it is for every such thing. -/
theorem local_after (needed : Except Fault α) {reading : α → Scope → Except Fault Scope}
    (each : ∀ a, Local (reading a)) : Local (fun s => needed >>= fun a => reading a s) := by
  intro s
  cases needed with
  | error fault => rfl
  | ok a => exact each a s

theorem local_addItem (item : Item) : Local (fun s => .ok (s.addItem item)) := by
  intro s
  simp [addItem, absorb, empty]

theorem local_addMacros : Local (fun s => .ok s.addMacros) := by
  intro s
  simp [addMacros, absorb, empty]

theorem local_addAccess (path : ModulePath) : Local (fun s => .ok (s.addAccess path)) := by
  intro s
  simp [addAccess, absorb, empty, insertNew]

theorem Local.then_with {reading : Scope → Except Fault (Scope × α)} (first : Local one) (second : LocalWith reading) :
    LocalWith (fun s => one s >>= reading) := by
  intro s
  simp only
  rw [first s]
  cases found : one .empty with
  | error fault => rfl
  | ok t =>
    simp only [map_ok, ok_bind]
    rw [second (s.absorb t), second t]
    cases reading .empty with
    | error fault => rfl
    | ok r => simp [absorb_assoc]

theorem LocalWith.bind {β : Type} {first : Scope → Except Fault (Scope × α)} (here : LocalWith first)
    (second : α → Scope → Except Fault (Scope × β)) (later : ∀ a, LocalWith (second a)) :
    LocalWith (fun s => first s >>= fun found => second found.2 found.1) := by
  intro s
  simp only
  rw [here s]
  cases found : first .empty with
  | error fault => rfl
  | ok t =>
    simp only [map_ok, ok_bind]
    rw [later t.2 (s.absorb t.1), later t.2 t.1]
    cases second t.2 .empty with
    | error fault => rfl
    | ok r => simp [absorb_assoc]

theorem localWith_ok (a : α) : LocalWith (fun s => .ok (s, a)) := by
  intro s
  simp

theorem localWith_after {β : Type} (needed : Except Fault β) {reading : β → Scope → Except Fault (Scope × α)}
    (each : ∀ b, LocalWith (reading b)) : LocalWith (fun s => needed >>= fun b => reading b s) := by
  intro s
  cases needed with
  | error fault => rfl
  | ok b => exact each b s

end Scope

namespace SourceUnit

open Scope

variable {u : SourceUnit}

theorem recordAccess_local (segments : List String) : Local (fun s => recordAccess s segments) :=
  local_after _ local_addAccess

theorem recordRuns_local (runs : List (List Node)) : Local (u.recordRuns runs) := by
  induction runs with
  | nil => exact local_ok
  | cons run rest ih =>
    intro s
    simp only [recordRuns]
    cases run.mapM fun n => u.textOf n.toTag with
    | error fault => rfl
    | ok texts =>
      by_cases reference : isReference texts = true
      · simp only [ok_bind, reference, if_true]
        exact (recordAccess_local texts).bind ih s
      · simp only [ok_bind, reference, Bool.false_eq_true, if_false]
        exact ih s

theorem recordPath_local (n : Node) : Local (u.recordPath n) := by
  intro s
  simp only [recordPath]
  cases u.segments n with
  | error fault => rfl
  | ok segments =>
    cases segments with
    | none => exact local_ok s
    | some segments => exact recordAccess_local segments s

mutual

/-- Reading a node adds the same to every scope. -/
theorem visit_local : ∀ (n : Node) (position : Position), Local (u.visit position n)
  | ⟨tag, children⟩, position => by
    have below := fun positionOf reach => visitIn_local children positionOf reach
    intro s
    cases position with
    | item =>
      simp only [visit]
      cases rule : Rule.ofKind tag.kind with
      | skip => exact local_ok s
      | name => exact local_after _ (fun text => recordAccess_local [text]) s
      | path => exact (below _ _).bind (recordPath_local _) s
      | call => exact below _ _ s
      | definition => exact local_addMacros.bind (below _ _) s
      | module => exact local_after _ (fun _ => local_after _ fun _ => local_addItem _) s
      | function => exact local_after _ (fun _ => local_after _ fun _ => local_addItem _) s
      | implementation => exact local_after _ (fun _ => local_addItem _) s
      | block => exact local_after _ (fun _ => local_addItem _) s
      | type =>
        simp only
        cases children.find? (·.fills "name") with
        | none => exact below _ _ s
        | some name => exact local_after _ (fun text => (local_addItem (.type text)).bind (below _ _)) s
      | trait =>
        exact local_after _ (fun name => local_after _ fun body =>
          (local_addItem (.type name)).bind (local_addItem (.generic (some name) body))) s
      | owner => exact local_error _ s
      | use =>
        simp only
        by_cases given : children.any (·.fills "argument") = true
        · simp only [given, if_true]
          rw [importsIn_local children .empty _ _ s]
          cases u.importsIn .empty (·.fills "argument") .first children .empty with
          | error fault => rfl
          | ok found => simp [addItem, absorb]
        · simp only [given, Bool.false_eq_true, if_false]
          exact local_ok s
      | closure => exact below _ _ s
      | pattern => exact below _ _ s
      | plain => exact below _ _ s
    | body => exact below _ _ s
    | pattern =>
      simp only [visit]
      split
      · exact local_ok s
      · split
        · exact local_ok s
        · exact local_after _ (fun text => recordAccess_local [text]) s
      · exact (below _ _).bind (recordPath_local _) s
      · exact below _ _ s
      · exact below _ _ s
    | path =>
      simp only [visit]
      split
      · exact local_ok s
      · exact below _ _ s
      · exact (below _ _).bind (below _ _) s
      · exact below _ _ s
    | parameters => exact below _ _ s
    | parameter =>
      simp only [visit]
      split
      · exact local_after _ (fun text => local_addItem (.type text)) s
      · split
        · exact local_ok s
        · exact below _ _ s
    | macroRule => exact below _ _ s
    | tokens => exact recordRuns_local _ s
termination_by structural n => n

theorem visitIn_local : ∀ (nodes : List Node) (positionOf : Tag → Option Position) (reach : Reach),
    Local (u.visitIn positionOf reach nodes)
  | [], _, _ => local_ok
  | n :: rest, positionOf, reach => by
    have later := visitIn_local rest positionOf reach
    intro s
    simp only [visitIn]
    cases positionOf n.toTag with
    | none => exact later s
    | some position =>
      have here := visit_local n position
      cases reach with
      | first => exact here.bind local_ok s
      | all => exact here.bind later s
termination_by structural l => l

theorem imports_local : ∀ (n : Node) (base : ModulePath), LocalWith (u.imports base n)
  | ⟨tag, children⟩, base => by
    have below := fun positionOf reach => visitIn_local children positionOf reach
    intro s
    simp only [imports]
    cases UseShape.ofKind tag.kind with
    | list => exact importsIn_local children base _ _ s
    | scopedList =>
      exact (below _ _).then_with (localWith_after _ fun inner => importsIn_local children inner _ _) s
    | glob =>
      exact (below _ _).then_with (localWith_after _ fun (inner : ModulePath) =>
        localWith_ok [(⟨some "*", inner.join ⟨["*"]⟩⟩ : Import)]) s
    | renamed =>
      simp only
      cases children.find? (·.fills "path") with
      | none => rfl
      | some path =>
        exact (below _ _).then_with (localWith_after _ fun target => localWith_after _ fun name =>
          localWith_ok [(⟨some name, importTarget (base.join target)⟩ : Import)]) s
    | leaf => exact localWith_ok [] s
termination_by structural n => n

theorem importsIn_local : ∀ (nodes : List Node) (base : ModulePath) (pick : Tag → Bool) (reach : Reach),
    LocalWith (u.importsIn base pick reach nodes)
  | [], _, _, _ => localWith_ok []
  | n :: rest, base, pick, reach => by
    have here : LocalWith (u.importsAt base n) := by
      intro s
      simp only [importsAt]
      split
      · exact (visit_local n .path).then_with (localWith_after _ fun leaf => localWith_ok [leaf]) s
      · exact imports_local n base s
    intro s
    rw [importsIn_cons, importsIn_cons]
    by_cases picked : pick n.toTag = true
    · simp only [picked, Bool.not_true, Bool.false_eq_true, if_false]
      cases reach with
      | first => exact here.bind (fun found s => .ok (s, found)) (fun found => localWith_ok found) s
      | all =>
        refine here.bind (fun found s => u.importsIn base pick .all rest s >>= fun more =>
          .ok (more.1, found ++ more.2)) (fun found => ?_) s
        intro s
        simp only
        rw [importsIn_local rest base pick .all s]
        cases u.importsIn base pick .all rest .empty <;> rfl
    · simp only [picked, Bool.not_false, if_true]
      exact importsIn_local rest base pick reach s
termination_by structural l => l

end

/-- Siblings are read one by one, each into an empty scope. -/
theorem visitIn_cons (positionOf : Tag → Option Position) (n : Node) (rest : List Node) :
    u.visitIn positionOf .all (n :: rest) .empty =
      match positionOf n.toTag with
      | none => u.visitIn positionOf .all rest .empty
      | some position => u.visit position n .empty >>= fun first =>
          first.absorb <$> u.visitIn positionOf .all rest .empty := by
  rw [visitIn]
  cases positionOf n.toTag with
  | none => rfl
  | some position =>
    simp only
    cases u.visit position n .empty with
    | error fault => rfl
    | ok first => exact visitIn_local rest positionOf .all first

/-! ### Merged readings -/

/-- The siblings that have a position, each with its position. -/
def positioned (positionOf : Tag → Option Position) (nodes : List Node) : List (Position × Node) :=
  nodes.filterMap fun n => (positionOf n.toTag).map fun position => (position, n)

/-- The scope of siblings is the merge of their scopes, in order. -/
theorem visitIn_merge (positionOf : Tag → Option Position) (nodes : List Node) {s : Scope} (distinct : s.accesses.Nodup) :
    u.visitIn positionOf .all nodes s = (fun parts => parts.foldl merge s) <$>
      (positioned positionOf nodes).mapM fun part => u.visit part.1 part.2 .empty := by
  induction nodes generalizing s with
  | nil => rfl
  | cons n rest ih =>
    rw [visitIn]
    cases found : positionOf n.toTag with
    | none =>
      have skipped : positioned positionOf (n :: rest) = positioned positionOf rest := by
        simp [positioned, found]
      rw [skipped]
      exact ih distinct
    | some position =>
      have listed : positioned positionOf (n :: rest) = (position, n) :: positioned positionOf rest := by
        simp [positioned, found]
      simp only [listed, List.mapM_cons, visit_local n position s]
      cases u.visit position n .empty with
      | error fault => rfl
      | ok first =>
        have merged := ih (nodup_absorb distinct first)
        rw [absorb_eq_merge distinct] at merged
        simp only [map_ok, ok_bind, absorb_eq_merge distinct, merged]
        cases (positioned positionOf rest).mapM fun part => u.visit part.1 part.2 .empty <;> rfl

/-- Reading only adds, and the same to every scope. At whatever position a node is read, reading it into a scope with
distinct accesses ends in the fault that reading it into the empty scope ends in, or gives the merge of the scope with
what the node gives by itself, whose accesses are distinct again. The scope of a unit is the merge of those of its parts
at the top, in order. -/
theorem visit_merge (u : SourceUnit) :
    (∀ (n : Node) (position : Position) (s : Scope), s.accesses.Nodup →
      u.visit position n s = s.merge <$> u.visit position n .empty ∧
        ∀ t, u.visit position n s = .ok t → t.accesses.Nodup) ∧
    u.scope = (fun parts => parts.foldl merge .empty) <$>
      (positioned (childPosition u.root.kind) u.root.children).mapM fun part => u.visit part.1 part.2 .empty := by
  constructor
  · intro n position s distinct
    have added := visit_local (u := u) n position s
    refine ⟨?_, ?_⟩
    · rw [added, funext (absorb_eq_merge distinct)]
    · intro t read
      rw [added] at read
      obtain ⟨r, -, rfl⟩ := map_eq_ok.mp read
      exact nodup_absorb distinct r
  · have whole : u.scope = u.visitIn (childPosition u.root.kind) .all u.root.children .empty := by
      rw [scope]
      cases u.root
      rfl
    rw [whole]
    exact visitIn_merge _ _ List.nodup_nil

/-- The source `type T = a; fn f() -> b {}`. -/
def twoItems : SourceUnit where
  path := ⟨0, ["lib.rs"]⟩
  bytes := Utf8.encode "type T = a; fn f() -> b \x7b\x7d"
  root := ⟨{ kind := "source_file", named := true, stop := 26 }, [
    ⟨{ kind := "type_item", named := true, stop := 11 }, [
      ⟨{ kind := "type_identifier", named := true, start := 5, stop := 6, field := some "name" }, []⟩,
      ⟨{ kind := "type_identifier", named := true, start := 9, stop := 10, field := some "type" }, []⟩]⟩,
    ⟨{ kind := "function_item", named := true, start := 12, stop := 26 }, [
      ⟨{ kind := "identifier", named := true, start := 15, stop := 16, field := some "name" }, []⟩,
      ⟨{ kind := "type_identifier", named := true, start := 22, stop := 23, field := some "return_type" }, []⟩,
      ⟨{ kind := "block", named := true, start := 24, stop := 26, field := some "body" }, []⟩]⟩]⟩

theorem visit_merge_twoItems :
    [(⟨["b"]⟩ : ModulePath), ⟨["a"]⟩].Nodup ∧
    twoItems.visit .body twoItems.root ⟨[.type "S"], [⟨["b"]⟩, ⟨["a"]⟩], true⟩ =
      .ok ⟨[.type "S", .type "T", .generic (some "f") ⟨[.block Scope.empty], [⟨["b"]⟩], false⟩], [⟨["b"]⟩, ⟨["a"]⟩], true⟩ := by
  have distinct : [(⟨["b"]⟩ : ModulePath), ⟨["a"]⟩].Nodup := by decide
  have alone : twoItems.visit .body twoItems.root .empty =
      .ok ⟨[.type "T", .generic (some "f") ⟨[.block Scope.empty], [⟨["b"]⟩], false⟩], [⟨["a"]⟩], false⟩ := by rfl
  refine ⟨distinct, ?_⟩
  rw [((visit_merge twoItems).1 _ _ _ distinct).1, alone]
  rfl

end SourceUnit

end CrateFold
