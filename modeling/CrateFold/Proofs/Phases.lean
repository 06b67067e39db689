import CrateFold.Bundle
import CrateFold.Proofs.Cutting
import CrateFold.Proofs.Expansion
import CrateFold.Proofs.Utf8Text

/-!
The phases of a bundling run. Loading, the scope tree, the module map and the search do not depend on whether the
crate is to be pruned (`bundle_cases`); pruning comes last, and its result or its error is all that the choice
makes a difference to (`bundle_of_analysed`). A run that returns is complete, or it is stopped with no text and
the results of the phases before (`bundle_failFast`).
-/
namespace CrateFold

/-! ### Units that have been read -/

namespace SourceUnit

variable {u v : SourceUnit} {grammar : Grammar} {live : Liveness} {bytes : Bytes} {name : String} {error : BundleError}

theorem valid_of_parse (parsed : (parse grammar bytes name).outcome = .ok u) : Utf8.invalid? bytes = none := by
  unfold parse at parsed
  split at parsed
  · cases parsed
  · assumption

/-- The text of a unit that has been read is written as its bytes. -/
theorem encode_text (parsed : (parse grammar bytes name).outcome = .ok u) : Utf8.encode u.text = bytes := by
  have valid := valid_of_parse parsed
  obtain rfl := Workspace.parse_eq_ok parsed
  exact Utf8.encode_decodeLossy valid

theorem applyFrom_ne_bundle (source : Bytes) (file : FilePath) (edits : List Edit) (position : Nat) :
    Edit.applyFrom source file position edits ≠ .error (.bundle error) := by
  induction edits generalizing position with
  | nil => simp [Edit.applyFrom]
  | cons edit rest ih =>
    intro failed
    rw [Edit.applyFrom] at failed
    split at failed
    · cases failed
    · rcases bind_eq_error.mp failed with later | ⟨_, -, impossible⟩
      · exact ih edit.stop later
      · cases impossible

/-- What a pruned unit is: the unit itself if nothing is removed, or else what is left of its text, read again. -/
theorem prune_eq_ok (pruned : (u.prune grammar live).outcome = .ok v) : ∃ edits, (u.removals live).outcome = .ok edits ∧
    (edits = [] ∧ v = u ∨ ∃ bytes, u.splice edits = .ok bytes ∧ (parse grammar bytes u.path.text).outcome = .ok v) := by
  simp only [prune, pruned?, Traced.outcome_bind] at pruned
  obtain ⟨found, made, pruned⟩ := bind_eq_ok.mp pruned
  cases pruned
  obtain ⟨edits, removed, made⟩ := bind_eq_ok.mp made
  refine ⟨edits, removed, ?_⟩
  split at made
  · next none =>
    cases made
    exact .inl ⟨List.isEmpty_iff.mp none, rfl⟩
  · simp only [Traced.outcome_bind, Traced.outcome_record, Traced.outcome_lift, ok_bind] at made
    obtain ⟨bytes, spliced, made⟩ := bind_eq_ok.mp made
    obtain ⟨read, parsed, made⟩ := bind_eq_ok.mp made
    cases made
    exact .inr ⟨bytes, spliced, parsed⟩

/-- What is left of a unit without its dead modules is refused when it is read again. -/
def RereadFails (u : SourceUnit) (grammar : Grammar) (live : Liveness) (error : BundleError) : Prop :=
  ∃ edits bytes, (u.removals live).outcome = .ok edits ∧ u.splice edits = .ok bytes ∧
    (parse grammar bytes u.path.text).outcome = .error (.bundle error)

/-- Pruning is stopped by a name that is refused or by what is left of the text. -/
theorem prune_eq_error (failed : (u.prune grammar live).outcome = .error (.bundle error)) :
    u.RereadFails grammar live error ∨ u.Refuses error u.root.children := by
  simp only [prune, pruned?, Traced.outcome_bind] at failed
  rcases bind_eq_error.mp failed with failed | ⟨_, -, impossible⟩
  · rcases bind_eq_error.mp failed with walked | ⟨edits, removed, failed⟩
    · exact .inr (removals_refused walked)
    split at failed
    · cases failed
    · simp only [Traced.outcome_bind, Traced.outcome_record, Traced.outcome_lift, ok_bind] at failed
      rcases bind_eq_error.mp failed with spliced | ⟨bytes, spliced, failed⟩
      · exact absurd spliced (applyFrom_ne_bundle _ _ _ _)
      rcases bind_eq_error.mp failed with reread | ⟨_, -, impossible⟩
      · exact .inl ⟨edits, bytes, removed, spliced, reread⟩
      · cases impossible
  · cases impossible

end SourceUnit

namespace Workspace

variable {w : Workspace} {file : FilePath} {unit : SourceUnit} {root : String}

/-! ### What is loaded -/

theorem freshUnit_of_runs {module : ModulePath} {origin : Origin} {t : Loading}
    (run : (w.openUnit file module origin).Runs {} unit t) : w.freshUnit file module origin = .ok unit := by
  cases absolute : w.fileSystem.resolve file with
  | error fault =>
    unfold openUnit at run
    obtain ⟨_, _, lifted, -⟩ := Loader.runs_bind.mp run
    rw [absolute] at lifted
    cases (Loader.runs_liftExcept.mp lifted).1
  | ok resolved =>
    have none : w.Genuine ({} : Loading).files := by simp [Genuine]
    obtain ⟨outcome, -⟩ : w.Agrees (fun unit fresh => unit.SameText fresh ∧ (({} : Loading).files = [] → unit = fresh)) {}
      (w.openUnit file module origin) (w.freshUnit file module origin) :=
        openUnit_agrees ⟨rfl, rfl⟩ absolute (.inr rfl) none
    rw [show (w.openUnit file module origin).run.run {} = (.ok unit, t) from run] at outcome
    cases fresh : w.freshUnit file module origin with
    | error fault =>
      rw [fresh] at outcome
      cases outcome
    | ok other =>
      rw [fresh] at outcome
      rw [outcome.2 rfl]

/-- A loaded unit has been read. If its bytes are those of the root file, all its declarations are well formed. -/
theorem load_parsed (loaded : (w.load file).start.1 = .ok unit) :
    (∃ name, (SourceUnit.parse w.grammar unit.bytes name).outcome = .ok unit) ∧
      (w.fileSystem.read file = .ok unit.bytes →
        ∀ entry ∈ unit.declarations .crate, ∃ declaration, entry = .ok declaration) := by
  have run : (w.load file).Runs {} unit (w.load file).start.2 := Prod.ext loaded rfl
  obtain ⟨root, start, opened, run⟩ := Loader.runs_bind.mp run
  obtain ⟨kept, held, -⟩ := openUnit_runs opened (.inr rfl) (by simp [Kept])
  obtain ⟨bytes, later, inlined, run⟩ := Loader.runs_bind.mp run
  obtain ⟨c, _, lifted, inlined⟩ := Loader.runs_bind.mp inlined
  obtain ⟨-, rfl⟩ := Loader.runs_liftExcept.mp lifted
  obtain ⟨edits, _, below, inlined⟩ := Loader.runs_bind.mp inlined
  obtain ⟨-, -, -, all, -⟩ := bodies_runs _ root c _ _ _ edits rfl kept below
  split at run
  · obtain ⟨rfl, rfl⟩ := Loader.runs_pure.mp run
    have fresh := freshUnit_of_runs opened
    rw [freshUnit, held.read] at fresh
    exact ⟨⟨file.text, fresh⟩, fun _ => all⟩
  · next changed =>
    obtain ⟨_, _, got, run⟩ := Loader.runs_bind.mp run
    obtain ⟨_, _, noted, run⟩ := Loader.runs_bind.mp run
    obtain ⟨parsed, -⟩ := Loader.runs_lift.mp run
    obtain rfl := parse_eq_ok parsed
    refine ⟨⟨file.text, parsed⟩, fun same => absurd ?_ changed⟩
    rw [held.read] at same
    simpa using (Except.ok.inj same).symm

theorem outcome_loadPhase : (w.loadPhase root).outcome = (w.load (FilePath.ofString root)).start.1 := by
  simp only [loadPhase, Loader.traced, Loader.start, run_bind]
  rcases (w.load (FilePath.ofString root)).run.run {} with ⟨fault | unit, t⟩ <;> rfl

theorem outcome_flattenPhase (tree : Item) : (flattenPhase tree).outcome = (ModuleMap.ofTree tree).outcome := by
  simp only [flattenPhase, Traced.outcome_bind, Traced.outcome_record, ok_bind, Traced.outcome_pure]
  cases (ModuleMap.ofTree tree).outcome <;> rfl

/-! ### The phases -/

/-- How a run ends that a fault has stopped: an error of the run is part of the result. -/
def settle (r : BundleResult) : Fault → Except Fault BundleResult
  | .bundle error => .ok { r with unit := none, error := some error }
  | fault => .error fault

section

variable {α : Type} {r : BundleResult} {phase : Traced α} {next : α → Traced BundleResult}

theorem proceed_ok {a : α} (done : phase.outcome = .ok a) : (proceed root r phase next).outcome = (next a).outcome := by
  simp [proceed, Traced.attempt, done]

theorem proceed_error {fault : Fault} (failed : phase.outcome = .error fault) :
    (proceed root r phase next).outcome = settle r fault := by
  cases fault <;> simp [proceed, Traced.attempt, failed, settle, stopped]

end

/-- The crate is loaded and analysed. -/
structure Analysed (w : Workspace) (root : String) (unit : SourceUnit) (tree : Item) (modules : ModuleMap)
    (live : Liveness) : Prop where
  loaded : (w.load (FilePath.ofString root)).start.1 = .ok unit
  built : unit.scopeTree.outcome = .ok tree
  flattened : (ModuleMap.ofTree tree).outcome = .ok modules
  searched : modules.liveness.outcome = .ok live

/-- The results of the phases up to pruning. -/
def analysis (tree : Item) (modules : ModuleMap) (live : Liveness) : BundleResult :=
  { scopeTree := some tree, modules := some modules, liveness := some live }

variable {tree : Item} {modules : ModuleMap} {live : Liveness}

/-- Only pruning depends on whether the crate is to be pruned. -/
theorem bundle_of_analysed (analysed : w.Analysed root unit tree modules live) (prune : Bool) :
    (w.bundle root prune).outcome = (proceed root (analysis tree modules live)
      (if prune then unit.prune w.grammar live else pure unit) fun final =>
        pure { analysis tree modules live with unit := some final }).outcome := by
  unfold bundle
  rw [proceed_ok (outcome_loadPhase.trans analysed.loaded), proceed_ok analysed.built,
    proceed_ok ((outcome_flattenPhase tree).trans analysed.flattened), proceed_ok analysed.searched]
  rfl

theorem bundle_unpruned (analysed : w.Analysed root unit tree modules live) :
    (w.bundle root false).outcome = .ok { analysis tree modules live with unit := some unit } := by
  rw [bundle_of_analysed analysed false]
  exact proceed_ok rfl

end Workspace

namespace BundleResult

/-- The results of the phases form a beginning of scope tree, module map and liveness. -/
structure Leading (r : BundleResult) : Prop where
  modules : r.modules.isSome = true → r.scopeTree.isSome = true
  liveness : r.liveness.isSome = true → r.modules.isSome = true

/-- A result with a unit, all phases and no error. -/
structure Complete (r : BundleResult) : Prop where
  error : r.error = none
  unit : r.unit.isSome = true
  scopeTree : r.scopeTree.isSome = true
  modules : r.modules.isSome = true
  liveness : r.liveness.isSome = true

/-- A result with an error, no text and the phases that were finished before. -/
structure Stopped (r : BundleResult) : Prop extends Leading r where
  error : r.error.isSome = true
  unit : r.unit = none
  text : r.text = ""

end BundleResult

namespace Workspace

variable {w : Workspace} {root : String} {r s : BundleResult} {fault : Fault} {unit : SourceUnit} {tree : Item}
  {modules : ModuleMap} {live : Liveness} {error : BundleError} {prune : Bool}

theorem settle_eq_ok (settled : settle r fault = .ok s) :
    ∃ error, fault = .bundle error ∧ s = { r with unit := none, error := some error } := by
  cases fault with
  | bundle error =>
    cases settled
    exact ⟨error, rfl, rfl⟩
  | _ => cases settled

theorem stopped_of_settle (leading : r.Leading) (settled : settle r fault = .ok s) : s.Stopped := by
  obtain ⟨error, rfl, rfl⟩ := settle_eq_ok settled
  exact ⟨⟨leading.modules, leading.liveness⟩, rfl, rfl, rfl⟩

/-- A crate is loaded and analysed, or its run is stopped before pruning, in one way for both choices. -/
theorem bundle_cases (w : Workspace) (root : String) : (∃ unit tree modules live, w.Analysed root unit tree modules live) ∨
    ∃ r fault, BundleResult.Leading r ∧ ∀ prune, (w.bundle root prune).outcome = settle r fault := by
  cases loaded : (w.load (FilePath.ofString root)).start.1 with
  | error fault =>
    refine .inr ⟨{}, fault, ⟨by simp, by simp⟩, fun prune => ?_⟩
    exact proceed_error (outcome_loadPhase.trans loaded)
  | ok unit =>
    have first := outcome_loadPhase.trans loaded
    cases built : unit.scopeTree.outcome with
    | error fault =>
      refine .inr ⟨{}, fault, ⟨by simp, by simp⟩, fun prune => ?_⟩
      exact (proceed_ok first).trans (proceed_error built)
    | ok tree =>
      cases flattened : (ModuleMap.ofTree tree).outcome with
      | error fault =>
        refine .inr ⟨{ scopeTree := some tree }, fault, ⟨by simp, by simp⟩, fun prune => ?_⟩
        exact (proceed_ok first).trans ((proceed_ok built).trans
          (proceed_error ((outcome_flattenPhase tree).trans flattened)))
      | ok modules =>
        cases searched : modules.liveness.outcome with
        | error fault =>
          refine .inr ⟨{ scopeTree := some tree, modules := some modules }, fault, ⟨by simp, by simp⟩, fun prune => ?_⟩
          exact (proceed_ok first).trans ((proceed_ok built).trans
            ((proceed_ok ((outcome_flattenPhase tree).trans flattened)).trans (proceed_error searched)))
        | ok live => exact .inl ⟨unit, tree, modules, live, loaded, built, flattened, searched⟩

/-! ### Pruning as the last phase -/

/-- What pruning does to a unit: the text that is left is that of the unit without the stretches of the removals, and
that of the unit itself if all modules met are live. -/
structure Prunes (unit : SourceUnit) (live : Liveness) (text : String) : Prop where
  cut : ∃ edits, (unit.removals live).outcome = .ok edits ∧
    Utf8.encode text = (Utf8.encode unit.text).without (edits.map Edit.range)
  same : (∀ p path, unit.Meets live p path → live.isLive path = true) → text = unit.text

theorem prunes_of_prune {grammar : Grammar} {name : String} {final : SourceUnit} (ordered : unit.root.ordered = true)
    (read : (SourceUnit.parse grammar unit.bytes name).outcome = .ok unit)
    (pruned : (unit.prune grammar live).outcome = .ok final) : Prunes unit live final.text := by
  obtain ⟨edits, removed, ⟨rfl, rfl⟩ | ⟨bytes, spliced, parsed⟩⟩ := SourceUnit.prune_eq_ok pruned
  · exact ⟨⟨[], removed, Bytes.withoutFrom_nil.symm⟩, fun _ => rfl⟩
  · have left := SourceUnit.without_of_splice spliced (SourceUnit.removals_cut ordered removed)
    refine ⟨⟨edits, removed, ?_⟩, fun all => ?_⟩
    · rw [SourceUnit.encode_text parsed, SourceUnit.encode_text read, left]
    · obtain rfl := SourceUnit.removals_of_live all removed
      rw [List.map_nil] at left
      obtain rfl := parse_eq_ok parsed
      rw [SourceUnit.text, SourceUnit.text, left, Bytes.without, Bytes.withoutFrom_nil]

/-- Why a crate that is bundled without pruning is not bundled with it: what is left of its text is refused when it is
read again, or files were put in place and the tree of the text so made has a module whose name starts with `::`. -/
inductive PruningFails (w : Workspace) (root : String) (unit : SourceUnit) (live : Liveness) (error : BundleError) : Prop where
  | reread (fails : unit.RereadFails w.grammar live error)
  | refused (inlined : w.fileSystem.read (FilePath.ofString root) ≠ .ok unit.bytes)
      (refuses : unit.Refuses error unit.root.children)

theorem pruningFails_of_prune (loaded : (w.load (FilePath.ofString root)).start.1 = .ok unit)
    (failed : (unit.prune w.grammar live).outcome = .error (.bundle error)) : w.PruningFails root unit live error := by
  rcases SourceUnit.prune_eq_error failed with reread | refuses
  · exact .reread reread
  · refine .refused (fun same => ?_) refuses
    obtain ⟨declaration, impossible⟩ := (load_parsed loaded).2 same _ (refuses.mem_declarations .crate)
    cases impossible

/-- A run that comes to pruning ends with the pruned unit or with the error of pruning. -/
theorem bundle_pruned (analysed : w.Analysed root unit tree modules live) (ended : (w.bundle root true).outcome = .ok s) :
    (∃ final, (unit.prune w.grammar live).outcome = .ok final ∧ s = { analysis tree modules live with unit := some final }) ∨
      ∃ error, (unit.prune w.grammar live).outcome = .error (.bundle error) ∧
        s = { analysis tree modules live with error := some error } := by
  rw [bundle_of_analysed analysed true] at ended
  cases pruned : (unit.prune w.grammar live).outcome with
  | ok final =>
    rw [proceed_ok (by simpa using pruned)] at ended
    cases ended
    exact .inl ⟨final, rfl, rfl⟩
  | error fault =>
    rw [proceed_error (by simpa using pruned)] at ended
    obtain ⟨error, rfl, rfl⟩ := settle_eq_ok ended
    exact .inr ⟨error, rfl, rfl⟩

theorem complete_or_stopped (ended : (w.bundle root prune).outcome = .ok r) : r.Complete ∨ r.Stopped := by
  rcases bundle_cases w root with ⟨unit, tree, modules, live, analysed⟩ | ⟨before, fault, leading, outcome⟩
  · cases prune with
    | false =>
      rw [bundle_unpruned analysed] at ended
      cases ended
      exact .inl ⟨rfl, rfl, rfl, rfl, rfl⟩
    | true =>
      rcases bundle_pruned analysed ended with ⟨final, -, rfl⟩ | ⟨error, -, rfl⟩
      · exact .inl ⟨rfl, rfl, rfl, rfl, rfl⟩
      · exact .inr ⟨⟨fun _ => rfl, fun _ => rfl⟩, rfl, rfl, rfl⟩
  · rw [outcome prune] at ended
    exact .inr (stopped_of_settle leading ended)

theorem text_of_unpruned (ended : (w.bundle root false).outcome = .ok r) (complete : r.error = none) :
    ∃ unit, (w.load (FilePath.ofString root)).start.1 = .ok unit ∧ r.unit = some unit ∧ r.text = unit.text := by
  rcases bundle_cases w root with ⟨unit, tree, modules, live, analysed⟩ | ⟨before, fault, -, outcome⟩
  · rw [bundle_unpruned analysed] at ended
    cases ended
    exact ⟨unit, analysed.loaded, rfl, rfl⟩
  · rw [outcome false] at ended
    obtain ⟨error, -, rfl⟩ := settle_eq_ok ended
    cases complete

/-- Bundling is fail-fast. A run that returns is complete, or stopped without a text. The phases do not depend on
whether the crate is to be pruned. Without pruning the text is that of the loaded crate; with pruning it is
that text with the stretches of dead modules taken out, and a run that fails only with pruning fails for the text
that pruning leaves or for a name in files put in place. -/
theorem bundle_failFast (ordered : ∀ bytes, (w.grammar bytes).ordered = true) (root : String) :
    (∀ prune r, (w.bundle root prune).outcome = .ok r → r.Complete ∨ r.Stopped) ∧
      (∀ r, (w.bundle root false).outcome = .ok r → r.error = none →
        ∃ unit, (w.load (FilePath.ofString root)).start.1 = .ok unit ∧ r.unit = some unit ∧ r.text = unit.text) ∧
      ∀ s, (w.bundle root true).outcome = .ok s → ∃ r, (w.bundle root false).outcome = .ok r ∧
        r.scopeTree = s.scopeTree ∧ r.modules = s.modules ∧ r.liveness = s.liveness ∧
        (s.error = none → r.error = none ∧ ∃ unit live, r.unit = some unit ∧ r.liveness = some live ∧
          Prunes unit live s.text) ∧
        ∀ error, s.error = some error → r.error = some error ∨ r.error = none ∧
          ∃ unit live, r.unit = some unit ∧ r.liveness = some live ∧ w.PruningFails root unit live error := by
  refine ⟨fun prune r => complete_or_stopped, fun r => text_of_unpruned, ?_⟩
  intro s ended
  rcases bundle_cases w root with ⟨unit, tree, modules, live, analysed⟩ | ⟨before, fault, -, outcome⟩
  · obtain ⟨⟨name, read⟩, -⟩ := load_parsed analysed.loaded
    have fine : unit.root.ordered = true := by
      rw [parse_eq_ok read]
      exact ordered unit.bytes
    refine ⟨_, bundle_unpruned analysed, ?_⟩
    rcases bundle_pruned analysed ended with ⟨final, pruned, rfl⟩ | ⟨error, failed, rfl⟩
    · refine ⟨rfl, rfl, rfl, fun _ => ⟨rfl, unit, live, rfl, rfl, prunes_of_prune fine read pruned⟩, ?_⟩
      intro error impossible
      cases impossible
    · refine ⟨rfl, rfl, rfl, ?_, ?_⟩
      · intro impossible
        cases impossible
      intro raised same
      cases same
      exact .inr ⟨rfl, unit, live, rfl, rfl, pruningFails_of_prune analysed.loaded failed⟩
  · -- the run was stopped before pruning, so both runs are the same
    have same : (w.bundle root false).outcome = .ok s := by rw [outcome false, ← outcome true, ended]
    rw [outcome true] at ended
    obtain ⟨error, -, rfl⟩ := settle_eq_ok ended
    refine ⟨_, same, rfl, rfl, rfl, ?_, fun raised set => .inl set⟩
    intro impossible
    cases impossible

/-- A crate with a module that nothing refers to. -/
def deadModule : Workspace where
  fileSystem := { files := [(["lib.rs"], Utf8.encode "mod a \x7b\x7d\n")] }
  grammar bytes :=
    if bytes == Utf8.encode "mod a \x7b\x7d\n" then
      fileNode 9 [moduleNode ⟨{ kind := "declaration_list", named := true, start := 6, stop := 8, field := some "body" }, []⟩]
    else fileNode bytes.length []

theorem bundle_deadModule : (∀ bytes, (deadModule.grammar bytes).ordered = true) ∧ ∃ r s unit live,
    (deadModule.bundle "lib.rs" false).outcome = .ok r ∧ (deadModule.bundle "lib.rs" true).outcome = .ok s ∧
    s.text = "\n" ∧ r.unit = some unit ∧ r.liveness = some live ∧ Prunes unit live s.text := by
  have ordered : ∀ bytes, (deadModule.grammar bytes).ordered = true := by
    intro bytes
    simp only [deadModule]
    split
    · decide
    · simp [fileNode, Node.ordered_iff, Node.orderedIn]
  have found : (deadModule.bundle "lib.rs" true).outcome.toOption.map (fun s => (s.text, s.error)) =
      some ("\n", none) := by decide +kernel
  cases ended : (deadModule.bundle "lib.rs" true).outcome with
  | error fault => simp [ended, Except.toOption] at found
  | ok s =>
    obtain ⟨text, complete⟩ : s.text = "\n" ∧ s.error = none := by simpa [ended, Except.toOption] using found
    obtain ⟨r, plain, -, -, -, pruned, -⟩ := (bundle_failFast ordered "lib.rs").2.2 s ended
    obtain ⟨-, unit, live, inside, searched, prunes⟩ := pruned complete
    exact ⟨ordered, r, s, unit, live, plain, rfl, text, inside, searched, prunes⟩

/-- A crate whose module file holds `::`, which the grammar takes for the name of a module once it is in place. -/
def looseName : Workspace where
  fileSystem := { files := [(["lib.rs"], Utf8.encode "mod a;\n"), (["a.rs"], Utf8.encode "::")] }
  grammar bytes :=
    if bytes == Utf8.encode "mod a;\n" then fileNode 7 [moduleNode (tokenNode ";" 5 6)]
    else if bytes == Utf8.encode "mod a \x7b\n::\n\x7d\n" then
      fileNode 13 [⟨{ kind := "visibility_modifier", named := true, start := 8, stop := 10 }, [
        ⟨{ kind := "mod_item", named := true, start := 8, stop := 10 }, [
          ⟨{ kind := "identifier", named := true, start := 8, stop := 10, field := some "name" }, []⟩]⟩]⟩]
    else fileNode bytes.length []

/-- What is left of the text is not all that pruning can fail for: a run may fail only with pruning, and have no text
to be read again. -/
theorem not_failsOnlyReread : ¬ ∀ (w : Workspace) (root : String), (∀ bytes, (w.grammar bytes).ordered = true) →
    ∀ s, (w.bundle root true).outcome = .ok s → s.error ≠ none →
      (∃ r, (w.bundle root false).outcome = .ok r ∧ r.error ≠ none) ∨
        ∃ r unit live error, (w.bundle root false).outcome = .ok r ∧ r.unit = some unit ∧ r.liveness = some live ∧
          unit.RereadFails w.grammar live error := by
  intro all
  have ordered : ∀ bytes, (looseName.grammar bytes).ordered = true := by
    intro bytes
    simp only [looseName]
    split
    · decide
    · split
      · decide
      · simp [fileNode, Node.ordered_iff, Node.orderedIn]
  have failed : (looseName.bundle "lib.rs" true).outcome.toOption.map (fun s => s.error.isSome) = some true := by
    decide +kernel
  have plain : (looseName.bundle "lib.rs" false).outcome.toOption.map (fun r => (r.error,
      r.unit.bind fun unit => r.liveness.map fun live => (unit.removals live).outcome.toOption.isSome)) =
        some (none, some false) := by decide +kernel
  cases ended : (looseName.bundle "lib.rs" true).outcome with
  | error fault => simp [ended, Except.toOption] at failed
  | ok s =>
    have raised : s.error.isSome = true := by simpa [ended, Except.toOption] using failed
    have error : s.error ≠ none := by
      intro none
      rw [none] at raised
      cases raised
    rcases all looseName "lib.rs" ordered s ended error with ⟨r, run, wrong⟩ | ⟨r, unit, live, _, run, inside, searched, fails⟩
    · rw [run] at plain
      simp only [Except.toOption, Option.map_some, Option.some.injEq, Prod.mk.injEq] at plain
      exact wrong plain.1
    · obtain ⟨edits, _, removed, -⟩ := fails
      rw [run] at plain
      simp [Except.toOption, inside, searched, removed] at plain

end Workspace

end CrateFold
