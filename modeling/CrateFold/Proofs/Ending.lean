import CrateFold.Proofs.Contexts
import Mathlib.Data.List.Count

/-!
Loading ends. A walk loads a crate by plain recursion over nodes and files; it keeps a record of the calls that it
makes, and it is cut off where it would look at files more than a given number deep (`loadWithin`). A walk that may go
as deep as there are files is never cut off, whatever files include each other: it does what loading does, fault or
not, and makes only calls that are reached from the crate root file, hence in sound contexts (`load_ends`).
-/
namespace CrateFold

/-! ### Walks -/

/-- How a walk stops early. -/
inductive Halt where
  | fault (raised : Fault)
  /-- A file would be looked at deeper than allowed. -/
  | tooDeep

/-- What a walk leaves: what loading has done, and the calls made, in order. -/
structure Ledger where
  loading : Loading := {}
  calls : List Call := []

/-- A step of a walk. -/
abbrev Walk := ExceptT Halt (StateM Ledger)

namespace Walk

variable {α : Type}

/-- A step of loading, in which no call is made. -/
def ofLoader (x : Loader α) : Walk α :=
  ExceptT.mk fun s => ((x.run.run s.loading).1.mapError .fault, { s with loading := (x.run.run s.loading).2 })

/-- A computation that leaves nothing. -/
def ofExcept (e : Except Fault α) : Walk α := ofLoader (.ofTraced (.ofExcept e))

/-- Makes a call. -/
def enter (call : Call) : Walk Unit := modify fun s => { s with calls := s.calls ++ [call] }

/-- Runs a walk from the start. -/
def start (x : Walk α) : Except Halt α × Ledger := x.run.run {}

end Walk

namespace Workspace

section

variable (w : Workspace) (directory : FilePath) (below : Context → SourceUnit → Walk (List Edit)) (u : SourceUnit)

/-- The edit for a module without a body, in the context inside the module; `below` sees to its file. -/
def walkFile (c : Context) (p : Placed) : Walk Edit := do
  let declaration ← Walk.ofExcept (u.declaration c.module p)
  let origin : Origin := ⟨some declaration.location, some u.text⟩
  let file ← Walk.ofLoader (w.fileSystem.moduleFile directory declaration.module c.file declaration.override origin)
  let inner ← Walk.ofExcept (c.enterFile w.fileSystem file.val origin)
  let unit ← Walk.ofLoader (w.openUnit file.val declaration.module origin)
  let edits ← below inner unit
  let body ← Walk.ofExcept (unit.splice edits)
  match declaration.semicolon with
  | none => throw (.fault .missingSemicolon)
  | some semicolon =>
    Walk.ofLoader (Loader.note s!"inlined module {declaration.module} from {file.val}")
    return ⟨semicolon.start, semicolon.stop, braced body⟩

mutual

/-- The edits for the modules without a body at a node and below it. -/
def walkAt (c : Context) (earlier : List Node) : Node → Walk (List Edit)
  | ⟨tag, children⟩ =>
    if !tag.named then return []
    else if tag.kind == "mod_item" then do
      let name ← Walk.ofExcept (u.nameOf (children.find? (·.fills "name")))
      let inner ← Walk.ofExcept (c.enterModule name)
      Walk.enter (.module inner u ⟨⟨tag, children⟩, earlier⟩)
      if children.any (·.fills "body") then walkInBody inner children
      else return [← w.walkFile directory below u inner ⟨⟨tag, children⟩, earlier⟩]
    else if SourceUnit.undeclaringKinds.contains tag.kind then return []
    else walkIn c [] children
termination_by structural n => n

/-- The edits for the modules among siblings and below them. -/
def walkIn (c : Context) (earlier : List Node) : List Node → Walk (List Edit)
  | [] => do
    Walk.enter (.siblings c u earlier [])
    return []
  | n :: rest => do
    Walk.enter (.siblings c u earlier (n :: rest))
    let here ← walkAt c earlier n
    let later ← walkIn c (n.after earlier) rest
    return here ++ later
termination_by structural l => l

/-- The edits for the modules below the first sibling that is a body. -/
def walkInBody (c : Context) : List Node → Walk (List Edit)
  | [] => return []
  | n :: rest => if n.fills "body" then walkBelow c n else walkInBody c rest
termination_by structural l => l

/-- The edits for the modules below a node. -/
def walkBelow (c : Context) : Node → Walk (List Edit)
  | ⟨_, children⟩ => walkIn c [] children
termination_by structural n => n

end

end

/-- The edits for the modules of a unit, with files looked at to a given depth. -/
def walkUnit (w : Workspace) (directory : FilePath) : Nat → Context → SourceUnit → Walk (List Edit)
  | 0, _, _ => throw .tooDeep
  | depth + 1, c, u => w.walkBelow directory (w.walkUnit directory depth) u c u.root

/-- The unit of a crate whose text with all module files in place is known. -/
def bundled (w : Workspace) (file : FilePath) (root : SourceUnit) (bytes : Bytes) : Loader SourceUnit :=
  if bytes == root.bytes then return root
  else do
    let count := (← get).files.length
    Loader.ofTraced (.record .info .loading s!"Bundled {count} files into {file}")
    SourceUnit.parse w.grammar bytes file.text

/-- Loads a crate by a walk that looks at files to a given depth. -/
def loadWithin (w : Workspace) (depth : Nat) (file : FilePath) : Walk SourceUnit := do
  let root ← Walk.ofLoader (w.loadFile file)
  let context ← Walk.ofExcept (Context.ofRoot w.fileSystem file)
  let edits ← w.walkUnit file.parent depth context root
  let bytes ← Walk.ofExcept (root.splice edits)
  Walk.ofLoader (w.bundled file root bytes)

/-! ### Walks that do what loading does -/

/-- From a state, a walk does what a loader does, and makes only calls that are reached. -/
def Follows {α : Type} (w : Workspace) (root : FilePath) (s : Ledger) (x : Walk α) (y : Loader α) : Prop :=
  ∃ calls, x.run.run s = ((y.run.run s.loading).1.mapError .fault, ⟨(y.run.run s.loading).2, s.calls ++ calls⟩) ∧
    ∀ call ∈ calls, w.Reaches root call

variable {α β : Type} {w : Workspace} {root : FilePath} {s : Ledger} {x : Walk α} {y : Loader α}

theorem Walk.run_ofExcept (e : Except Fault α) (s : Ledger) : (Walk.ofExcept e).run.run s = (e.mapError Halt.fault, s) := by
  have log : s.loading.log ++ (Traced.ofExcept e).log = s.loading.log := List.append_nil _
  change (e.mapError Halt.fault, Ledger.mk { s.loading with log := s.loading.log ++ (Traced.ofExcept e).log } s.calls) = _
  rw [log]

theorem follows_ofLoader (y : Loader α) : w.Follows root s (Walk.ofLoader y) y :=
  ⟨[], by rw [List.append_nil]; rfl, nofun⟩

theorem follows_ofExcept (e : Except Fault α) : w.Follows root s (Walk.ofExcept e) (Loader.ofTraced (.ofExcept e)) :=
  follows_ofLoader _

theorem follows_lift (e : Except Fault α) : w.Follows root s (Walk.ofExcept e) (liftM e) :=
  ⟨[], by rw [Walk.run_ofExcept, List.append_nil]; rfl, nofun⟩

theorem follows_pure (a : α) : w.Follows root s (pure a) (pure a) :=
  ⟨[], by rw [List.append_nil]; rfl, nofun⟩

theorem follows_throw (fault : Fault) : w.Follows root s (throw (.fault fault) : Walk α) (throw fault) :=
  ⟨[], by rw [List.append_nil]; rfl, nofun⟩

/-- Two steps of a walk do what two steps of loading do. -/
theorem Follows.bind {f : α → Walk β} {g : α → Loader β} (first : w.Follows root s x y)
    (rest : ∀ a t, y.Runs s.loading a t.loading → w.Follows root t (f a) (g a)) :
    w.Follows root s (x >>= f) (y >>= g) := by
  obtain ⟨calls, walked, reached⟩ := first
  unfold Follows
  rw [run_bind, run_bind, walked]
  rcases ran : y.run.run s.loading with ⟨fault | a, t⟩
  · exact ⟨calls, rfl, reached⟩
  · obtain ⟨more, later, others⟩ := rest a ⟨t, s.calls ++ calls⟩ ran
    refine ⟨calls ++ more, ?_, ?_⟩
    · rw [← List.append_assoc]
      exact later
    · intro call member
      exact (List.mem_append.mp member).elim (reached call) (others call)

/-- A call that is reached may be made first. -/
theorem Follows.enter {call : Call} (reached : w.Reaches root call)
    (rest : ∀ t : Ledger, t.loading = s.loading → w.Follows root t x y) :
    w.Follows root s (Walk.enter call >>= fun _ => x) y := by
  obtain ⟨calls, walked, others⟩ := rest ⟨s.loading, s.calls ++ [call]⟩ rfl
  refine ⟨call :: calls, ?_, ?_⟩
  · rw [run_bind, List.append_cons]
    exact walked
  · intro other member
    rcases List.mem_cons.mp member with rfl | listed
    · exact reached
    · exact others other listed

/-- A computation that leaves nothing may come first. -/
theorem Follows.except {e : Except Fault β} {f : β → Walk α} (ok : ∀ b, e = .ok b → w.Follows root s (f b) y)
    (failed : ∀ fault, e = .error fault → y.run.run s.loading = (.error fault, s.loading)) :
    w.Follows root s (Walk.ofExcept e >>= f) y := by
  cases e with
  | ok b =>
    obtain ⟨calls, walked, reached⟩ := ok b rfl
    refine ⟨calls, ?_, reached⟩
    rw [run_bind, Walk.run_ofExcept]
    exact walked
  | error fault =>
    refine ⟨[], ?_, nofun⟩
    rw [run_bind, Walk.run_ofExcept, failed fault rfl, List.append_nil]
    rfl

/-! ### The walk through a unit -/

section

variable {u : SourceUnit} {below : Context → SourceUnit → Walk (List Edit)}

theorem joinText_of_enterModule {c inner : Context} {name : String} (entered : c.enterModule name = .ok inner) :
    c.module.joinText name = .ok inner.module ∧ inner.chain = c.chain := by
  obtain ⟨path, joined, rfl⟩ := Context.enterModule_eq_ok entered
  exact ⟨joined, rfl⟩

theorem joinText_of_enterModule_error {c : Context} {name : String} {fault : Fault} (refused : c.enterModule name = .error fault) :
    c.module.joinText name = .error fault := by
  rcases bind_eq_error.mp refused with failed | ⟨_, -, impossible⟩
  · exact failed
  · cases impossible

/-- What is done for a declaration depends on the file of the context and on its chain only. -/
theorem bodyOf_of_enterModule {c inner : Context} {name : String} (entered : c.enterModule name = .ok inner) :
    w.bodyOf root.parent u inner = w.bodyOf root.parent u c := by
  obtain ⟨path, -, rfl⟩ := Context.enterModule_eq_ok entered
  funext entry
  cases entry <;> rfl

theorem module_of_declaration {module : ModulePath} {p : Placed} {declaration : Declaration}
    (read : u.declaration module p = .ok declaration) : declaration.module = module := by
  obtain ⟨override, -, read⟩ := bind_eq_ok.mp read
  cases read
  rfl

/-- Below a context, files are seen to as loading sees to them. -/
def Deeper (w : Workspace) (root : FilePath) (below : Context → SourceUnit → Walk (List Edit)) (left : Nat) : Prop :=
  ∀ inner unit t, w.fileSystem.unentered inner.chain < left → w.Reaches root (Call.top inner unit) → w.Kept t.loading.files →
    w.Follows root t (below inner unit) (w.bodies root.parent unit inner (unit.declarations inner.module))

/-- A module without a body is inlined as loading does it. -/
theorem follows_walkFile {c : Context} {p : Placed} (deeper : w.Deeper root below (w.fileSystem.unentered c.chain))
    (reached : w.Reaches root (.module c u p)) (bodiless : p.node.child? "body" = none) (kept : w.Kept s.loading.files) :
    w.Follows root s (w.walkFile root.parent below u c p) (w.bodyOf root.parent u c (u.declaration c.module p)) := by
  refine Follows.except (fun declaration declared => ?_) (fun fault undeclared => by rw [undeclared]; rfl)
  rw [declared]
  refine (follows_ofLoader _).bind fun file t found => ?_
  obtain ⟨found, same⟩ := Loader.runs_lift.mp found
  have still : w.Kept t.loading.files := by
    rw [← same]
    exact kept
  have inside : { c with module := declaration.module } = c := by rw [module_of_declaration declared]
  rw [inside]
  refine Follows.except (fun inner entered => ?_) (fun fault refused => by rw [refused]; rfl)
  rw [entered]
  refine (follows_ofLoader _).bind fun unit t opened => ?_
  obtain ⟨kept, held, -⟩ := openUnit_runs opened (.inl file.property) still
  have further : w.Reaches root (Call.top inner unit) := reached.step (.file bodiless declared found entered held)
  have module : inner.module = declaration.module := by
    obtain ⟨_, -, -, rfl⟩ := Context.enterFile_eq_ok entered
    exact (module_of_declaration declared).symm
  rw [← module]
  refine (deeper inner unit t (Context.unentered_enterFile_lt file.property entered) further kept).bind fun edits t _ => ?_
  refine (follows_ofExcept _).bind fun body t _ => ?_
  cases declaration.semicolon with
  | none => exact follows_throw _
  | some semicolon => exact (follows_ofLoader _).bind fun _ t _ => follows_pure _

mutual

/-- The walk through a unit sees to the modules without a body that are declared in it, in the order of the
declarations. -/
theorem follows_walkAt : ∀ (n : Node) (c : Context) (earlier rest : List Node) (s : Ledger),
    w.Deeper root below (w.fileSystem.unentered c.chain) → w.Reaches root (.siblings c u earlier (n :: rest)) →
      w.Kept s.loading.files → w.Follows root s (w.walkAt root.parent below u c earlier n)
        ((u.declarationsAt c.module earlier n).mapM (w.bodyOf root.parent u c))
  | ⟨tag, children⟩, c, earlier, rest, s, deeper, reached, kept => by
    rw [walkAt, SourceUnit.declarationsAt]
    by_cases named : tag.named = true
    · by_cases module : tag.kind = "mod_item"
      · simp only [named, module, Bool.not_true, Bool.false_eq_true, if_false, beq_self_eq_true, if_true, SourceUnit.modulePath]
        refine Follows.except (fun name text => ?_) (fun fault untold => by rw [untold]; rfl)
        rw [text, ok_bind]
        refine Follows.except (fun inner entered => ?_) (fun fault refused => ?_)
        · have further := reached.step (.module named module text entered)
          obtain ⟨joined, chain⟩ := joinText_of_enterModule entered
          simp only [joined]
          rw [← bodyOf_of_enterModule entered]
          rw [← chain] at deeper
          refine Follows.enter further fun t same => ?_
          have kept : w.Kept t.loading.files := by rwa [same]
          cases given : children.any (·.fills "body") with
          | true => exact follows_walkInBody children inner t deeper (fun body there => further.step (.inside there)) kept
          | false =>
            have bodiless : (⟨tag, children⟩ : Node).child? "body" = none := by
              rw [Node.child?, List.find?_eq_none]
              simpa using given
            exact (follows_walkFile deeper further bodiless kept).bind fun edit t _ => follows_pure _
        · rw [joinText_of_enterModule_error refused]
          rfl
      · by_cases looked : tag.kind ∈ SourceUnit.undeclaringKinds
        · simpa [named, module, looked] using follows_pure _
        · simp only [named, module, looked, Bool.not_true, Bool.false_eq_true, if_false, beq_iff_eq, List.contains_iff_mem]
          exact follows_walkIn children c [] s deeper (reached.step (.down named module looked)) kept
    · simpa [named] using follows_pure _
termination_by structural n => n

theorem follows_walkIn : ∀ (nodes : List Node) (c : Context) (earlier : List Node) (s : Ledger),
    w.Deeper root below (w.fileSystem.unentered c.chain) → w.Reaches root (.siblings c u earlier nodes) →
      w.Kept s.loading.files → w.Follows root s (w.walkIn root.parent below u c earlier nodes)
        ((u.declarationsIn c.module earlier nodes).mapM (w.bodyOf root.parent u c))
  | [], c, earlier, s, deeper, reached, kept => by
    rw [walkIn]
    exact Follows.enter reached fun t _ => follows_pure _
  | n :: rest, c, earlier, s, deeper, reached, kept => by
    rw [walkIn, SourceUnit.declarationsIn, List.mapM_append]
    refine Follows.enter reached fun t same => ?_
    have kept : w.Kept t.loading.files := by rwa [same]
    refine (follows_walkAt n c earlier rest t deeper reached kept).bind fun here t first => ?_
    have kept : w.Kept t.loading.files := by
      rw [← bodies_eq] at first
      obtain ⟨-, -, still, -⟩ := bodies_runs _ u c _ _ _ here rfl kept first
      exact still
    refine (follows_walkIn rest c (n.after earlier) t deeper (reached.step .next) kept).bind fun later t _ => ?_
    exact follows_pure _
termination_by structural l => l

theorem follows_walkInBody : ∀ (nodes : List Node) (c : Context) (s : Ledger),
    w.Deeper root below (w.fileSystem.unentered c.chain) →
      (∀ body, nodes.find? (·.fills "body") = some body → w.Reaches root (.siblings c u [] body.children)) →
        w.Kept s.loading.files → w.Follows root s (w.walkInBody root.parent below u c nodes)
          ((u.declarationsInBody c.module nodes).mapM (w.bodyOf root.parent u c))
  | [], c, s, _, _, _ => by
    rw [walkInBody]
    exact follows_pure _
  | n :: rest, c, s, deeper, reached, kept => by
    rw [walkInBody, SourceUnit.declarationsInBody]
    by_cases fills : n.fills "body" = true
    · simp only [fills, if_true]
      exact follows_walkBelow n c s deeper (reached n (by simp [fills])) kept
    · simp only [fills, Bool.false_eq_true, if_false]
      refine follows_walkInBody rest c s deeper (fun body there => ?_) kept
      exact reached body (by simpa [fills] using there)
termination_by structural l => l

theorem follows_walkBelow : ∀ (n : Node) (c : Context) (s : Ledger),
    w.Deeper root below (w.fileSystem.unentered c.chain) → w.Reaches root (.siblings c u [] n.children) →
      w.Kept s.loading.files → w.Follows root s (w.walkBelow root.parent below u c n)
        ((u.declarationsBelow c.module n).mapM (w.bodyOf root.parent u c))
  | ⟨_, children⟩, c, s, deeper, reached, kept => follows_walkIn children c [] s deeper reached kept
termination_by structural n => n

end

end

/-- A walk of enough depth sees to the declarations of a unit as loading does. -/
theorem follows_walkUnit {depth : Nat} {c : Context} {u : SourceUnit} {s : Ledger} (deep : w.fileSystem.unentered c.chain < depth)
    (reached : w.Reaches root (Call.top c u)) (kept : w.Kept s.loading.files) :
    w.Follows root s (w.walkUnit root.parent depth c u) (w.bodies root.parent u c (u.declarations c.module)) := by
  induction depth generalizing c u s with
  | zero => exact absurd deep (Nat.not_lt_zero _)
  | succ depth ih =>
    rw [walkUnit, bodies_eq]
    refine follows_walkBelow u.root c s (fun inner unit t fewer further kept => ?_) reached kept
    exact ih (by omega) further kept

/-! ### Loading -/

/-- The crate root file is one of the files that need not be entered. -/
theorem unentered_root_lt {c : Context} {u : SourceUnit} (context : Context.ofRoot w.fileSystem root = .ok c)
    (held : w.Holds root u) : w.fileSystem.unentered c.chain < w.fileSystem.files.length := by
  obtain rfl := Context.ofRoot_eq_ok context
  obtain ⟨contents, found⟩ := Option.isSome_iff_exists.mp held.there
  obtain ⟨before, after, split, -⟩ := List.lookup_eq_some_iff.mp found
  refine List.countP_lt_length_iff.mpr ⟨(root.resolvedParts w.fileSystem.workingDirectory, contents), ?_, ?_⟩
  · rw [split]
    simp
  · simp [FilePath.resolve]

/-- A walk that may go as deep as there are files does what loading does. -/
theorem follows_loadWithin {depth : Nat} (deep : w.fileSystem.files.length ≤ depth) :
    w.Follows root {} (w.loadWithin depth root) (w.load root) := by
  change w.Follows root {} _ (w.loadFile root >>= fun unit => w.inlined root unit >>= w.bundled root unit)
  refine (follows_ofLoader _).bind fun unit t opened => ?_
  obtain ⟨kept, held, -⟩ := openUnit_runs opened (.inr rfl) (by simp [Kept])
  rw [inlined, bind_assoc]
  refine (follows_lift _).bind fun c t context => ?_
  obtain ⟨context, same⟩ := Loader.runs_liftExcept.mp context
  have still : w.Kept t.loading.files := by rwa [← same]
  have enough := (unentered_root_lt context held).trans_le deep
  have module : c.module = .crate := by rw [Context.ofRoot_eq_ok context]
  rw [bind_assoc, ← module]
  refine (follows_walkUnit enough (.start context held) still).bind fun edits t _ => ?_
  exact (follows_ofExcept _).bind fun bytes t _ => follows_ofLoader _

/-- Loading ends, with a unit or with a fault, whatever files include each other: a walk that may go as deep as there are
files is not cut off and does what loading does. It makes only calls that are reached. No call starts an endless chain of
calls, and the context of each is sound, so that it is at most as many files deep as there are files; a file is refused as
including itself exactly if it is in the chain of files that led to its declaration. -/
theorem load_ends (w : Workspace) (root : FilePath) :
    (∀ depth, w.fileSystem.files.length ≤ depth → ∃ calls,
      (w.loadWithin depth root).start = ((w.load root).start.1.mapError .fault, ⟨(w.load root).start.2, calls⟩) ∧
        ∀ call ∈ calls, w.Reaches root call) ∧
      (WellFounded fun inner outer => w.Calls root.parent outer inner) ∧
      (∀ call, w.Reaches root call → call.context.Sound w.fileSystem root ∧
        call.context.chain.length ≤ w.fileSystem.files.length) ∧
      ∀ (c : Context) (file : FilePath) (origin : Origin) (chain : List FilePath),
        (∃ error, c.enterFile w.fileSystem file origin = .error (.bundle error) ∧ error.problem = .circular chain) ↔
          ∃ resolved ∈ c.chain, w.fileSystem.resolve file = .ok resolved ∧ chain = c.chain ++ [resolved] := by
  refine ⟨fun depth deep => ?_, calls_wellFounded w root.parent, fun call reached => ?_, fun c file origin chain => ?_⟩
  · exact follows_loadWithin deep
  · exact ⟨reached.sound, reached.sound.length_le⟩
  · exact Context.enterFile_circular_iff

/-! ### A file that includes itself -/

/-- A crate root file that declares the module of its own name. -/
def selfIncluding : Workspace where
  fileSystem := { files := [(["a.rs"], Utf8.encode "mod a;")] }
  grammar _ := fileNode 6 [moduleNode (tokenNode ";" 5 6)]

/-- The kind of problem of a fault, if it is an error of the run. -/
def problem? : Fault → Option Problem
  | .bundle error => some error.problem
  | _ => none

/-- The context inside the module that this file declares. -/
def selfDeclared : Context := ⟨⟨["crate", "a"]⟩, ⟨0, ["a.rs"]⟩, [⟨1, ["a.rs"]⟩]⟩

theorem load_selfIncluding : ∃ calls error,
    (selfIncluding.loadWithin 1 ⟨0, ["a.rs"]⟩).start =
        (.error (.fault (.bundle error)), ⟨(selfIncluding.load ⟨0, ["a.rs"]⟩).start.2, calls⟩) ∧
      (selfIncluding.load ⟨0, ["a.rs"]⟩).start.1 = .error (.bundle error) ∧
      error.problem = .circular [⟨1, ["a.rs"]⟩, ⟨1, ["a.rs"]⟩] ∧
      calls.map Call.context = [{ selfDeclared with module := .crate }, selfDeclared] ∧
      (∀ call ∈ calls, call.context.Sound selfIncluding.fileSystem ⟨0, ["a.rs"]⟩) ∧
      ∃ error, selfDeclared.enterFile selfIncluding.fileSystem ⟨0, ["b", "..", "a.rs"]⟩ {} = .error (.bundle error) ∧
        error.problem = .circular [⟨1, ["a.rs"]⟩, ⟨1, ["a.rs"]⟩] := by
  obtain ⟨ending, -, sound, circular⟩ := load_ends selfIncluding ⟨0, ["a.rs"]⟩
  obtain ⟨calls, walked, reached⟩ := ending 1 (by decide)
  have raised : ((selfIncluding.load ⟨0, ["a.rs"]⟩).start.1.map fun _ => ()).mapError problem? =
      .error (some (.circular [⟨1, ["a.rs"]⟩, ⟨1, ["a.rs"]⟩])) := by decide +kernel
  have contexts : (selfIncluding.loadWithin 1 ⟨0, ["a.rs"]⟩).start.2.calls.map Call.context =
      [{ selfDeclared with module := .crate }, selfDeclared] := by decide +kernel
  rw [walked] at contexts
  cases failed : (selfIncluding.load ⟨0, ["a.rs"]⟩).start.1 with
  | ok unit =>
    rw [failed] at raised
    cases raised
  | error fault =>
    rw [failed] at raised
    cases fault with
    | bundle error =>
      refine ⟨calls, error, walked.trans (by rw [failed]; rfl), rfl, Option.some.inj (Except.error.inj raised), contexts, ?_, ?_⟩
      · exact fun call member => (sound call (reached call member)).1
      · exact (circular _ _ _ _).mpr ⟨⟨1, ["a.rs"]⟩, by simp [selfDeclared], rfl, rfl⟩
    | _ => cases raised

end Workspace

end CrateFold
