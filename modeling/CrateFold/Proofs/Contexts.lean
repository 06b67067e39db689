import CrateFold.Proofs.Inlining
import Mathlib.Data.List.Perm.Subperm
import Mathlib.Data.List.Nodup

/-!
The contexts of loading. A call of the recursion looks at siblings of a unit, or at a module in it, in a context;
it goes on to the next sibling, below a node, to a module, into the body of a module, or into the file of a declared
module (`Calls`). In every context that is reached the chain of files leads without repetition from the crate root
file to the file looked at (`Context.Sound`), so that a chain is no longer than the list of files; and every
call leaves fewer files to enter, or the same files and a smaller tree (`calls_wellFounded`).
-/
namespace CrateFold

/-! ### Contexts -/

namespace Context

variable {fs : FileSystem} {root file : FilePath} {c inner : Context} {origin : Origin} {name : String}

/-- What holds of every context: the chain leads from the crate root file to the file looked at, by files of the file
system that are all different, and the module lies in the crate. -/
structure Sound (fs : FileSystem) (root : FilePath) (c : Context) : Prop where
  first : c.chain.head? = some (root.resolve fs.workingDirectory)
  last : c.chain.getLast? = some (c.file.resolve fs.workingDirectory)
  distinct : c.chain.Nodup
  files : ∀ file ∈ c.chain, file.slashes = 1 ∧ (fs.contents? file.parts).isSome = true
  crate : c.module.isCratePath = true

theorem ofRoot_eq_ok (start : ofRoot fs file = .ok c) : c = ⟨.crate, file, [file.resolve fs.workingDirectory]⟩ := by
  obtain ⟨resolved, absolute, start⟩ := bind_eq_ok.mp start
  obtain rfl := FileSystem.resolve_eq_ok absolute
  cases start
  rfl

theorem enterModule_eq_ok (entered : c.enterModule name = .ok inner) :
    ∃ module, c.module.joinText name = .ok module ∧ inner = { c with module := module } := by
  obtain ⟨module, joined, entered⟩ := bind_eq_ok.mp entered
  cases entered
  exact ⟨module, joined, rfl⟩

theorem sound_ofRoot (start : ofRoot fs root = .ok c)
    (there : (fs.contents? (root.resolvedParts fs.workingDirectory)).isSome = true) : c.Sound fs root := by
  obtain rfl := ofRoot_eq_ok start
  refine ⟨rfl, rfl, by simp, ?_, rfl⟩
  intro file member
  rw [List.mem_singleton.mp member]
  exact ⟨rfl, there⟩

theorem Sound.enterModule (sound : c.Sound fs root) (entered : c.enterModule name = .ok inner) : inner.Sound fs root := by
  obtain ⟨module, joined, rfl⟩ := enterModule_eq_ok entered
  obtain ⟨path, -, joined⟩ := bind_eq_ok.mp joined
  cases joined
  exact ⟨sound.first, sound.last, sound.distinct, sound.files, ModulePath.join_isCratePath sound.crate⟩

theorem Sound.enterFile (sound : c.Sound fs root) (there : fs.isFile file = true)
    (entered : c.enterFile fs file origin = .ok inner) : inner.Sound fs root := by
  obtain ⟨resolved, absolute, new, rfl⟩ := enterFile_eq_ok entered
  obtain rfl := FileSystem.resolve_eq_ok absolute
  refine ⟨?_, by simp, ?_, ?_, sound.crate⟩
  · rw [List.head?_append, sound.first]
    rfl
  · rw [List.nodup_append]
    refine ⟨sound.distinct, by simp, ?_⟩
    intro old member other only
    rw [List.mem_singleton.mp only]
    rintro rfl
    exact new member
  · intro other member
    rcases List.mem_append.mp member with old | only
    · exact sound.files other old
    · rw [List.mem_singleton.mp only]
      exact ⟨rfl, FileSystem.contents?_isSome_of_isFile there⟩

/-- A chain is no longer than the list of files. -/
theorem Sound.length_le (sound : c.Sound fs root) : c.chain.length ≤ fs.files.length := by
  have distinct : (c.chain.map FilePath.parts).Nodup := by
    refine (List.nodup_map_iff_inj_on sound.distinct).mpr ?_
    intro a memberA b memberB same
    have slashes := (sound.files a memberA).1.trans (sound.files b memberB).1.symm
    cases a
    cases b
    simp_all
  have listed : c.chain.map FilePath.parts ⊆ fs.files.map Prod.fst := by
    intro parts member
    obtain ⟨file, inChain, rfl⟩ := List.mem_map.mp member
    obtain ⟨contents, found⟩ := Option.isSome_iff_exists.mp (sound.files file inChain).2
    obtain ⟨before, after, split, -⟩ := List.lookup_eq_some_iff.mp found
    rw [split]
    simp
  simpa using (List.subperm_of_subset distinct listed).length_le

/-- A file is refused as including itself exactly if its resolved path is in the chain; the error shows the chain with
this path at its end. -/
theorem enterFile_circular_iff {chain : List FilePath} :
    (∃ error, c.enterFile fs file origin = .error (.bundle error) ∧ error.problem = .circular chain) ↔
      ∃ resolved ∈ c.chain, fs.resolve file = .ok resolved ∧ chain = c.chain ++ [resolved] := by
  unfold Context.enterFile
  cases absolute : fs.resolve file with
  | error fault =>
    unfold FileSystem.resolve at absolute
    split at absolute
    · cases absolute
      simp
    · cases absolute
  | ok resolved =>
    by_cases old : resolved ∈ c.chain
    · simp [old, throw, throwThe, MonadExceptOf.throw, circular, eq_comm]
    · simp [old]

end Context

/-! ### Calls -/

/-- A call of the recursion. -/
inductive Call where
  /-- It looks at siblings of a unit, with the named ones before them. -/
  | siblings (context : Context) (unit : SourceUnit) (earlier nodes : List Node)
  /-- It looks at a module of a unit, in the context inside the module. -/
  | module (context : Context) (unit : SourceUnit) (placed : Placed)

namespace Call

/-- The context of a call. -/
def context : Call → Context
  | siblings context _ _ _ => context
  | module context _ _ => context

/-- The call that looks at a unit from its top. -/
def top (c : Context) (u : SourceUnit) : Call := .siblings c u [] u.root.children

end Call

namespace Workspace

variable {w : Workspace} {directory root : FilePath}

/-- The calls that a call makes. -/
inductive Calls (w : Workspace) (directory : FilePath) : Call → Call → Prop where
  | next {c : Context} {u : SourceUnit} {n : Node} {earlier rest : List Node} :
      Calls w directory (.siblings c u earlier (n :: rest)) (.siblings c u (n.after earlier) rest)
  | down {c : Context} {u : SourceUnit} {n : Node} {earlier rest : List Node} (named : n.named = true)
      (other : n.kind ≠ "mod_item") (looked : n.kind ∉ SourceUnit.undeclaringKinds) :
      Calls w directory (.siblings c u earlier (n :: rest)) (.siblings c u [] n.children)
  | module {c inner : Context} {u : SourceUnit} {n : Node} {earlier rest : List Node} {name : String}
      (named : n.named = true) (module : n.kind = "mod_item") (text : u.nameOf (n.child? "name") = .ok name)
      (entered : c.enterModule name = .ok inner) :
      Calls w directory (.siblings c u earlier (n :: rest)) (.module inner u ⟨n, earlier⟩)
  | inside {c : Context} {u : SourceUnit} {p : Placed} {body : Node} (there : p.node.child? "body" = some body) :
      Calls w directory (.module c u p) (.siblings c u [] body.children)
  | file {c inner : Context} {u unit : SourceUnit} {p : Placed} {declaration : Declaration}
      {file : { file : FilePath // w.fileSystem.isFile file = true }} (bodiless : p.node.child? "body" = none)
      (declared : u.declaration c.module p = .ok declaration)
      (found : (w.fileSystem.moduleFile directory declaration.module c.file declaration.override
        ⟨some declaration.location, some u.text⟩).outcome = .ok file)
      (opened : c.enterFile w.fileSystem file.val ⟨some declaration.location, some u.text⟩ = .ok inner)
      (held : w.Holds file.val unit) : Calls w directory (.module c u p) (Call.top inner unit)

/-- The calls made from the top of the crate root file on. -/
inductive Reaches (w : Workspace) (root : FilePath) : Call → Prop where
  | start {c : Context} {u : SourceUnit} (context : Context.ofRoot w.fileSystem root = .ok c) (held : w.Holds root u) :
      Reaches w root (Call.top c u)
  | step {outer inner : Call} (reached : Reaches w root outer) (calls : w.Calls root.parent outer inner) :
      Reaches w root inner

/-- The files that a call has left to enter, and the size of what it has left to look at. -/
noncomputable def left (w : Workspace) : Call → Nat × Nat
  | .siblings c _ _ nodes => (w.fileSystem.unentered c.chain, sizeOf nodes)
  | .module c _ p => (w.fileSystem.unentered c.chain, sizeOf p.node)

theorem sizeOf_children_lt (n : Node) : sizeOf n.children < sizeOf n := by
  obtain ⟨tag, children⟩ := n
  show sizeOf children < sizeOf (Node.mk tag children)
  rw [Node.mk.sizeOf_spec]
  omega

/-- A call leaves fewer files to enter, or the same files and less to look at. -/
theorem Calls.left_lt {outer inner : Call} (calls : w.Calls directory outer inner) :
    Prod.Lex (· < ·) (· < ·) (w.left inner) (w.left outer) := by
  -- only the last case enters a file; the others stay in it and go on, down or inside
  cases calls with
  | @next c u n earlier rest =>
    refine .right _ ?_
    rw [List.cons.sizeOf_spec]
    omega
  | @down c u n earlier rest _ _ _ =>
    refine .right _ ?_
    have below := sizeOf_children_lt n
    rw [List.cons.sizeOf_spec]
    omega
  | @module c inner u n earlier rest name _ _ _ entered =>
    obtain ⟨module, -, rfl⟩ := Context.enterModule_eq_ok entered
    refine .right _ ?_
    show sizeOf n < sizeOf (n :: rest)
    rw [List.cons.sizeOf_spec]
    omega
  | @inside c u p body there =>
    have member := List.sizeOf_lt_of_mem (List.mem_of_find?_eq_some there)
    exact .right _ (((sizeOf_children_lt body).trans member).trans (sizeOf_children_lt p.node))
  | @file c inner u unit p declaration file _ _ _ opened _ =>
    exact .left _ _ (Context.unentered_enterFile_lt file.property opened)

/-- No call starts an endless chain of calls. -/
theorem calls_wellFounded (w : Workspace) (directory : FilePath) :
    WellFounded fun inner outer => w.Calls directory outer inner := by
  refine Subrelation.wf (r := InvImage (Prod.Lex (· < ·) (· < ·)) w.left) (fun calls => Calls.left_lt calls) ?_
  exact InvImage.wf _ (Prod.lex Nat.lt_wfRel Nat.lt_wfRel).wf

theorem Holds.there {u : SourceUnit} (held : w.Holds root u) :
    (w.fileSystem.contents? (root.resolvedParts w.fileSystem.workingDirectory)).isSome = true := by
  rw [FileSystem.read_eq_ok held.read]
  rfl

/-- Every call is made in a sound context. -/
theorem Reaches.sound {call : Call} (reached : w.Reaches root call) : call.context.Sound w.fileSystem root := by
  induction reached with
  | start context held => exact Context.sound_ofRoot context held.there
  | step _ calls ih =>
    cases calls with
    | next => exact ih
    | down => exact ih
    | module _ _ _ entered => exact ih.enterModule entered
    | inside _ => exact ih
    | @file c inner u unit p declaration file _ _ _ opened _ => exact ih.enterFile file.property opened

end Workspace

end CrateFold
