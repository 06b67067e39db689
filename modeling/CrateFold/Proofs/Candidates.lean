import CrateFold.Inline.Candidate
import CrateFold.Proofs.Paths
import CrateFold.Proofs.PathText

/-!
The conventional files of modules. The files of a module lie below the source directory, in directories that
have the names of the modules around it (`candidates_eq`). Names hold no slash and are no dots, so that a file
is never looked for outside that directory (`below_of_candidates`). Two modules have the same files if their
names are the same without `r#`; otherwise they share a file only if one is a module `mod` in the other, for
which the file `mod.rs` is read in two ways (`candidates_told_apart`).
-/
namespace CrateFold

/-- A path of a module below the crate root. -/
structure ModulePath.IsSubmodule (p : ModulePath) : Prop where
  valid : p.IsValid
  absolute : p.isCratePath = true
  long : 2 ≤ p.length

/-- The segments of a path without `r#`. -/
def ModulePath.fileNames (p : ModulePath) : List String := p.segments.map fileName

namespace FilePath

/-- A part of a path that goes down: it has no slash in it and is neither empty nor made of dots. -/
def GoesDown (part : String) : Prop := part ≠ "" ∧ part ≠ "." ∧ part ≠ ".." ∧ '/' ∉ part.toList

instance (part : String) : Decidable (GoesDown part) := inferInstanceAs (Decidable (_ ∧ _))

/-- The path reached from a directory by the given parts. -/
def extend (directory : FilePath) (parts : List String) : FilePath := ⟨directory.slashes, directory.parts ++ parts⟩

/-- A path that is a directory with parts behind it that go down. -/
def Below (file directory : FilePath) : Prop :=
  ∃ parts, parts ≠ [] ∧ file = directory.extend parts ∧ ∀ part ∈ parts, GoesDown part

theorem extend_inj {directory : FilePath} {parts others : List String} :
    directory.extend parts = directory.extend others ↔ parts = others := by
  simp [extend]

end FilePath

/-! ### Names of files -/

/-- A segment is its file name, with `r#` in front of it or not. -/
theorem eq_of_fileName {segment name : String} (same : fileName segment = name) : segment = name ∨ segment = "r#" ++ name := by
  unfold fileName at same
  split at same
  · next rest chars =>
    right
    rw [← String.toList_inj, chars, ← same]
    simp
  · exact .inl same

theorem toList_fileName_suffix (segment : String) : (fileName segment).toList <:+ segment.toList := by
  unfold fileName
  split
  · next rest chars =>
    rw [chars, String.toList_ofList]
    exact ⟨['r', '#'], rfl⟩
  · exact List.suffix_rfl

/-- The file name of a segment is not empty, and has neither slashes nor dots in it. -/
theorem fileName_plain {segment : String} (valid : ModulePath.Segment segment.toList) :
    (fileName segment).toList ≠ [] ∧ '/' ∉ (fileName segment).toList ∧ '.' ∉ (fileName segment).toList := by
  have absent : ∀ c : Char, Text.isWord c = false → c ∉ ['*', '$', '#'] → c ∉ (fileName segment).toList := by
    intro c other unmarked member
    rcases valid.chars c ((toList_fileName_suffix segment).subset member) with word | mark
    · rw [other] at word
      cases word
    · exact unmarked mark
  refine ⟨?_, absent '/' (by decide) (by decide), absent '.' (by decide) (by decide)⟩
  unfold fileName
  split
  · next rest chars =>
    rw [chars] at valid
    rw [String.toList_ofList]
    cases valid with
    | raw named => exact Text.isName_ne_nil named
    | name named => exact absurd (Text.isWord_of_isName named '#' (by simp)) (by decide)
  · exact valid.ne_nil

theorem goesDown_fileName {segment : String} (valid : ModulePath.Segment segment.toList) :
    FilePath.GoesDown (fileName segment) := by
  obtain ⟨nonempty, slashless, dotless⟩ := fileName_plain valid
  refine ⟨?_, ?_, ?_, slashless⟩
  · intro empty
    rw [empty] at nonempty
    exact nonempty rfl
  · intro dot
    rw [dot] at dotless
    exact dotless (by decide)
  · intro dots
    rw [dots] at dotless
    exact dotless (by decide)

theorem goesDown_sourceFile {segment : String} (valid : ModulePath.Segment segment.toList) :
    FilePath.GoesDown (fileName segment ++ ".rs") := by
  obtain ⟨-, slashless, -⟩ := fileName_plain valid
  have ended : ∀ other : String, other.length < 3 → fileName segment ++ ".rs" ≠ other := by
    rintro _ short rfl
    rw [String.length_append] at short
    have : (".rs" : String).length = 3 := by decide
    omega
  refine ⟨ended "" (by decide), ended "." (by decide), ended ".." (by decide), ?_⟩
  rw [String.toList_append, List.mem_append, not_or]
  exact ⟨slashless, by decide⟩

/-! ### Files of a module -/

namespace ModulePath

variable {p q : ModulePath} {directory file : FilePath}

/-- A submodule has a name and lies in other modules, up to the crate root. -/
theorem IsSubmodule.split (fine : p.IsSubmodule) : ∃ outer last, p.segments = "crate" :: outer ++ [last] := by
  obtain ⟨rest, segments⟩ := isCratePath_iff.mp fine.absolute
  have long := fine.long
  rcases List.eq_nil_or_concat rest with rfl | ⟨outer, last, rfl⟩
  · rw [ModulePath.length, segments] at long
    simp at long
  · exact ⟨outer, last, by simpa using segments⟩

/-- The file that has the name of the module, in the directory of the modules around it. -/
def sourceFile (directory : FilePath) (outer : List String) (last : String) : FilePath :=
  directory.extend (outer.map fileName ++ [fileName last ++ ".rs"])

/-- The file `mod.rs` in the directory of the module itself. -/
def directoryFile (directory : FilePath) (p : ModulePath) : FilePath :=
  directory.extend (p.fileNames.drop 1 ++ ["mod.rs"])

theorem candidates_eq {outer : List String} {last : String} (segments : p.segments = "crate" :: outer ++ [last]) :
    p.candidates directory = .ok [sourceFile directory outer last, directoryFile directory p] := by
  obtain ⟨_⟩ := p
  obtain rfl : _ = _ := segments
  simp [candidates, isCratePath, first?, ModulePath.length, suffix, FilePath.parent, FilePath.join, FilePath.isAbsolute,
    FilePath.name, sourceFile, directoryFile, FilePath.extend, fileNames]

/-- A file is one of those in which a module is looked for. -/
def IsCandidate (p : ModulePath) (directory file : FilePath) : Prop :=
  ∃ files, p.candidates directory = .ok files ∧ file ∈ files

theorem isCandidate_iff {outer : List String} {last : String} (segments : p.segments = "crate" :: outer ++ [last]) :
    p.IsCandidate directory file ↔ file = sourceFile directory outer last ∨ file = directoryFile directory p := by
  simp [IsCandidate, candidates_eq segments]

/-- The names of a submodule without `r#`, the last one apart. -/
theorem fileNames_split {outer : List String} {last : String} (segments : p.segments = "crate" :: outer ++ [last]) :
    p.fileNames = "crate" :: (outer.map fileName ++ [fileName last]) := by
  have crate : fileName "crate" = "crate" := by decide
  simp [fileNames, segments, crate]

/-- A submodule is looked for below the source directory only. -/
theorem below_of_candidates (fine : p.IsSubmodule) (candidate : p.IsCandidate directory file) : file.Below directory := by
  obtain ⟨outer, last, segments⟩ := fine.split
  have valid : ∀ segment ∈ outer ++ [last], Segment segment.toList := by
    intro segment member
    refine isValid_iff.mp fine.valid segment ?_
    rw [segments]
    exact List.mem_cons_of_mem _ member
  rcases (isCandidate_iff segments).mp candidate with rfl | rfl
  · refine ⟨outer.map fileName ++ [fileName last ++ ".rs"], by simp, rfl, ?_⟩
    intro part member
    rcases List.mem_append.mp member with around | own
    · obtain ⟨segment, listed, rfl⟩ := List.mem_map.mp around
      exact goesDown_fileName (valid segment (List.mem_append_left _ listed))
    · rw [List.mem_singleton.mp own]
      exact goesDown_sourceFile (valid last (by simp))
  · refine ⟨p.fileNames.drop 1 ++ ["mod.rs"], by simp, rfl, ?_⟩
    intro part member
    rcases List.mem_append.mp member with around | own
    · rw [fileNames_split segments, List.drop_one, List.tail_cons, ← List.map_singleton, ← List.map_append] at around
      obtain ⟨segment, listed, rfl⟩ := List.mem_map.mp around
      exact goesDown_fileName (valid segment listed)
    · rw [List.mem_singleton.mp own]
      decide

/-! ### Files of two modules -/

/-- The module `inner` is, but for `r#`, the module `outer` with one more segment, which is `mod` or `r#mod`, and the
file is `mod.rs` of `outer`. -/
def SharesModFile (inner outer : ModulePath) (directory file : FilePath) : Prop :=
  ∃ around last, inner.segments = around ++ [last] ∧ last ∈ ["mod", "r#mod"] ∧ around.map fileName = outer.fileNames ∧
    file = directoryFile directory outer

/-- The file of a module by its name is `mod.rs` of another module only if it is a module `mod` in that one. -/
theorem sharesModFile_of_eq {outer : List String} {last : String} (segments : p.segments = "crate" :: outer ++ [last])
    (fine : q.IsSubmodule) (same : sourceFile directory outer last = directoryFile directory q) :
    p.SharesModFile q directory (directoryFile directory q) := by
  obtain ⟨around, own, others⟩ := fine.split
  obtain ⟨directories, named⟩ := List.append_inj' (FilePath.extend_inj.mp same) rfl
  have name : fileName last = "mod" := by
    have chars := congrArg String.toList (List.cons.inj named).1
    rw [String.toList_append, show ("mod.rs" : String).toList = "mod".toList ++ ".rs".toList by decide] at chars
    exact String.toList_inj.mp (List.append_cancel_right chars)
  refine ⟨"crate" :: outer, last, segments, ?_, ?_, rfl⟩
  · rcases eq_of_fileName name with rfl | rfl
    · decide
    · decide
  · have crate : fileName "crate" = "crate" := by decide
    rw [fileNames_split others, List.drop_one, List.tail_cons] at directories
    rw [fileNames_split others, List.map_cons, crate, directories]

section

variable {outer around : List String} {last own : String} (segments : p.segments = "crate" :: outer ++ [last])
  (others : q.segments = "crate" :: around ++ [own])

include segments others

theorem sourceFile_eq_iff : sourceFile directory outer last = sourceFile directory around own ↔ p.fileNames = q.fileNames := by
  have ending : fileName last ++ ".rs" = fileName own ++ ".rs" ↔ fileName last = fileName own := by
    rw [← String.toList_inj, ← String.toList_inj, String.toList_append, String.toList_append, List.append_cancel_right_eq]
  rw [sourceFile, sourceFile, FilePath.extend_inj, fileNames_split segments, fileNames_split others]
  simp [ending]

theorem directoryFile_eq_iff : directoryFile directory p = directoryFile directory q ↔ p.fileNames = q.fileNames := by
  rw [directoryFile, directoryFile, FilePath.extend_inj, List.append_cancel_right_eq, fileNames_split segments,
    fileNames_split others]
  simp

theorem candidates_eq_iff : p.candidates directory = q.candidates directory ↔ p.fileNames = q.fileNames := by
  rw [candidates_eq segments, candidates_eq others]
  simp [sourceFile_eq_iff segments others, directoryFile_eq_iff segments others]

end

/-- A submodule has files to be looked for, all of them below the source directory. Two submodules have the same files
exactly if their segments are the same without `r#`. If they are not and a file is one of both, then one of them is, but
for `r#`, the other with a segment `mod` or `r#mod` behind it, and the file is `mod.rs` of that other one. -/
theorem candidates_told_apart (directory : FilePath) (left : p.IsSubmodule) (right : q.IsSubmodule) :
    (∃ files, p.candidates directory = .ok files ∧ ∀ file ∈ files, file.Below directory) ∧
    (p.candidates directory = q.candidates directory ↔ p.fileNames = q.fileNames) ∧
    (p.fileNames ≠ q.fileNames → ∀ file, p.IsCandidate directory file → q.IsCandidate directory file →
      p.SharesModFile q directory file ∨ q.SharesModFile p directory file) := by
  obtain ⟨outer, last, segments⟩ := left.split
  obtain ⟨around, own, others⟩ := right.split
  refine ⟨?_, candidates_eq_iff segments others, ?_⟩
  · refine ⟨_, candidates_eq segments, ?_⟩
    intro file member
    exact below_of_candidates left ⟨_, candidates_eq segments, member⟩
  · intro different file first second
    -- files of one kind are told apart by their names, so that the file is of one kind for each module
    rcases (isCandidate_iff segments).mp first with rfl | rfl
    · rcases (isCandidate_iff others).mp second with same | same
      · exact absurd ((sourceFile_eq_iff segments others).mp same) different
      · rw [same]
        exact .inl (sharesModFile_of_eq segments right same)
    · rcases (isCandidate_iff others).mp second with same | same
      · exact .inr (sharesModFile_of_eq others left same.symm)
      · exact absurd ((directoryFile_eq_iff segments others).mp same) different

/-- A module `mod` in a module with a raw name. -/
def rawChild : ModulePath := ⟨["crate", "r#x", "mod"]⟩

/-- A module with the same name, not raw. -/
def plainModule : ModulePath := ⟨["crate", "x"]⟩

theorem rawChild_isSubmodule : rawChild.IsSubmodule := ⟨by unfold IsValid; decide +kernel, rfl, by decide⟩

theorem plainModule_isSubmodule : plainModule.IsSubmodule := ⟨by unfold IsValid; decide +kernel, rfl, by decide⟩

theorem candidates_told_apart_raw : rawChild.IsSubmodule ∧ plainModule.IsSubmodule ∧ rawChild.fileNames ≠ plainModule.fileNames ∧
    rawChild.SharesModFile plainModule ⟨0, ["src"]⟩ ⟨0, ["src", "x", "mod.rs"]⟩ := by
  obtain ⟨-, -, shared⟩ := candidates_told_apart ⟨0, ["src"]⟩ rawChild_isSubmodule plainModule_isSubmodule
  have different : rawChild.fileNames ≠ plainModule.fileNames := by decide
  have both := shared different ⟨0, ["src", "x", "mod.rs"]⟩ ⟨_, rfl, by decide⟩ ⟨_, rfl, by decide⟩
  refine ⟨rawChild_isSubmodule, plainModule_isSubmodule, different, both.resolve_right ?_⟩
  rintro ⟨around, last, segments, ended, -⟩
  have name := congrArg List.getLast? segments
  rw [List.getLast?_append_of_ne_nil _ (by simp), List.getLast?_singleton] at name
  rw [← Option.some.inj name] at ended
  exact absurd ended (by decide)

/-- A raw name stands for the same file, so that a module `mod` may share a file with a module that it does not lie in as
the two are written. -/
theorem not_sharesModFile_asWritten : ¬ ∀ (directory file : FilePath) (p q : ModulePath), p.IsSubmodule → q.IsSubmodule →
    p.fileNames ≠ q.fileNames → p.IsCandidate directory file → q.IsCandidate directory file →
      ∃ segment ∈ ["mod", "r#mod"], p.segments = q.segments ++ [segment] ∨ q.segments = p.segments ++ [segment] := by
  intro extended
  have one := extended ⟨0, ["src"]⟩ ⟨0, ["src", "x", "mod.rs"]⟩ rawChild plainModule rawChild_isSubmodule
    plainModule_isSubmodule (by decide) ⟨_, rfl, by decide⟩ ⟨_, rfl, by decide⟩
  revert one
  decide

end ModulePath

end CrateFold
