import CrateFold.Text.Split

/-!
# File paths

A path is a number of leading slashes and a list of parts. Reading a path drops empty parts and
parts `.`, and keeps parts `..`. `FilePath.resolve` makes a path absolute, from a working directory,
and removes the parts `..`; it is the name by which a file is known once.
-/

namespace CrateFold

/-- A path of the file system. -/
structure FilePath where
  /-- Leading slashes: none, one, or exactly two. -/
  slashes : Nat := 0
  /-- The parts between slashes, none of them empty or `.`. -/
  parts : List String := []
deriving DecidableEq, Repr, Inhabited

namespace FilePath

/-- The number of leading slashes that a path keeps: three and more count as one. -/
def leadingSlashes (s : List Char) : Nat :=
  let n := (s.takeWhile (· == '/')).length
  if n ≤ 2 then n else 1

/-- Reads a path. -/
def ofString (s : String) : FilePath where
  slashes := leadingSlashes s.toList
  parts := ((Text.splitAtChar '/' s.toList).map String.ofList).filter fun part => part != "" && part != "."

/-- The text of a path; the empty path is written `.`. -/
def text (p : FilePath) : String :=
  if p.slashes == 0 && p.parts.isEmpty then "."
  else Text.repeated p.slashes '/' ++ "/".intercalate p.parts

instance : ToString FilePath := ⟨text⟩

/-- Whether a path starts at the root directory. -/
def isAbsolute (p : FilePath) : Bool := 0 < p.slashes

/-- The path `q` seen from the directory `p`; an absolute `q` stands for itself. -/
def join (p q : FilePath) : FilePath := if q.isAbsolute then q else ⟨p.slashes, p.parts ++ q.parts⟩

/-- The path without its last part. -/
def parent (p : FilePath) : FilePath := ⟨p.slashes, p.parts.dropLast⟩

/-- The last part of a path, empty if there is none. -/
def name (p : FilePath) : String := p.parts.getLastD ""

/-- Whether a path holds a NUL character, which no file name can. -/
def hasNul (p : FilePath) : Bool := p.parts.any fun part => part.toList.contains '\x00'

/-- Goes down the parts from a directory, a part `..` going up. -/
def descend (directory : List String) (parts : List String) : List String :=
  parts.foldl (fun here part => if part == ".." then here.dropLast else here ++ [part]) directory

/-- The directory that a path starts from: the root directory, or the one worked in. -/
def origin (p : FilePath) (working : List String) : List String := if p.isAbsolute then [] else working

/-- The parts of a path from the root directory, without parts `..`. -/
def resolvedParts (p : FilePath) (working : List String) : List String := descend (p.origin working) p.parts

/-- The absolute form of a path, without parts `..`. -/
def resolve (p : FilePath) (working : List String) : FilePath := ⟨1, p.resolvedParts working⟩

end FilePath

end CrateFold
