import Testbed.Path

/-!
# Files

What the program sees of the file system: the bytes of files, and which paths lead to directories.
A tree of names below the working directory is one such view; around it there are only directories.
-/

namespace Testbed

structure Files where
  file? : Path → Option (List UInt8)
  isDirectory : Path → Bool

/-- The files and directories below the working directory, by their names from there. -/
structure Tree where
  contents : List (List (List Char) × List UInt8)
  directories : List (List (List Char))

namespace Tree

/-- A place in the file system: below the working directory, or a directory outside of it. -/
inductive Place where
  | below (names : List (List Char))
  | outside
deriving DecidableEq, Repr

/-- Whether a name leads to a directory, which may be there only as the parent of something. -/
def holds (t : Tree) (names : List (List Char)) : Bool :=
  names.isEmpty || t.directories.any (names.isPrefixOf ·) ||
    t.contents.any fun file ↦ names.isPrefixOf file.1 && names != file.1

/-- Goes one name further. -/
def step (t : Tree) (place : Place) (name : List Char) : Option Place :=
  match place with
  | .outside => if name = ['.', '.'] then some .outside else none
  | .below names =>
    if !t.holds names then none
    else if name = ['.', '.'] then
      some (if names.isEmpty then .outside else .below names.dropLast)
    else some (.below (names ++ [name]))

/-- Where a path leads, if the directories on its way are there. -/
def locate (t : Tree) (p : Path) : Option Place :=
  p.names.foldlM t.step (if p.root = .here then .below [] else .outside)

def isDirectory (t : Tree) (p : Path) : Bool :=
  match t.locate p with
  | some (.below names) => t.holds names
  | some .outside => true
  | none => false

/-- The bytes of the file at a path. -/
def file? (t : Tree) (p : Path) : Option (List UInt8) :=
  match t.locate p with
  | some (.below names) => (t.contents.find? (·.1 = names)).map (·.2)
  | _ => none

def files (t : Tree) : Files where
  file? := t.file?
  isDirectory := t.isDirectory

end Tree

end Testbed
