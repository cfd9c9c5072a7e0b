/-
EntityQuery/Server/Directory.lean

A directory held in memory, and the paths that lead to its files.

A file stands under its place, the names of the directories that lead to it
and its own.  Of a path every part is followed in turn: an empty part and a
single dot stay where they are, two dots go back, and a name goes on to a
directory or, as the last part, to a file.  What lies outside is not found.
-/
import EntityQuery.Keyed

namespace EntityQuery

/-- A directory: the texts of its files by their places. -/
structure Directory where
  files : List (List String × String)

namespace Directory

/-- The directory of some files, given by their paths from it. -/
def ofPaths (files : Keyed String) : Directory :=
  ⟨files.map fun (path, text) => (path.splitOn "/", text)⟩

/-- Whether a place is a directory that leads to a file. -/
def hasBelow (d : Directory) (place : List String) : Bool :=
  d.files.any fun (file, _) => place.length < file.length && file.take place.length = place

/-- Follow the parts of a path from a place. -/
def follow (d : Directory) : List String → List String → Option String
  | _, [] => none
  | place, part :: rest =>
    if part = "" ∨ part = "." then d.follow place rest
    else if part = ".." then if place.isEmpty then none else d.follow place.dropLast rest
    else
      let next := place ++ [part]
      if rest.isEmpty then d.files.lookup next
      else if d.hasBelow next then d.follow next rest
      else none

/-- The text of the file that a path leads to. -/
def read? (d : Directory) (path : String) : Option String :=
  if path.startsWith "/" then none else d.follow [] (path.splitOn "/")

/-- A name is looked up at the place itself. -/
theorem follow_name {d : Directory} {place : List String} {name : String}
    (h : name ≠ "" ∧ name ≠ "." ∧ name ≠ "..") :
    d.follow place [name] = d.files.lookup (place ++ [name]) := by
  simp [follow, h.1, h.2.1, h.2.2]

/-- Staying where one is changes nothing. -/
theorem follow_here {d : Directory} {place rest : List String} :
    d.follow place ("." :: rest) = d.follow place rest := by
  simp [follow]

end Directory

end EntityQuery
