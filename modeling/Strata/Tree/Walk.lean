/-
# Walking a directory

Specification, section 4.3: the directories that a walk skips.

A walk lists every file below a directory, in the order of the listings. It
does not enter directories whose name starts with a dot, nor those of
`skippedDirectories`; the directory it starts from is entered whatever its
name.
-/

import Strata.Tree

namespace Strata

/-- Directories of dependencies and of build products. -/
def skippedDirectories : List String :=
  ["node_modules", "dist", "build", "coverage", "out", "target"]

/-- True for a directory that a walk does not enter. -/
def isSkippedDirectory (name : String) : Bool :=
  Text.startsWith "." name || skippedDirectories.contains name

/-- A file that a walk found, and its text if it is one. -/
structure FoundFile where
  path : Path
  text : Option String
  deriving Repr, DecidableEq

mutual

/-- The files of one entry of the directory at `dir`. -/
def filesOfEntry (dir : Path) (name : String) : Entry → List FoundFile
  | .file text => [⟨dir.child name, text⟩]
  | .directory entries =>
    if isSkippedDirectory name then [] else filesOfEntries (dir.child name) entries

/-- The files of the entries of the directory at `dir`. -/
def filesOfEntries (dir : Path) : List (String × Entry) → List FoundFile
  | [] => []
  | (name, entry) :: rest => filesOfEntry dir name entry ++ filesOfEntries dir rest

end

namespace Files

/-- The files below a directory; none when nothing stands there. -/
def walk (files : Files) (dir : Path) : Except IoError (List FoundFile) := do
  match ← files.list? dir with
  | some entries => return filesOfEntries dir entries
  | none => return []

end Files

/-- Files in the order of their paths. -/
def sortByPath (found : List FoundFile) : List FoundFile :=
  found.mergeSort fun a b => (a.path.order b.path).isLE

end Strata
