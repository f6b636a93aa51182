/-
# Source files

Specification, section 4.3: production code, declarations and tests.

| kind | told by |
| --- | --- |
| code | its extension: one of `Import.sourceExtensions` |
| test | `.test.` or `.spec.` in its name |
| declarations | a name that ends in `.d.ts`, `.d.mts` or `.d.cts` |

Production code is code below the source root that is neither test nor
declarations and lies in no directory for tests.
-/

import Strata.Tree.Walk
import Strata.Import.Resolve
import Strata.Contract.Basic

namespace Strata

open Text

/-- True for a file whose extension is one of code. -/
def isCodeFile (path : Path) : Bool := path.extension?.any Import.sourceExtensions.contains

/-- True for a file whose name marks it as a test. -/
def isTestFile (path : Path) : Bool :=
  let name := path.fileName?.getD ""
  contains ".test." name || contains ".spec." name

/-- True for a file that only declares types. -/
def isDeclarationFile (path : Path) : Bool :=
  let name := path.fileName?.getD ""
  endsWith ".d.ts" name || endsWith ".d.mts" name || endsWith ".d.cts" name

/-- Directories that hold tests. -/
def testDirectories : List String := ["__tests__", "tests"]

/-- True for a relative path with a directory for tests in it. -/
def isUnderTests (relativePath : String) : Bool :=
  (splitOn '/' relativePath.toList).any fun segment =>
    testDirectories.contains (String.ofList segment)

/-- A file of production code. -/
structure SourceFile where
  path : Path
  /-- the path below the project root -/
  relativePath : String
  text : Option String
  deriving Repr, DecidableEq

/-- The production code among the files that a walk found, in the order of the
relative paths. -/
def selectProduction (root : Path) (found : List FoundFile) : List SourceFile :=
  let code := found.filter fun f =>
    isCodeFile f.path && !isTestFile f.path && !isDeclarationFile f.path
  let sources := code.map fun f => SourceFile.mk f.path (root.relativeTo f.path) f.text
  (sources.filter fun s => !isUnderTests s.relativePath).mergeSort fun a b =>
    (compare a.relativePath b.relativePath).isLE

/-- The directory that holds the sources of a project. -/
def Contract.sourceDirectory (c : Contract) (root : Path) : Path := root.join ⟨c.sourceRoot⟩

/-- The production code of a project. -/
def productionFiles (files : Files) (root : Path) (c : Contract) :
    Except IoError (List SourceFile) := do
  return selectProduction root (← files.walk (c.sourceDirectory root))

end Strata
