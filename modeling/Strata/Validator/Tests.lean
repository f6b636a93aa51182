/-
# Tests of modules

Specification, section 4.4, item 4: the rules `TEST.CONTRACT_*`.

Every module has to have a test file, in its own directory or in the directory
of its name below `tests`, and every test file should declare a test case.
-/

import Strata.Validator.Structure
import Strata.Text.Pattern

namespace Strata
namespace Tests

open Text Pattern

/-- The directory at the root that may hold the tests of modules. -/
def rootDirectory : Path := ⟨"tests"⟩

/-- The start of a test case. -/
def testCase : Pattern :=
  sequence
    [.at .wordEdge, .either (.text "it") (.text "test"),
     optional (.seq (.text ".") (anyOf [.text "each", .text "only", .text "concurrent"])),
     .greedy isBlank, .text "("]

/-- True for a source that declares a test case. -/
def declaresTestCase (source : String) : Bool := testCase.occursIn source

/-- The test files below a directory. -/
def testFilesIn (files : Files) (dir : Path) : Except IoError (List FoundFile) := do
  let found ← files.walk dir
  return sortByPath (found.filter fun f => isCodeFile f.path && isTestFile f.path)

/-- The test files of a module. -/
def testFilesOf (files : Files) (root : Path) (m : ModuleDirectory) :
    Except IoError (List FoundFile) := do
  let beside := (root.join rootDirectory).child m.name
  return (← testFilesIn files m.path) ++ (← testFilesIn files beside)

/-- The violation of a module without tests. -/
def testsMissing (c : Contract) (module : String) : Violation :=
  .error .testsMissing (c.modulePath module) s!"Module '{module}' has no test files" (some module)

/-- The violation of a test file without test cases. -/
def testsEmpty (module file : String) : Violation :=
  .warning .testsEmpty file s!"Test file for module '{module}' declares no test cases" (some module)

/-- What is wrong with the tests of a module. -/
def scanModule (files : Files) (root : Path) (c : Contract) (m : ModuleDirectory) :
    Except IoError (List Violation) := do
  match ← testFilesOf files root m with
  | [] => return [testsMissing c m.name]
  | tests =>
    return tests.filterMap fun f =>
      match f.text with
      | some source =>
        if declaresTestCase source then none
        else some (testsEmpty m.name (root.relativeTo f.path))
      | none => none

/-- What is wrong with the tests of a project. -/
def scan (files : Files) (root : Path) (c : Contract) : Except IoError (List Violation) := do
  let modules ← moduleDirectories files root c
  return (← modules.mapM (scanModule files root c)).flatten

end Tests
end Strata
