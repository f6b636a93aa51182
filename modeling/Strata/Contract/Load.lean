/-
# The contract of a project

Specification, section 8: an explicit file, else the project's own, else the default.

A file that is named explicitly wins, then the project's own contract at
`contractPath`, then the built-in contract. A file with the extension `json`
holds JSON, any other file TOML. Whatever was found has to be valid.
-/

import Strata.Contract.Document
import Strata.ProjectError

namespace Strata
namespace Contract

/-- Where a project keeps its own contract. -/
def contractPath : Path := ⟨".archgate/contract.toml"⟩

/-- Reads the text of a contract file. -/
def ofFileText? (path : Path) (text : String) : Option Contract :=
  if path.extension? = some "json" then ofJsonText? text else ofTomlText? text

/-- Reads a contract file. -/
def readFile (files : Files) (path : Path) : Except ProjectError Contract := do
  let text ← liftIo (files.readText path)
  match ofFileText? path text with
  | some c => .ok c
  | none => .error (.contract .malformed)

/-- The contract that holds for a project, before it is checked. -/
def select (files : Files) (root : Path) : (explicit : Option Path) → Except ProjectError Contract
  | some path =>
    if files.existsAt path then readFile files path
    else .error (.notFound s!"contract file {path.text}")
  | none =>
    if files.existsAt (root.join contractPath) then readFile files (root.join contractPath)
    else .ok standard

/-- The contract that holds for a project. -/
def load (files : Files) (root : Path) (explicit : Option Path) : Except ProjectError Contract := do
  let c ← select files root explicit
  match c.validate with
  | .ok () => .ok c
  | .error cause => .error (.contract cause)

end Contract
end Strata
