/-
# What can stop an operation

Specification, section 7: the error type.

Every operation on a project either answers or stops for one of four causes.
-/

import Strata.Tree
import Strata.Contract.Validity

namespace Strata

/-- Why an operation stopped. -/
inductive ProjectError where
  | io (cause : IoError)
  /-- a document is no JSON text, or not of the expected type -/
  | json
  | contract (cause : ContractError)
  | notFound (what : String)
  deriving Repr, DecidableEq

/-- The text of an error. -/
def ProjectError.message : ProjectError → String
  | .io cause => "I/O error: " ++ cause.message
  | .json => "JSON error"
  | .contract cause => "Contract error: " ++ cause.message
  | .notFound what => "Not found: " ++ what

/-- An operation on files as one on a project. -/
def liftIo {α : Type} : Except IoError α → Except ProjectError α := Except.mapError .io

end Strata
