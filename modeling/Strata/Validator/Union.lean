/-
# All validators

Specification, section 4.4: the validators in their fixed order.

A validator is a scan of a project with a name. The violations of several
validators are merged and sorted; the first validator that fails, in the order
of registration, decides the error.
-/

import Strata.Validator.Structure
import Strata.Validator.Coupling
import Strata.Validator.Security
import Strata.Validator.Tests

namespace Strata

/-- A scan of a project. -/
structure Validator where
  id : String
  scan : Files → Path → Contract → Except IoError (List Violation)

namespace Validator

/-- The validators that are registered. -/
def registered : List Validator :=
  [⟨"structure", Structure.scan⟩, ⟨"ast", Coupling.scan⟩, ⟨"security", Security.scan⟩,
   ⟨"test_contract", Tests.scan⟩]

/-- The validator of this name. -/
def find? (id : String) : Option Validator := registered.find? fun v => v.id == id

/-- What some validators find, merged and sorted. -/
def runAll (validators : List Validator) (files : Files) (root : Path) (c : Contract) :
    Except IoError (List Violation) := do
  return Violation.sort (← validators.mapM fun v => v.scan files root c).flatten

end Validator

end Strata
