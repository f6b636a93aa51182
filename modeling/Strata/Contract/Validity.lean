/-
# Valid contracts

Specification, section 8: what a contract is rejected for.

A contract is valid when its version has the major number 1, its two directory
names are single names, it recognizes some layer, and every layer that it
mentions is recognized. The first condition that fails, in this order, is the
error.
-/

import Strata.Contract.Basic
import Strata.Text.Basic

namespace Strata

open Text

/-- Why a contract cannot be used. -/
inductive ContractError where
  /-- the document is no contract -/
  | malformed
  | unsupportedVersion (actual : String)
  | sourceRootNotAName
  | moduleContainerNotAName
  | noLayers
  | unknownLayers (mentions : List String)
  deriving Repr, DecidableEq

namespace ContractError

/-- The text of an error. -/
def message : ContractError → String
  | malformed => "CONTRACT_INVALID"
  | unsupportedVersion actual => s!"CONTRACT_VERSION_UNSUPPORTED: actual={actual} expected=1.x"
  | sourceRootNotAName =>
    "CONTRACT_SOURCE_ROOT_INVALID: sourceRoot must be a single directory name"
  | moduleContainerNotAName =>
    "CONTRACT_MODULE_CONTAINER_INVALID: moduleContainer must be a single directory name"
  | noLayers => "CONTRACT_LAYERS_EMPTY: recognizedLayers must not be empty"
  | unknownLayers mentions => "CONTRACT_UNKNOWN_LAYER: " ++ join ", " mentions

end ContractError

namespace Contract

/-- The part of the version before its first dot. -/
def majorVersion (c : Contract) : String :=
  String.ofList (c.version.toList.takeWhile (· != '.'))

/-- True for a text that can name one directory: something besides blanks, and
no slash. -/
def isSingleName (name : String) : Bool := !isBlankText name && !name.toList.contains '/'

/-- The layers without recognition in one row of the matrix, as the row
mentions them. -/
def unknownInRow (c : Contract) (row : String × List String) : List String :=
  (if c.recognizes row.1 then [] else [s!"layerMatrix.{row.1}"]) ++
    (row.2.filter fun target => !c.recognizes target).map fun target =>
      s!"layerMatrix.{row.1}[{target}]"

/-- All mentions of layers without recognition: the matrix row by row, and then
the three lists of layers. -/
def unknownLayers (c : Contract) : List String :=
  c.layerMatrix.rows.flatMap c.unknownInRow ++
    (c.requiredModuleLayers ++ c.crossModuleLayers ++ c.persistenceFreeLayers).filter fun layer =>
      !c.recognizes layer

/-- Checks a contract. -/
def validate (c : Contract) : Except ContractError Unit :=
  if c.majorVersion ≠ "1" then .error (.unsupportedVersion c.version)
  else if !isSingleName c.sourceRoot then .error .sourceRootNotAName
  else if !isSingleName c.moduleContainer then .error .moduleContainerNotAName
  else if c.recognizedLayers.isEmpty then .error .noLayers
  else if !c.unknownLayers.isEmpty then .error (.unknownLayers c.unknownLayers)
  else .ok ()

/-- **The built-in contract is valid.** -/
theorem validate_standard : standard.validate = .ok () := rfl

end Contract

end Strata
