/-
# Where a path lies in the layers

Specification, section 4.1: the classifier of paths.

A path below the project root is classified by its segments against a contract.
Here `src` stands for the source root and `modules` for the module container.

| segments | class |
| --- | --- |
| not below `src`; `src`; `src/modules`; a file in `src/modules` | `outOfScope` |
| `src/modules/m`; a file in it | `moduleOnly` |
| `src/modules/m/l/…` | `moduleLayer` when `l` is a layer, else `unknownModuleLayer` |
| `src/l/…`, `l` a layer | `layerOnly` |
| a file in `src`; `src/d/…`, `d` allowed at top level | `benign` |
| any other `src/s/…` | `unknownTopLevel` |

A segment with a dot in it looks like a file.
-/

import Strata.Contract.Basic
import Strata.Text.Basic

namespace Strata

open Text

/-- Where a path lies. -/
inductive PathClass where
  | outOfScope
  | moduleLayer (module layer : String)
  | moduleOnly (module : String)
  | unknownModuleLayer (module segment : String)
  | layerOnly (layer : String)
  | benign
  | unknownTopLevel (segment : String)
  deriving Repr, DecidableEq

namespace PathClass

/-- The name of the kind of class. -/
def kind : PathClass → String
  | outOfScope => "out_of_scope"
  | moduleLayer _ _ => "module_layer"
  | moduleOnly _ => "module_only"
  | unknownModuleLayer _ _ => "unknown_module_layer"
  | layerOnly _ => "layer_only"
  | benign => "benign"
  | unknownTopLevel _ => "unknown_top_level"

/-- The module that the path lies in. -/
def module? : PathClass → Option String
  | moduleLayer module _ | moduleOnly module | unknownModuleLayer module _ => some module
  | outOfScope | layerOnly _ | benign | unknownTopLevel _ => none

/-- The layer that the path lies in. -/
def layer? : PathClass → Option String
  | moduleLayer _ layer | layerOnly layer => some layer
  | outOfScope | moduleOnly _ | unknownModuleLayer _ _ | benign | unknownTopLevel _ => none

/-- The directory that stands where a layer should. -/
def unknownLayer? : PathClass → Option String
  | unknownModuleLayer _ segment | unknownTopLevel segment => some segment
  | outOfScope | moduleLayer _ _ | moduleOnly _ | layerOnly _ | benign => none

/-- The document of a class. -/
def toJson (c : PathClass) : Json :=
  .record <|
    ("kind", .ofText c.kind) ::
      match c with
      | outOfScope | benign => []
      | moduleLayer module layer => [("module", .ofText module), ("layer", .ofText layer)]
      | moduleOnly module => [("module", .ofText module)]
      | unknownModuleLayer module segment =>
        [("module", .ofText module), ("segment", .ofText segment)]
      | layerOnly layer => [("layer", .ofText layer)]
      | unknownTopLevel segment => [("segment", .ofText segment)]

end PathClass

/-- The segments of a relative path: backslashes count as slashes, and empty
segments and dots are dropped. -/
def pathSegments (path : String) : List String :=
  ((splitOn '/' (forwardSlashes path.toList)).filter fun s => s ≠ [] ∧ s ≠ ['.']).map String.ofList

/-- The segments of a relative path, joined by slashes. -/
def normalizeRelative (path : String) : String := join "/" (pathSegments path)

/-- A segment with a dot in it. -/
def looksLikeFile (segment : String) : Bool := segment.toList.contains '.'

namespace Contract

/-- The class of a path inside a module, by the segments behind the module. -/
def classifyInModule (c : Contract) (module : String) : List String → PathClass
  | [] => .moduleOnly module
  | [segment] =>
    if looksLikeFile segment then .moduleOnly module
    else if c.recognizes segment then .moduleLayer module segment
    else .unknownModuleLayer module segment
  | segment :: _ :: _ =>
    if c.recognizes segment then .moduleLayer module segment
    else .unknownModuleLayer module segment

/-- The class of a path in the module container, by the segments behind it. -/
def classifyInContainer (c : Contract) : List String → PathClass
  | [] => .outOfScope
  | [segment] => if looksLikeFile segment then .outOfScope else .moduleOnly segment
  | module :: segment :: rest => c.classifyInModule module (segment :: rest)

/-- The class of a path in the source root, by the segments behind it. -/
def classifyInRoot (c : Contract) : List String → PathClass
  | [] => .outOfScope
  | first :: rest =>
    if first = c.moduleContainer then c.classifyInContainer rest
    else if c.recognizes first then .layerOnly first
    else if looksLikeFile first || c.allowsTopLevel first then .benign
    else .unknownTopLevel first

/-- The class of a list of segments below the project root. -/
def classifySegments (c : Contract) : List String → PathClass
  | [] => .outOfScope
  | first :: rest => if first = c.sourceRoot then c.classifyInRoot rest else .outOfScope

/-- The class of a path below the project root. -/
def classify (c : Contract) (path : String) : PathClass := c.classifySegments (pathSegments path)

end Contract

end Strata
