/-
# What an import amounts to

Specification, section 4.3: what the imports of a node are flagged for.

Every specifier of a node has one of five outcomes:

| outcome | when |
| --- | --- |
| `edge` | it is relative and means a node |
| `outside` | it is relative and means another file of the project |
| `unresolved` | it is relative and means no file |
| `aliased` | it is not relative, names code of the project, and is not allowed to |
| `package` | it is any other specifier that is not relative |

An edge is checked against the layer matrix and against the isolation of
modules: a module may import from another one only what lies directly in that
module or in one of its surface layers.
-/

import Strata.Graph.Basic
import Strata.Graph.Alias
import Strata.Import.Statement

namespace Strata
namespace Graph

/-- What an import amounts to. -/
inductive Outcome where
  | edge (target : Nat)
  | outside (file : Path)
  | unresolved
  | aliased
  | package
  deriving Repr, DecidableEq

/-- What the outcome of an import depends on besides importer and specifier. -/
structure Surroundings where
  contract : Contract
  names : InternalNames
  /-- true for the normalized path of a file of the project -/
  isKnown : Path → Bool
  /-- the number of the node with this normalized path -/
  numberOf? : Path → Option Nat

/-- The outcome of an import. -/
def Surroundings.outcome (w : Surroundings) (importer : Path) (specifier : String) : Outcome :=
  match Import.kindOf specifier with
  | .nonRelative =>
    if w.names.isInternal specifier && !isAllowedAlias w.contract specifier then .aliased
    else .package
  | .relative =>
    match Import.resolve importer specifier w.isKnown with
    | none => .unresolved
    | some file =>
      match w.numberOf? file with
      | some target => .edge target
      | none => .outside file

/-- An import of a node. -/
structure ImportRecord where
  importer : Nat
  specifier : String
  outcome : Outcome
  deriving Repr, DecidableEq

/-- The imports of one node. -/
def Surroundings.importsOf (w : Surroundings) (number : Nat) (source : SourceFile) :
    List ImportRecord :=
  match source.text with
  | none => []
  | some text =>
    (Import.specifiers text).map fun s => ⟨number, s, w.outcome source.path s⟩

/-- The edge that an import adds. -/
def ImportRecord.edge? (r : ImportRecord) : Option Edge :=
  match r.outcome with
  | .edge target => some ⟨r.importer, target, r.specifier⟩
  | _ => none

/-- The layers of an import that the matrix denies. -/
def deniedLayers? (c : Contract) (source target : PathClass) : Option (String × String) :=
  match source.layer?, target.layer? with
  | some a, some b => if c.allowsImport a b then none else some (a, b)
  | _, _ => none

/-- True when other modules may import what lies there. -/
def isPublic (c : Contract) : PathClass → Bool
  | .moduleOnly _ => true
  | place => c.isSurface place.layer?

/-- The modules of an import that reaches into another module. -/
def invadedModules? (c : Contract) (source target : PathClass) : Option (String × String) :=
  match source.module?, target.module? with
  | some a, some b => if a ≠ b ∧ ¬ isPublic c target then some (a, b) else none
  | _, _ => none

/-- The violation of the layer matrix by an edge. -/
def matrixViolation? (c : Contract) (source target : Node) : Option Violation :=
  (deniedLayers? c source.place target.place).map fun (a, b) =>
    .error .layerMatrix source.relativePath s!"Layer '{a}' may not import layer '{b}' ({a} -> {b})"
      (some target.relativePath)

/-- The violation of the isolation of modules by an edge. -/
def isolationViolation? (c : Contract) (source target : Node) : Option Violation :=
  (invadedModules? c source.place target.place).map fun (a, b) =>
    let layer := target.place.layer?.getD "unlayered"
    .error .moduleIsolation source.relativePath
      s!"Module '{a}' reaches into module '{b}' outside its public surface ({layer})"
      (some target.relativePath)

/-- The violations of an import by the outcome. -/
def ImportRecord.violations (c : Contract) (nodes : Array Node) (r : ImportRecord) :
    List Violation :=
  match nodes[r.importer]? with
  | none => []
  | some node =>
    match r.outcome with
    | .outside _ | .package => []
    | .aliased =>
      [.error .nonRelativeImport node.relativePath
        s!"Non-relative import '{r.specifier}' of project code; use a relative path"
        (some r.specifier)]
    | .unresolved =>
      [.error .missingTarget node.relativePath
        s!"Import '{r.specifier}' does not resolve to a file" (some r.specifier)]
    | .edge target =>
      match nodes[target]? with
      | none => []
      | some imported =>
        (matrixViolation? c node imported).toList ++ (isolationViolation? c node imported).toList

/-- The violation of a node that lies in no recognized layer. -/
def unknownLayerViolation? (node : Node) : Option Violation :=
  match node.place with
  | .unknownModuleLayer module segment =>
    some <| .error .unknownLayer node.relativePath
      s!"Module '{module}' contains unrecognized layer directory '{segment}'" (some segment)
  | .unknownTopLevel segment =>
    some <| .error .unknownTopLevel node.relativePath
      (s!"Top-level source directory '{segment}' is neither a recognized layer " ++
        "nor an allowed directory")
      (some segment)
  | .outOfScope | .moduleLayer _ _ | .moduleOnly _ | .layerOnly _ | .benign => none

end Graph
end Strata
