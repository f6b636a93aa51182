/-
# Failure clusters

Specification, section 3, `FailureCluster` and `FailureClassificationProfile`.

A cluster collects the evidence for one kind of failure. A profile lists the
clusters of a run of checks and says whether an automatic correction makes
sense.

A cluster is written as an object whose member `type` names its kind, or as an
array that begins with the kind. All of it is kept while it is read, so members
that no kind has must be well formed too.
-/

import Strata.Json.Record

namespace Strata

/-- An import that the layer matrix denies. -/
structure LayerEdge where
  file : String
  sourceLayer : String
  targetLayer : String
  target : String
  deriving Repr, DecidableEq

namespace LayerEdge

/-- The document of an edge. -/
def toJson (e : LayerEdge) : Json :=
  .record
    [("file", .ofText e.file), ("sourceLayer", .ofText e.sourceLayer),
     ("targetLayer", .ofText e.targetLayer), ("target", .ofText e.target)]

/-- Reads an edge. -/
def ofJson? (json : Json) : Option LayerEdge := do
  let f ← Json.fields? ["file", "sourceLayer", "targetLayer", "target"] json
  return {
    file := ← f.required "file" Json.text?
    sourceLayer := ← f.required "sourceLayer" Json.text?
    targetLayer := ← f.required "targetLayer" Json.text?
    target := ← f.required "target" Json.text? }

end LayerEdge

/-- The evidence for one kind of failure. -/
inductive Cluster where
  | architectureContract (modules missingLayers unknownLayerFiles : List String)
  | layerBoundaryViolation (files : List String) (edges : List LayerEdge)
  | importResolutionError (files imports : List String)
  | dependencyCycle (cycles : List String)
  | runtimeMiddlewareApi (message : String)
  | testContractGap (modules : List String)
  | typecheckFailure
  | buildFailure
  | testFailure
  deriving Repr, DecidableEq

namespace Cluster

/-- The name of the kind of a cluster. -/
def kind : Cluster → String
  | architectureContract _ _ _ => "architecture_contract"
  | layerBoundaryViolation _ _ => "layer_boundary_violation"
  | importResolutionError _ _ => "import_resolution_error"
  | dependencyCycle _ => "dependency_cycle"
  | runtimeMiddlewareApi _ => "runtime_middleware_api"
  | testContractGap _ => "test_contract_gap"
  | typecheckFailure => "typecheck_failure"
  | buildFailure => "build_failure"
  | testFailure => "test_failure"

/-- A cluster in one line. -/
def describe : Cluster → String
  | architectureContract modules missing files =>
    let modules := Text.join ", " modules
    let missing := Text.join ", " missing
    s!"architecture contract: modules [{modules}], missing layers [{missing}], " ++
      s!"{files.length} file(s) in unknown layers"
  | layerBoundaryViolation files edges =>
    s!"layer boundary: {edges.length} edge(s) across {files.length} file(s)"
  | importResolutionError files imports =>
    let imports := Text.join ", " imports
    s!"import resolution: [{imports}] from {files.length} file(s)"
  | dependencyCycle cycles => s!"dependency cycles: {cycles.length}"
  | runtimeMiddlewareApi message => s!"runtime middleware api: {message}"
  | testContractGap modules =>
    let modules := Text.join ", " modules
    s!"test contract gap: [{modules}]"
  | typecheckFailure => "typecheck failure"
  | buildFailure => "build failure"
  | testFailure => "test failure"

/-- The document of a cluster. -/
def toJson (c : Cluster) : Json :=
  .record <|
    ("type", .ofText c.kind) ::
      match c with
      | architectureContract modules missing files =>
        [("modules", .ofTexts modules), ("missingLayers", .ofTexts missing),
         ("unknownLayerFiles", .ofTexts files)]
      | layerBoundaryViolation files edges =>
        [("files", .ofTexts files), ("edges", .array (edges.map LayerEdge.toJson))]
      | importResolutionError files imports =>
        [("files", .ofTexts files), ("imports", .ofTexts imports)]
      | dependencyCycle cycles => [("cycles", .ofTexts cycles)]
      | runtimeMiddlewareApi message => [("message", .ofText message)]
      | testContractGap modules => [("modules", .ofTexts modules)]
      | typecheckFailure | buildFailure | testFailure => []

/-- Reads the evidence of a kind without evidence: members are passed over, an
array has to be empty. -/
def ofNothing? (c : Cluster) : Json → Option Cluster
  | .array [] => some c
  | .object _ => some c
  | _ => none

/-- Reads the evidence of a cluster of the given kind. -/
def ofEvidence? (kind : String) (json : Json) : Option Cluster :=
  match kind with
  | "architecture_contract" => do
    let f ← Json.fields? ["modules", "missingLayers", "unknownLayerFiles"] json
    return architectureContract (← f.required "modules" Json.texts?)
      (← f.required "missingLayers" Json.texts?) (← f.required "unknownLayerFiles" Json.texts?)
  | "layer_boundary_violation" => do
    let f ← Json.fields? ["files", "edges"] json
    return layerBoundaryViolation (← f.required "files" Json.texts?)
      (← f.required "edges" (Json.list? LayerEdge.ofJson?))
  | "import_resolution_error" => do
    let f ← Json.fields? ["files", "imports"] json
    return importResolutionError (← f.required "files" Json.texts?)
      (← f.required "imports" Json.texts?)
  | "dependency_cycle" => do
    let f ← Json.fields? ["cycles"] json
    return dependencyCycle (← f.required "cycles" Json.texts?)
  | "runtime_middleware_api" => do
    let f ← Json.fields? ["message"] json
    return runtimeMiddlewareApi (← f.required "message" Json.text?)
  | "test_contract_gap" => do
    let f ← Json.fields? ["modules"] json
    return testContractGap (← f.required "modules" Json.texts?)
  | "typecheck_failure" => ofNothing? typecheckFailure json
  | "build_failure" => ofNothing? buildFailure json
  | "test_failure" => ofNothing? testFailure json
  | _ => none

/-- Containers around a cluster when a document holds a list of them. -/
def depthAround : Nat := 2

/-- Reads a cluster. -/
def ofJson? (json : Json) : Option Cluster :=
  if (json.free? (Json.maxDepth - depthAround)).isNone then none
  else
    match json with
    | .array (tag :: evidence) => tag.text?.bind fun kind => ofEvidence? kind (.array evidence)
    | .object _ => do
      let members ← json.members?
      match members.filter fun m => m.1 = "type" with
      | [(_, tag)] => tag.text?.bind fun kind => ofEvidence? kind json
      | _ => none
    | _ => none

end Cluster

/-- Why an automatic correction makes sense. -/
inductive FailureReason where
  | architecture
  | typecheck
  | build
  deriving Repr, DecidableEq

namespace FailureReason

/-- The text of a reason. -/
def text : FailureReason → String
  | architecture => "architecture"
  | typecheck => "typecheck"
  | build => "build"

/-- Reads a reason. -/
def ofJson? (json : Json) : Option FailureReason :=
  (Json.name? json).bind fun name =>
    [architecture, typecheck, build].find? fun r => r.text == name

end FailureReason

/-- What a run of checks amounts to. -/
structure Profile where
  shouldAutoCorrect : Bool
  clusters : List Cluster
  architectureCollapse : Bool
  reason : Option FailureReason
  blockingCount : UInt64
  architectureModules : Option (List String)
  deriving DecidableEq

namespace Profile

/-- The profile of a run in which nothing failed. -/
def zero : Profile := ⟨false, [], false, none, 0, none⟩

/-- The document of a profile; modules that are missing are left out. -/
def toJson (p : Profile) : Json :=
  .record <|
    [("shouldAutoCorrect", .bool p.shouldAutoCorrect),
     ("clusters", .array (p.clusters.map Cluster.toJson)),
     ("architectureCollapse", .bool p.architectureCollapse),
     ("reason", .ofOption (fun r => .ofText r.text) p.reason),
     ("blockingCount", .ofNat p.blockingCount.toNat)] ++
    p.architectureModules.toList.map fun modules => ("architectureModules", .ofTexts modules)

/-- Reads a profile. -/
def ofJson? (json : Json) : Option Profile := do
  let f ← Json.fields?
    ["shouldAutoCorrect", "clusters", "architectureCollapse", "reason", "blockingCount",
     "architectureModules"] json
  return {
    shouldAutoCorrect := ← f.required "shouldAutoCorrect" Json.truth?
    clusters := ← f.required "clusters" (Json.list? Cluster.ofJson?)
    architectureCollapse := ← f.required "architectureCollapse" Json.truth?
    reason := ← f.nullable "reason" FailureReason.ofJson?
    blockingCount := ← f.required "blockingCount" Json.natural?
    architectureModules := ← f.optional "architectureModules" Json.texts? }

end Profile

end Strata
