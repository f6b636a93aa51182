/-
# From checks to a profile

Specification, section 4.5: the failure classifier.

The failed checks of a run are grouped into clusters. Nothing is diagnosed
unless a check with a recognized name failed, and clusters are only built when
there is a reason for an automatic correction.

| cluster | evidence |
| --- | --- |
| architecture contract | violations about missing and unknown layers |
| layer boundary | violations of the layer matrix |
| import resolution | violations about missing targets; missing modules in outputs |
| dependency cycle | violations about cycles |
| middleware | a middleware error in the output of `tests` or `boot` |
| test contract gap | violations about tests |
| type check, build, tests | the check failed |

Clusters come in this order, each kind at most once. The violations are those
of the failed architecture check.
-/

import Strata.Layer
import Strata.Text.Ordered
import Strata.Failure.Check
import Strata.Failure.Signals
import Strata.Failure.Cluster

namespace Strata
namespace Diagnosis

open Text

/-- What stands behind the last slash of a path, slashes at its end cut. -/
def lastSegment (path : String) : String :=
  String.ofList (((splitOn '/' (dropTrailing (· == '/') path.toList)).getLast?).getD [])

/-- True for a violation about a layer that a module lacks. -/
def isMissingLayer (v : Violation) : Bool := startsWith Rule.missingLayerFamily v.ruleId

/-- True for a violation about a directory that is no layer. -/
def isUnknownLayer (v : Violation) : Bool := startsWith Rule.unknownLayerFamily v.ruleId

/-- What the violations say about the structure of the project. -/
structure Evidence where
  modules : List String
  missingLayers : List String
  unknownLayerFiles : List String
  /-- the kinds of damage: one per missing layer, one per rule about unknown
  layers -/
  signals : List String
  deriving Repr, DecidableEq

namespace Evidence

/-- The evidence in a list of violations. -/
def ofViolations (c : Contract) (vs : List Violation) : Evidence :=
  let missing := vs.filter isMissingLayer
  let unknown := vs.filter isUnknownLayer
  { modules :=
      ordered (missing.map (fun v => lastSegment v.file) ++
        unknown.filterMap fun v => (c.classify v.file).module?)
    missingLayers := ordered ((missing.map Violation.targetText).filter (· ≠ ""))
    unknownLayerFiles := ordered (unknown.map Violation.file)
    signals :=
      ordered (missing.map (fun v => "missing_layer:" ++ v.targetText) ++
        unknown.map Violation.ruleId) }

/-- True when nothing speaks of damage. -/
def isEmpty (e : Evidence) : Bool := e.signals.isEmpty

/-- How many kinds of damage make a collapse. -/
def collapseThreshold : Nat := 2

/-- True when the architecture has collapsed. -/
def collapsed (e : Evidence) : Bool := collapseThreshold ≤ e.signals.length

/-- The cluster of the evidence. -/
def cluster? (e : Evidence) : Option Cluster :=
  if e.isEmpty then none
  else some (.architectureContract e.modules e.missingLayers e.unknownLayerFiles)

end Evidence

/-- The violations of one rule. -/
def ofRule (rule : Rule) (vs : List Violation) : List Violation :=
  vs.filter fun v => v.ruleId == rule.id

/-- The layer of a path, `unknown` when it lies in none. -/
def layerText (c : Contract) (path : String) : String := (c.classify path).layer?.getD "unknown"

/-- The import that a violation of the layer matrix speaks of. -/
def layerEdge (c : Contract) (v : Violation) : LayerEdge :=
  { file := v.file
    sourceLayer := layerText c v.file
    targetLayer := layerText c v.targetText
    target := v.targetText }

/-- The cluster of the imports that the layer matrix denies. -/
def layerBoundary? (c : Contract) (vs : List Violation) : Option Cluster :=
  match ofRule .layerMatrix vs with
  | [] => none
  | matrix => some (.layerBoundaryViolation (ordered (matrix.map Violation.file))
      (matrix.map (layerEdge c)))

/-- The cluster of the imports without a target. -/
def importResolution? (vs : List Violation) (outputs : List String) : Option Cluster :=
  let dangling := ofRule .missingTarget vs
  let missing := outputs.flatMap Signals.missingModules
  let files := ordered (dangling.map Violation.file ++ missing.filterMap (·.file))
  let imports := ordered (dangling.filterMap Violation.target ++ missing.map (·.specifier))
  if files.isEmpty && imports.isEmpty then none else some (.importResolutionError files imports)

/-- How the message of a cycle begins. -/
def cycleMessageStart : String := "Dependency cycle detected: "

/-- The cycle that a violation speaks of. -/
def cycleText (v : Violation) : String :=
  match v.target with
  | some cycle => cycle
  | none =>
    ((dropPrefix? cycleMessageStart.toList v.message.toList).map String.ofList).getD v.message

/-- The cluster of the cycles. -/
def dependencyCycle? (vs : List Violation) : Option Cluster :=
  match ofRule .cycle vs with
  | [] => none
  | cycles => some (.dependencyCycle (cycles.map cycleText).eraseDups)

/-- The cluster of a middleware error. -/
def middleware? (outputs : List String) : Option Cluster :=
  (outputs.findSome? Signals.middlewareError?).map .runtimeMiddlewareApi

/-- The cluster of the modules whose tests are missing. -/
def testGap? (vs : List Violation) : Option Cluster :=
  match vs.filter fun v => startsWith Rule.testFamily v.ruleId with
  | [] => none
  | gaps =>
    some (.testContractGap (ordered (gaps.map fun v => v.target.getD (lastSegment v.file))))

/-- The cluster of a check that failed. -/
def ofFailed? (check : Option Check) (cluster : Cluster) : Option Cluster :=
  check.map fun _ => cluster

/-- The first failed checks of the recognized names. -/
structure Failures where
  architecture : Option Check
  typecheck : Option Check
  build : Option Check
  tests : Option Check
  boot : Option Check

namespace Failures

/-- The failures among some checks. -/
def ofChecks (checks : List Check) : Failures :=
  { architecture := Check.firstFailed? checks Check.architecture
    typecheck := Check.firstFailed? checks Check.typecheck
    build := Check.firstFailed? checks Check.build
    tests := Check.firstFailed? checks Check.tests
    boot := Check.firstFailed? checks Check.boot }

/-- How much a failed architecture check counts: as it says itself, or its
violations that block, but at least one. -/
def architectureWeight (check : Check) : UInt64 :=
  match check.details.bind CheckDetails.blockingCount with
  | some n => max n 1
  | none => max (UInt64.ofNat (Violation.blockingCount check.violations)) 1

/-- What blocks, as a 64-bit number. -/
def blockingCount (f : Failures) : UInt64 :=
  (f.architecture.map architectureWeight).getD 0 +
    UInt64.ofNat ([f.typecheck, f.build, f.tests, f.boot].filter Option.isSome).length

/-- The reason for an automatic correction. -/
def reason? (f : Failures) : Option FailureReason :=
  if f.architecture.isSome then some .architecture
  else if f.typecheck.isSome then some .typecheck
  else if f.build.isSome then some .build
  else none

/-- What some failed checks printed. -/
def outputs (checks : List (Option Check)) : List String :=
  (checks.flatMap Option.toList).map Check.output

/-- The violations of the failed architecture check. -/
def violations (f : Failures) : List Violation := (f.architecture.map Check.violations).getD []

/-- The clusters of the failures. -/
def clusters (c : Contract) (f : Failures) : List Cluster :=
  [(Evidence.ofViolations c f.violations).cluster?,
   layerBoundary? c f.violations,
   importResolution? f.violations (outputs [f.build, f.tests, f.boot]),
   dependencyCycle? f.violations,
   middleware? (outputs [f.tests, f.boot]),
   testGap? f.violations,
   ofFailed? f.typecheck .typecheckFailure,
   ofFailed? f.build .buildFailure,
   ofFailed? f.tests .testFailure].flatMap Option.toList

/-- The profile of the failures for a reason. -/
def profile (c : Contract) (f : Failures) (reason : FailureReason) : Profile :=
  let evidence := Evidence.ofViolations c f.violations
  { shouldAutoCorrect := true
    clusters := f.clusters c
    architectureCollapse := evidence.collapsed
    reason := some reason
    blockingCount := f.blockingCount
    architectureModules := if evidence.isEmpty then none else some evidence.modules }

end Failures

end Diagnosis

open Diagnosis in
/-- The profile of a run of checks. -/
def Profile.ofChecks (c : Contract) (checks : List Check) : Profile :=
  if checks.any fun check => check.failed && Check.recognized.contains check.id then
    let failures := Failures.ofChecks checks
    match failures.reason? with
    | some reason => failures.profile c reason
    | none => { Profile.zero with blockingCount := failures.blockingCount }
  else .zero

end Strata
