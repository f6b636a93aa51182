/-
# The validation report

Specification, section 4.4: the validation of a project and its report.

A project is validated by building its import graph and running all validators.
The report is ok when no violation blocks. Its fingerprint is the SHA-256 of
the sorted violations, written as compact JSON.
-/

import Strata.Graph.Build
import Strata.Validator.Union
import Strata.Digest.Sha256
import Strata.Failure.Check

namespace Strata

/-- The outcome of a validation. -/
structure Report where
  ok : Bool
  blockingCount : Nat
  warningCount : Nat
  contractVersion : String
  graph : Graph.Summary
  cycles : List (List String)
  violations : List Violation
  fingerprint : String
  deriving Repr, DecidableEq

namespace Report

/-- The text whose digest is the fingerprint of a list of violations. -/
def fingerprintText (vs : List Violation) : String := (Json.array (vs.map Violation.toJson)).compact

/-- The report on a graph and the violations that the validators found. -/
def assemble (c : Contract) (graph : ImportGraph) (found : List Violation) : Report :=
  let violations := Violation.sort (found ++ graph.violations)
  let blocking := Violation.blockingCount violations
  { ok := blocking == 0
    blockingCount := blocking
    warningCount := Violation.warningCount violations
    contractVersion := c.version
    graph := graph.summary
    cycles := graph.cycles
    violations
    fingerprint := Sha256.hexDigest (fingerprintText violations) }

/-- Validates a project with some validators. -/
def validateWith (validators : List Validator) (files : Files) (root : Path) (c : Contract) :
    Except IoError Report := do
  let graph ← ImportGraph.build files root c
  return assemble c graph (← Validator.runAll validators files root c)

/-- Validates a project. -/
def validate : Files → Path → Contract → Except IoError Report :=
  validateWith Validator.registered

/-- The report in one line. -/
def summaryLine (r : Report) : String :=
  if r.ok then s!"architecture validation passed ({r.warningCount} warning(s))"
  else
    s!"architecture validation failed: {r.blockingCount} blocking, {r.warningCount} warning(s)"

/-- The report as the result of the architecture check. -/
def toCheck (r : Report) : Check :=
  { id := Check.architecture
    status := if r.ok then .pass else .fail
    message := some r.summaryLine
    details := some
      { violations := r.violations
        exitCode := none
        stderr := none
        logs := none
        blockingCount := some (UInt64.ofNat r.blockingCount) } }

/-- The document of a report. -/
def toJson (r : Report) : Json :=
  .record
    [("ok", .bool r.ok),
     ("blockingCount", .ofNat r.blockingCount),
     ("warningCount", .ofNat r.warningCount),
     ("contractVersion", .ofText r.contractVersion),
     ("graph", r.graph.toJson),
     ("cycles", .array (r.cycles.map Json.ofTexts)),
     ("violations", .array (r.violations.map Violation.toJson)),
     ("fingerprint", .ofText r.fingerprint)]

end Report

end Strata
