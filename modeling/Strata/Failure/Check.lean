/-
# Check results

Specification, section 4.5: the recognized checks.

A check is run under a name and passes or fails. Its details may hold the
violations it found and what it printed. Five names are recognized:
`architecture`, `typecheck`, `build`, `tests` and `boot`.
-/

import Strata.Violation

namespace Strata

/-- Whether a check passed. -/
inductive CheckStatus where
  | pass
  | fail
  deriving Repr, DecidableEq

namespace CheckStatus

/-- The text of a status. -/
def text : CheckStatus → String
  | pass => "pass"
  | fail => "fail"

/-- Reads a status. -/
def ofJson? (json : Json) : Option CheckStatus :=
  (Json.name? json).bind fun name =>
    if name = "pass" then some pass else if name = "fail" then some fail else none

end CheckStatus

/-- What a check reports besides its status. -/
structure CheckDetails where
  violations : List Violation
  exitCode : Option Int64
  stderr : Option String
  logs : Option String
  blockingCount : Option UInt64
  deriving DecidableEq

namespace CheckDetails

/-- The document of details; what is missing or empty is left out. -/
def toJson (d : CheckDetails) : Json :=
  .record <|
    (if d.violations.isEmpty then []
      else [("violations", Json.array (d.violations.map Violation.toJson))]) ++
    (d.exitCode.toList.map fun n => ("exitCode", .ofInt n.toInt)) ++
    (d.stderr.toList.map fun s => ("stderr", .ofText s)) ++
    (d.logs.toList.map fun s => ("logs", .ofText s)) ++
    (d.blockingCount.toList.map fun n => ("blockingCount", .ofNat n.toNat))

/-- Reads details. -/
def ofJson? (json : Json) : Option CheckDetails := do
  let f ← Json.fields? ["violations", "exitCode", "stderr", "logs", "blockingCount"] json
  return {
    violations := ← f.withDefault "violations" [] (Json.list? Violation.ofJson?)
    exitCode := ← f.optional "exitCode" Json.integer?
    stderr := ← f.optional "stderr" Json.text?
    logs := ← f.optional "logs" Json.text?
    blockingCount := ← f.optional "blockingCount" Json.natural? }

end CheckDetails

/-- The result of a check. -/
structure Check where
  id : String
  status : CheckStatus
  message : Option String
  details : Option CheckDetails
  deriving DecidableEq

namespace Check

/-- The name of the architecture check. -/
def architecture : String := "architecture"

/-- The name of the type check. -/
def typecheck : String := "typecheck"

/-- The name of the build. -/
def build : String := "build"

/-- The name of the test run. -/
def tests : String := "tests"

/-- The name of the check that starts the program. -/
def boot : String := "boot"

/-- The names that are recognized. -/
def recognized : List String := [architecture, typecheck, build, tests, boot]

/-- True for a check that failed. -/
def failed (c : Check) : Bool := c.status == .fail

/-- What a check printed: message, standard error and logs, each on lines of
its own. -/
def output (c : Check) : String :=
  Text.join "\n" <|
    c.message.toList ++ (c.details.bind CheckDetails.stderr).toList ++
      (c.details.bind CheckDetails.logs).toList

/-- The violations that a check found. -/
def violations (c : Check) : List Violation := (c.details.map CheckDetails.violations).getD []

/-- The first failed check of a name. -/
def firstFailed? (checks : List Check) (id : String) : Option Check :=
  checks.find? fun c => c.id == id && c.failed

/-- The document of a check; what is missing is left out. -/
def toJson (c : Check) : Json :=
  .record <|
    [("id", .ofText c.id), ("status", .ofText c.status.text)] ++
    (c.message.toList.map fun s => ("message", .ofText s)) ++
    (c.details.toList.map fun d => ("details", d.toJson))

/-- Reads a check. -/
def ofJson? (json : Json) : Option Check := do
  let f ← Json.fields? ["id", "status", "message", "details"] json
  return {
    id := ← f.required "id" Json.text?
    status := ← f.required "status" CheckStatus.ofJson?
    message := ← f.optional "message" Json.text?
    details := ← f.optional "details" CheckDetails.ofJson? }

end Check

end Strata
