/-
# Violations

Specification, sections 3 and 6: `Violation`, its order and the closed vocabulary of
rules.

A violation records that a file breaks a rule: the rule, how severe it is, the
file, what in particular is at fault, and a message. Violations are ordered by
rule, file, target, message and severity, in this order; a missing target
counts as an empty one.

The rules form a closed vocabulary, `Rule`. Documents from outside may carry
any text as a rule, so a violation holds the text.
-/

import Strata.Json.Record

namespace Strata

/-- The rules that checks report. -/
inductive Rule where
  | layerMatrix
  | moduleIsolation
  | unknownLayer
  | unknownTopLevel
  | nonRelativeImport
  | pathAliasConfig
  | missingTarget
  | cycle
  | sourceRootMissing
  | moduleMissingLayer
  | moduleEmpty
  | persistenceInLayer
  | httpInService
  | consoleLog
  | hardcodedSecret
  | dynamicEval
  | envNotIgnored
  | testsMissing
  | testsEmpty
  deriving Repr, DecidableEq

namespace Rule

/-- The text of a rule. -/
def id : Rule → String
  | layerMatrix => "ARCH.LAYER_MATRIX"
  | moduleIsolation => "ARCH.MODULE_ISOLATION"
  | unknownLayer => "ARCH.UNKNOWN_LAYER"
  | unknownTopLevel => "ARCH.UNKNOWN_TOP_LEVEL"
  | nonRelativeImport => "IMPORT.NON_RELATIVE"
  | pathAliasConfig => "IMPORT.PATH_ALIAS_CONFIG"
  | missingTarget => "IMPORT.MISSING_TARGET"
  | cycle => "GRAPH.CYCLE"
  | sourceRootMissing => "STRUCTURE.SOURCE_ROOT_MISSING"
  | moduleMissingLayer => "STRUCTURE.MODULE_MISSING_LAYER"
  | moduleEmpty => "STRUCTURE.MODULE_EMPTY"
  | persistenceInLayer => "AST.PERSISTENCE_IN_LAYER"
  | httpInService => "AST.HTTP_IN_SERVICE"
  | consoleLog => "AST.CONSOLE_LOG"
  | hardcodedSecret => "SEC.HARDCODED_SECRET"
  | dynamicEval => "SEC.DYNAMIC_EVAL"
  | envNotIgnored => "SEC.ENV_NOT_IGNORED"
  | testsMissing => "TEST.CONTRACT_MISSING"
  | testsEmpty => "TEST.CONTRACT_EMPTY"

/-- How the texts of the rules about missing layers begin. -/
def missingLayerFamily : String := "STRUCTURE.MODULE_MISSING_LAYER"

/-- How the texts of the rules about unknown layers begin. -/
def unknownLayerFamily : String := "ARCH.UNKNOWN_"

/-- How the texts of the rules about tests begin. -/
def testFamily : String := "TEST.CONTRACT"

/-- How the texts of the rules about security begin. -/
def securityFamily : String := "SEC."

end Rule

/-- How severe a violation is. An error blocks. -/
inductive Severity where
  | error
  | warning
  deriving Repr, DecidableEq

namespace Severity

/-- The text of a severity. -/
def text : Severity → String
  | error => "error"
  | warning => "warning"

/-- Errors come before warnings. -/
def rank : Severity → Nat
  | error => 0
  | warning => 1

/-- Reads a severity. -/
def ofJson? (json : Json) : Option Severity :=
  (Json.name? json).bind fun name =>
    if name = "error" then some error else if name = "warning" then some warning else none

end Severity

/-- A broken rule. -/
structure Violation where
  ruleId : String
  severity : Severity
  file : String
  target : Option String
  message : String
  deriving Repr, DecidableEq

namespace Violation

/-- A violation that blocks. -/
def error (rule : Rule) (file message : String) (target : Option String) : Violation :=
  ⟨rule.id, .error, file, target, message⟩

/-- A violation that does not block. -/
def warning (rule : Rule) (file message : String) (target : Option String) : Violation :=
  ⟨rule.id, .warning, file, target, message⟩

/-- The target, empty when there is none. -/
def targetText (v : Violation) : String := v.target.getD ""

/-- The order of violations. -/
def order (v w : Violation) : Ordering :=
  (compare v.ruleId w.ruleId).then <|
    (compare v.file w.file).then <|
      (compare v.targetText w.targetText).then <|
        (compare v.message w.message).then (compare v.severity.rank w.severity.rank)

/-- The violations in order; those that compare equal stay as they stood. -/
def sort (vs : List Violation) : List Violation := vs.mergeSort fun v w => (v.order w).isLE

/-- **Sorting loses nothing and adds nothing.** -/
theorem sort_perm (vs : List Violation) : (sort vs).Perm vs := List.mergeSort_perm vs _

/-- True for a violation that blocks. -/
def isBlocking (v : Violation) : Bool := v.severity == .error

/-- How many violations block. -/
def blockingCount (vs : List Violation) : Nat := (vs.filter isBlocking).length

/-- How many violations do not block. -/
def warningCount (vs : List Violation) : Nat := vs.length - blockingCount vs

/-- The document of a violation; a missing target is left out. -/
def toJson (v : Violation) : Json :=
  .record <|
    [("ruleId", .ofText v.ruleId), ("severity", .ofText v.severity.text),
     ("file", .ofText v.file)] ++
      (v.target.toList.map fun t => ("target", .ofText t)) ++
      [("message", .ofText v.message)]

/-- Reads a violation. -/
def ofJson? (json : Json) : Option Violation := do
  let f ← Json.fields? ["ruleId", "severity", "file", "target", "message"] json
  return {
    ruleId := ← f.required "ruleId" Json.text?
    severity := ← f.required "severity" Severity.ofJson?
    file := ← f.required "file" Json.text?
    target := ← f.optional "target" Json.text?
    message := ← f.required "message" Json.text? }

end Violation

end Strata
