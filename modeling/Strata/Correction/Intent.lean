/-
# What a correction is for

Specification, section 4.6 (a): the intents, and the intent of a profile.

An intent names the failure that a correction is to repair. It follows from the
profile of a run and the checks of that run:

| profile and checks | intent |
| --- | --- |
| reason architecture, and every violation that blocks is about security | `securityBaseline` |
| reason architecture | `architectureViolation` |
| reason type check or build | `typescriptCompile` |
| no reason, `boot` failed | `migrationFailure`, `runtimeHealth` or `runtimeBoot`, by its output |
| no reason, `tests` failed | `testFailure` |
| anything else | `unknown` |
-/

import Strata.Failure.Check
import Strata.Failure.Cluster
import Strata.Failure.Signals

namespace Strata
namespace Correction

/-- What a correction is to repair. -/
inductive Intent where
  | runtimeBoot
  | runtimeHealth
  | typescriptCompile
  | testFailure
  | migrationFailure
  | architectureViolation
  | securityBaseline
  | unknown
  deriving Repr, DecidableEq

namespace Intent

/-- All intents. -/
def all : List Intent :=
  [runtimeBoot, runtimeHealth, typescriptCompile, testFailure, migrationFailure,
   architectureViolation, securityBaseline, unknown]

/-- The name of an intent. -/
def text : Intent → String
  | runtimeBoot => "runtime_boot"
  | runtimeHealth => "runtime_health"
  | typescriptCompile => "typescript_compile"
  | testFailure => "test_failure"
  | migrationFailure => "migration_failure"
  | architectureViolation => "architecture_violation"
  | securityBaseline => "security_baseline"
  | unknown => "unknown"

/-- The intent of a name; any other name means `unknown`. -/
def named (name : String) : Intent := (all.find? fun i => i.text == name).getD unknown

/-- **An intent is found by its name.** -/
@[simp] theorem named_text (i : Intent) : named i.text = i := by
  cases i <;> rfl

/-- The intent of a name with blanks at its ends cut. -/
def ofText (name : String) : Intent := named (Text.trim name)

/-- Reads an intent. -/
def ofJson? (json : Json) : Option Intent := (Json.name? json).map named

/-- The intent that follows from the reason of a profile alone. -/
def ofReason : Option FailureReason → Intent
  | some .architecture => architectureViolation
  | some .typecheck | some .build => typescriptCompile
  | none => unknown

/-- True when some violation blocks and all that do are about security. -/
def onlySecurityBlocks (vs : List Violation) : Bool :=
  let blocking := vs.filter Violation.isBlocking
  !blocking.isEmpty && blocking.all fun v => Text.startsWith Rule.securityFamily v.ruleId

/-- The intent of a failed start, by what it printed. -/
def ofBootOutput (output : String) : Intent :=
  if Signals.tellsOfMigrationFailure output then migrationFailure
  else if Signals.tellsOfHealthFailure output then runtimeHealth
  else runtimeBoot

/-- The intent that follows from a profile and the checks it was made from. -/
def infer (profile : Profile) (checks : List Check) : Intent :=
  match profile.reason with
  | some reason =>
    let violations := ((Check.firstFailed? checks Check.architecture).map Check.violations).getD []
    if reason = .architecture ∧ onlySecurityBlocks violations then securityBaseline
    else ofReason (some reason)
  | none =>
    match Check.firstFailed? checks Check.boot with
    | some boot => ofBootOutput boot.output
    | none =>
      if (Check.firstFailed? checks Check.tests).isSome then testFailure else unknown

end Intent

end Correction
end Strata
