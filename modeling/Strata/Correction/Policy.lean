/-
# The policy for corrections

Specification, section 4.6 (b): the checks of a correction step.

A step is checked against what it declares about itself. The findings come in
this order, and every check that applies is made:

1. metadata are present; without them nothing else is checked;
2. they name a phase, an attempt that the id of the step ends in, and the step
   that failed;
3. they hold a constraint: a budget above zero and within the caps of the step,
   some path prefix, the intent that they classify, and no difference from the
   constraint that was resolved for the step;
4. a completed step has a commit and staged something; a failed one should say
   why;
5. the staged diffs keep to the declared paths, number of files and bytes.

A step passes when no finding is fatal.
-/

import Strata.Text.Quoted
import Strata.Text.Summary
import Strata.Text.Word
import Strata.Text.Ordered
import Strata.Correction.Step

namespace Strata
namespace Correction

open Text

/-- The rules of the policy. -/
inductive PolicyRule where
  | metadataPresent
  | phasePresent
  | attemptPositive
  | attemptSuffixMatch
  | failedStepPresent
  | constraintPresent
  | maxFilesPositive
  | maxBytesPositive
  | prefixesPresent
  | maxFilesWithinCap
  | maxBytesWithinCap
  | intentMatchesConstraint
  | resolvedConstraintConsistency
  | commitPresent
  | stagedDiffsPresent
  | stagedPathsWithinConstraint
  | stagedFileCountWithinConstraint
  | diffBudgetWithinConstraint
  | failedErrorMessage
  deriving Repr, DecidableEq

/-- The text of a rule. -/
def PolicyRule.id : PolicyRule → String
  | metadataPresent => "correction_metadata_present"
  | phasePresent => "correction_phase_present"
  | attemptPositive => "correction_attempt_positive"
  | attemptSuffixMatch => "correction_attempt_suffix_match"
  | failedStepPresent => "correction_failed_step_present"
  | constraintPresent => "correction_constraint_present"
  | maxFilesPositive => "correction_constraint_max_files_positive"
  | maxBytesPositive => "correction_constraint_max_bytes_positive"
  | prefixesPresent => "correction_constraint_prefixes_present"
  | maxFilesWithinCap => "correction_constraint_max_files_within_cap"
  | maxBytesWithinCap => "correction_constraint_max_bytes_within_cap"
  | intentMatchesConstraint => "correction_intent_matches_constraint"
  | resolvedConstraintConsistency => "correction_resolved_constraint_consistency"
  | commitPresent => "correction_commit_present"
  | stagedDiffsPresent => "correction_staged_diffs_present"
  | stagedPathsWithinConstraint => "correction_staged_paths_within_constraint"
  | stagedFileCountWithinConstraint => "correction_staged_file_count_within_constraint"
  | diffBudgetWithinConstraint => "correction_diff_budget_within_constraint"
  | failedErrorMessage => "correction_failed_error_message"

/-- How grave a finding is. -/
inductive Gravity where
  | fatal
  | warning
  deriving Repr, DecidableEq

namespace Gravity

/-- The text of a gravity in documents. -/
def text : Gravity → String
  | fatal => "fatal"
  | warning => "warning"

/-- The text of a gravity at the head of a line. -/
def title : Gravity → String
  | fatal => "Fatal"
  | warning => "Warning"

/-- Reads a gravity. -/
def ofJson? (json : Json) : Option Gravity :=
  (Json.name? json).bind fun name =>
    if name = "fatal" then some fatal else if name = "warning" then some warning else none

end Gravity

/-- Something the policy has to say about a step. -/
structure Finding where
  ruleId : String
  gravity : Gravity
  message : String
  deriving Repr, DecidableEq

namespace Finding

/-- A finding that rejects the step. -/
def fatal (rule : PolicyRule) (message : String) : Finding := ⟨rule.id, .fatal, message⟩

/-- A finding that does not reject the step. -/
def warning (rule : PolicyRule) (message : String) : Finding := ⟨rule.id, .warning, message⟩

/-- True for a finding that rejects the step. -/
def isFatal (f : Finding) : Bool := f.gravity == .fatal

/-- The document of a finding. -/
def toJson (f : Finding) : Json :=
  .record
    [("ruleId", .ofText f.ruleId), ("severity", .ofText f.gravity.text),
     ("message", .ofText f.message)]

/-- Reads a finding. -/
def ofJson? (json : Json) : Option Finding := do
  let f ← Json.fields? ["ruleId", "severity", "message"] json
  return {
    ruleId := ← f.required "ruleId" Json.text?
    gravity := ← f.required "severity" Gravity.ofJson?
    message := ← f.required "message" Json.text? }

end Finding

/-- The verdict on a step. -/
structure Verdict where
  ok : Bool
  blockingCount : UInt64
  warningCount : UInt64
  summary : String
  findings : List Finding
  deriving Repr, DecidableEq

namespace Verdict

/-- The verdict that follows from the findings. -/
def ofFindings (findings : List Finding) : Verdict :=
  let fatal := findings.filter Finding.isFatal
  let warnings := findings.filter fun f => !f.isFatal
  let ids := join ", " (fatal.map Finding.ruleId).eraseDups
  { ok := fatal.isEmpty
    blockingCount := UInt64.ofNat fatal.length
    warningCount := UInt64.ofNat warnings.length
    summary :=
      if fatal.isEmpty then s!"correction policy passed ({warnings.length} warning(s))"
      else s!"correction policy failed: {ids}"
    findings }

/-- True when some finding is about this rule. -/
def hasRule (v : Verdict) (ruleId : String) : Bool := v.findings.any fun f => f.ruleId == ruleId

/-- The document of a verdict. -/
def toJson (v : Verdict) : Json :=
  .record
    [("ok", .bool v.ok),
     ("blockingCount", .ofNat v.blockingCount.toNat),
     ("warningCount", .ofNat v.warningCount.toNat),
     ("summary", .ofText v.summary),
     ("violations", .array (v.findings.map Finding.toJson))]

/-- Reads a verdict. -/
def ofJson? (json : Json) : Option Verdict := do
  let f ← Json.fields? ["ok", "blockingCount", "warningCount", "summary", "violations"] json
  return {
    ok := ← f.required "ok" Json.truth?
    blockingCount := ← f.required "blockingCount" Json.natural?
    warningCount := ← f.required "warningCount" Json.natural?
    summary := ← f.required "summary" Json.text?
    findings := ← f.required "violations" (Json.list? Finding.ofJson?) }

end Verdict

namespace Policy

/-- A finding when a condition holds. -/
def findIf (condition : Bool) (finding : Finding) : List Finding :=
  if condition then [finding] else []

/-- True when a text is missing or has nothing but blanks. -/
def isMissing (s : Option String) : Bool := (s.map isBlankText).getD true

/-! ### The identity of a step -/

/-- What stands between the kind of a correction and its attempt. -/
def attemptMark : List Char := "-correction-".toList

/-- Cuts the digits off the end of an id. -/
def cutDigits (id : List Char) : List Char × List Char :=
  let digits := (id.reverse.takeWhile isDigit).reverse
  (id.take (id.length - digits.length), digits)

/-- A number of a step in 64 signed bits. Other digits than the ASCII ones have
no value here. -/
def attemptValue? (digits : List Char) : Option Int64 :=
  match decimal? digits with
  | some n => if n < 0x8000000000000000 then some (Int64.ofNat n) else none
  | none => none

/-- The attempt that the id of a step ends in: a kind without line feeds, the
mark, and digits. -/
def attemptOfId? (id : String) : Option Int64 :=
  let (front, digits) := cutDigits id.toList
  if attemptMark.isSuffixOf front then
    let kind := front.take (front.length - attemptMark.length)
    if kind.isEmpty || kind.contains '\n' then none else attemptValue? digits
  else none

/-- What is wrong with the attempt that a step declares. -/
def attemptFindings (id : String) (attempt : Option Int64) : List Finding :=
  let positive := attempt.filter (1 ≤ ·)
  match positive with
  | some n =>
    findIf (attemptOfId? id != some n)
      (.fatal .attemptSuffixMatch s!"step id '{id}' does not end in '-correction-{n}'")
  | none =>
    let got := quotedOption toString attempt
    [.fatal .attemptPositive s!"correction attempt must be >= 1 (got {got})"]

/-- What is wrong with the identity that a step declares. -/
def identityFindings (id : String) (m : Metadata) : List Finding :=
  findIf (isMissing m.phase) (.fatal .phasePresent "correction metadata has no phase") ++
  attemptFindings id m.attempt ++
  findIf (isMissing m.failedStepId)
    (.fatal .failedStepPresent "correction metadata does not name the failed step")

/-! ### The declared constraint -/

/-- What is wrong with a declared limit: it has to be above zero and at most
the cap. -/
def limitFindings (name : String) (positive withinCap : PolicyRule) (limit : Option Int64)
    (cap : UInt64) : List Finding :=
  match limit.filter (0 < ·) with
  | some n =>
    findIf (cap < n.toUInt64) (.fatal withinCap s!"constraint {name} {n} exceeds cap {cap}")
  | none =>
    let got := quotedOption toString limit
    [.fatal positive s!"constraint {name} must be positive (got {got})"]

/-- What is wrong with a declared constraint by itself. -/
def shapeFindings (d : Declaration) (caps : Caps) : List Finding :=
  limitFindings "maxFiles" .maxFilesPositive .maxFilesWithinCap d.maxFiles caps.maxFilesPerStep ++
  limitFindings "maxTotalDiffBytes" .maxBytesPositive .maxBytesWithinCap d.maxTotalDiffBytes
    caps.maxTotalDiffBytes ++
  findIf (normalizePrefixes d.allowedPathPrefixes).isEmpty
    (.fatal .prefixesPresent "constraint has no allowed path prefixes")

/-- What is wrong with the classified intent: it has to be there, and to be the
one of the constraint. -/
def intentFindings (classified declared : Option String) : List Finding :=
  let classified := classified.map trim
  let declared := declared.map trim
  let left := quotedOption quoted classified
  let right := quotedOption quoted declared
  findIf (classified.isNone || classified != declared)
    (.fatal .intentMatchesConstraint
      s!"classification intent {left} does not match constraint intent {right}")

/-- True when a declaration agrees with the constraint that was resolved. Its
numbers are compared by their 64 bits, its prefixes as sets. -/
def agrees (d : Declaration) (resolved : Constraint) : Bool :=
  d.intent.map trim == some resolved.intent.text &&
  d.maxFiles == some resolved.maxFiles.toInt64 &&
  d.maxTotalDiffBytes == some resolved.maxTotalDiffBytes.toInt64 &&
  ordered (normalizePrefixes d.allowedPathPrefixes) ==
    ordered (normalizePrefixes resolved.allowedPathPrefixes)

/-- What is wrong with a declaration beside the constraint that was resolved. -/
def resolvedFindings (d : Declaration) (resolved : Constraint) : List Finding :=
  let intent := resolved.intent.text
  findIf (!agrees d resolved)
    (.fatal .resolvedConstraintConsistency
      (s!"declared constraint differs from the resolved '{intent}' constraint " ++
        s!"({resolved.maxFiles} files, {resolved.maxTotalDiffBytes} bytes)"))

/-- What is wrong with the constraint of a step. -/
def constraintFindings (step : Step) (m : Metadata) : List Finding :=
  match m.constraint with
  | none => [.fatal .constraintPresent "correction metadata has no constraint"]
  | some d =>
    shapeFindings d step.caps ++
    intentFindings (m.classification.bind Classification.intent) d.intent ++
    ((step.resolvedConstraint.map (resolvedFindings d)).getD [])

/-! ### How the step ended -/

/-- What is wrong with the way a step ended. -/
def statusFindings (step : Step) : List Finding :=
  match step.status with
  | some .completed =>
    findIf (isMissing step.commitHash)
      (.fatal .commitPresent "completed correction has no commit hash") ++
    findIf step.stagedDiffs.isEmpty
      (.fatal .stagedDiffsPresent "completed correction staged no diffs")
  | some .failed =>
    findIf (isMissing step.errorMessage)
      (.warning .failedErrorMessage "failed correction did not report an error message")
  | _ => []

/-! ### The staged diffs -/

/-- How many paths a message names. -/
def maxListedPaths : Nat := 5

/-- The paths of some diffs in normal form, each once. -/
def stagedPaths (diffs : List StagedDiff) : List String :=
  (diffs.map fun d => normalizePrefix d.path).eraseDups

/-- The paths that no prefix of a declaration matches. -/
def outsidePaths (d : Declaration) (paths : List String) : List String :=
  paths.filter fun path =>
    !(normalizePrefixes d.allowedPathPrefixes).any fun pre => pathWithinPrefix path pre

/-- The bytes of some diffs together. -/
def diffBytes (diffs : List StagedDiff) : Nat :=
  diffs.foldr (fun d total => d.diffPreview.utf8ByteSize + total) 0

/-- True when a declared limit above zero is exceeded. -/
def exceeds (n : Nat) (limit : Option Int64) : Bool :=
  match limit.filter (0 < ·) with
  | some m => m.toInt < n
  | none => false

/-- A declared limit as text. -/
def limitText (limit : Option Int64) : String := (limit.map toString).getD ""

/-- What is wrong with the staged diffs. -/
def stagedFindings (diffs : List StagedDiff) (d : Declaration) : List Finding :=
  let paths := stagedPaths diffs
  let outside := outsidePaths d paths
  let outsideList := boundedList outside maxListedPaths
  let pathList := boundedList paths maxListedPaths
  let maxFiles := limitText d.maxFiles
  let maxBytes := limitText d.maxTotalDiffBytes
  findIf (!outside.isEmpty)
    (.fatal .stagedPathsWithinConstraint
      s!"{outside.length} staged path(s) outside allowed prefixes: {outsideList}") ++
  findIf (exceeds paths.length d.maxFiles)
    (.fatal .stagedFileCountWithinConstraint
      s!"{paths.length} staged file(s) exceed maxFiles {maxFiles}: {pathList}") ++
  findIf (exceeds (diffBytes diffs) d.maxTotalDiffBytes)
    (.fatal .diffBudgetWithinConstraint
      s!"staged diffs total {diffBytes diffs} bytes, budget is {maxBytes}")

/-- What is wrong with what a step staged, if it staged anything. -/
def diffFindings (step : Step) (m : Metadata) : List Finding :=
  match step.stagedDiffs, m.constraint with
  | [], _ | _, none => []
  | diffs, some d => stagedFindings diffs d

/-- All findings about a step with metadata. -/
def findings (step : Step) (m : Metadata) : List Finding :=
  identityFindings step.id m ++ constraintFindings step m ++ statusFindings step ++
    diffFindings step m

end Policy

/-- The verdict of the policy on a step. -/
def Step.evaluate (step : Step) : Verdict :=
  match step.input.metadata? with
  | some m => .ofFindings (Policy.findings step m)
  | none =>
    .ofFindings
      [.fatal .metadataPresent s!"step '{step.id}' carries no correction metadata object"]

end Correction
end Strata
