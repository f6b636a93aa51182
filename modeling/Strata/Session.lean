/-
# Sessions

A session follows a project while it is edited: its files, the contract that
holds, the last report on it, the checks that were classified last, and the
constraint of the correction under way. Each operation is a transition from one
session to the next.

| operation | what it changes |
| --- | --- |
| `edit` | the files |
| `withContract`, `reloadContract` | the contract |
| `validate` | the report, which is forgotten when the validation stops |
| `classify` | the checks (the report first, if there is one) and the profile |
| `constrain` | the constraint |

`verify` judges a step that declares the constraint of the session.
-/

import Strata.Report
import Strata.Contract.Load
import Strata.Failure.Diagnosis
import Strata.Correction.Policy

namespace Strata

open Correction

/-- A project under correction. -/
structure Session where
  files : Files
  root : Path
  contract : Contract
  report : Option Check
  checks : List Check
  profile : Profile
  constraint : Constraint

namespace Session

/-- A session in which nothing was done yet. -/
def start (files : Files) (root : Path) (c : Contract) : Session :=
  { files, root
    contract := c
    report := none
    checks := []
    profile := .zero
    constraint := .derive .unknown .standard }

/-- The session after a change of its files. -/
def edit (s : Session) (change : Files → Files) : Session := { s with files := change s.files }

/-- The session under another contract. -/
def withContract (s : Session) (c : Contract) : Session := { s with contract := c }

/-- The session under the contract that its files hold. -/
def reloadContract (s : Session) : Except ProjectError Session := do
  return s.withContract (← Contract.load s.files s.root none)

/-- Validates the project. The report becomes the one that the session
remembers. -/
def validate (s : Session) : Except ProjectError Report × Session :=
  match liftIo (Report.validate s.files s.root s.contract) with
  | .ok report => (.ok report, { s with report := some report.toCheck })
  | .error e => (.error e, { s with report := none })

/-- Classifies the report and some further checks. -/
def classify (s : Session) (checks : List Check) : Session :=
  let checks := s.report.toList ++ checks
  { s with checks, profile := .ofChecks s.contract checks }

/-- The intent that follows from the checks. -/
def intent (s : Session) : Intent := .infer s.profile s.checks

/-- Derives the constraint for a correction under some caps. -/
def constrain (s : Session) (caps : Caps) : Session :=
  { s with constraint := .derive s.intent caps }

/-- The document of a step, with the constraint of the session declared and
resolved in it. -/
def declareIn (s : Session) (step : Json) : Json :=
  let member (json : Json) (key : String) : Json := (json.field? key).getD (.record [])
  let input := member step "input"
  let metadata := (member input "_deepCorrection")
    |>.withMember "classification" (Classification.toJson ⟨some s.constraint.intent.text⟩)
    |>.withMember "constraint" s.constraint.toJson
  step
    |>.withMember "input" (input.withMember "_deepCorrection" metadata)
    |>.withMember "resolvedConstraint" s.constraint.toJson

/-- Judges a step that declares the constraint of the session. -/
def verify (s : Session) (step : Json) : Except ProjectError Verdict :=
  match Step.ofJson? (s.declareIn step) with
  | some step => .ok step.evaluate
  | none => .error .json

/-- What may be done in a session. -/
inductive Operation where
  | edit (change : Files → Files)
  | withContract (c : Contract)
  | reloadContract
  | validate
  | classify (checks : List Check)
  | constrain (caps : Caps)

/-- The session after an operation. A contract that cannot be loaded leaves it as it is. -/
def step (s : Session) : Operation → Session
  | .edit change => s.edit change
  | .withContract c => s.withContract c
  | .reloadContract => s.reloadContract.toOption.getD s
  | .validate => s.validate.2
  | .classify checks => s.classify checks
  | .constrain caps => s.constrain caps

/-- The session after some operations, one after the other. -/
def run (s : Session) (operations : List Operation) : Session := operations.foldl step s

end Session

end Strata
