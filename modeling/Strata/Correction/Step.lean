/-
# Correction steps

Specification, section 4.6 (b): what is evaluated.

A step is what is known about one finished correction: its input, how it ended,
the diffs it staged, and the constraint that was resolved for it. The metadata
stand in its input as a free value; they are only taken for metadata when they
are an object whose members have the right types.
-/

import Strata.Correction.Declaration

namespace Strata
namespace Correction

/-- How a step ended. -/
inductive StepStatus where
  | completed
  | failed
  | other
  deriving Repr, DecidableEq

namespace StepStatus

/-- The text of a status. -/
def text : StepStatus → String
  | completed => "completed"
  | failed => "failed"
  | other => "other"

/-- The status of a name; any other name means `other`. -/
def named (name : String) : StepStatus :=
  if name = "completed" then completed else if name = "failed" then failed else other

/-- Reads a status. -/
def ofJson? (json : Json) : Option StepStatus := (Json.name? json).map named

end StepStatus

/-- A change to one file. -/
structure StagedDiff where
  path : String
  diffPreview : String
  deriving Repr, DecidableEq

namespace StagedDiff

/-- The document of a change. -/
def toJson (d : StagedDiff) : Json :=
  .record [("path", .ofText d.path), ("diffPreview", .ofText d.diffPreview)]

/-- Reads a change. -/
def ofJson? (json : Json) : Option StagedDiff := do
  let f ← Json.fields? ["path", "diffPreview"] json
  return {
    path := ← f.withDefault "path" "" Json.text?
    diffPreview := ← f.withDefault "diffPreview" "" Json.text? }

end StagedDiff

/-- What a step put out. -/
structure OutputPayload where
  stagedDiffs : List StagedDiff
  deriving Repr, DecidableEq

namespace OutputPayload

/-- The document of an output. -/
def toJson (p : OutputPayload) : Json :=
  .record [("stagedDiffs", .array (p.stagedDiffs.map StagedDiff.toJson))]

/-- Reads an output. -/
def ofJson? (json : Json) : Option OutputPayload := do
  let f ← Json.fields? ["stagedDiffs"] json
  return ⟨← f.withDefault "stagedDiffs" [] (Json.list? StagedDiff.ofJson?)⟩

end OutputPayload

/-- What a step was given. -/
structure StepInput where
  /-- the metadata, as a free value in canonical spelling -/
  deepCorrection : Option Json

namespace StepInput

/-- The containers around the metadata of a step: the step and its input. -/
def depthAround : Nat := 2

/-- The document of an input. -/
def toJson (i : StepInput) : Json :=
  .record (i.deepCorrection.toList.map fun value => ("_deepCorrection", value))

/-- Reads an input. -/
def ofJson? (json : Json) : Option StepInput := do
  let f ← Json.fields? ["_deepCorrection"] json
  return ⟨← f.optional "_deepCorrection" (Json.free? (Json.maxDepth - depthAround))⟩

/-- The metadata of an input. -/
def metadata? (i : StepInput) : Option Metadata :=
  match i.deepCorrection with
  | some (.object members) => Metadata.ofJson? (.object members)
  | _ => none

end StepInput

/-- A finished correction. -/
structure Step where
  id : String
  input : StepInput
  status : Option StepStatus
  errorMessage : Option String
  commitHash : Option String
  outputPayload : Option OutputPayload
  resolvedConstraint : Option Constraint
  maxFilesPerStep : Option UInt64
  maxTotalDiffBytes : Option UInt64

namespace Step

/-- The caps of a step; the standard ones where it sets none. -/
def caps (s : Step) : Caps :=
  { maxFilesPerStep := s.maxFilesPerStep.getD Caps.standard.maxFilesPerStep
    maxTotalDiffBytes := s.maxTotalDiffBytes.getD Caps.standard.maxTotalDiffBytes }

/-- The changes that a step staged. -/
def stagedDiffs (s : Step) : List StagedDiff := (s.outputPayload.map (·.stagedDiffs)).getD []

/-- The document of a step. -/
def toJson (s : Step) : Json :=
  .record
    [("id", .ofText s.id),
     ("input", s.input.toJson),
     ("status", .ofOption (fun st => .ofText st.text) s.status),
     ("errorMessage", .ofOption .ofText s.errorMessage),
     ("commitHash", .ofOption .ofText s.commitHash),
     ("outputPayload", .ofOption OutputPayload.toJson s.outputPayload),
     ("resolvedConstraint", .ofOption Constraint.toJson s.resolvedConstraint),
     ("maxFilesPerStep", .ofOption (fun n => .ofNat n.toNat) s.maxFilesPerStep),
     ("maxTotalDiffBytes", .ofOption (fun n => .ofNat n.toNat) s.maxTotalDiffBytes)]

/-- The names of the fields of a step, in their order. -/
def fieldNames : List String :=
  ["id", "input", "status", "errorMessage", "commitHash", "outputPayload", "resolvedConstraint",
   "maxFilesPerStep", "maxTotalDiffBytes"]

/-- Reads a step. -/
def ofJson? (json : Json) : Option Step := do
  let f ← Json.fields? fieldNames json
  return {
    id := ← f.required "id" Json.text?
    input := ← f.withDefault "input" ⟨none⟩ StepInput.ofJson?
    status := ← f.optional "status" StepStatus.ofJson?
    errorMessage := ← f.optional "errorMessage" Json.text?
    commitHash := ← f.optional "commitHash" Json.text?
    outputPayload := ← f.optional "outputPayload" OutputPayload.ofJson?
    resolvedConstraint := ← f.optional "resolvedConstraint" Constraint.ofJson?
    maxFilesPerStep := ← f.optional "maxFilesPerStep" Json.natural?
    maxTotalDiffBytes := ← f.optional "maxTotalDiffBytes" Json.natural? }

end Step

end Correction
end Strata
