/-
# What a correction declares about itself

Specification, sections 3 and 4.6: the metadata that a step declares.

The metadata of a correction say which phase and which step failed, which
attempt this is, how the failure was classified and which constraint the
correction keeps to. Anything may be missing; numbers are signed, so that a
budget below zero can be declared, and found at fault later.
-/

import Strata.Correction.Budget

namespace Strata
namespace Correction

/-- How a correction classifies the failure. -/
structure Classification where
  intent : Option String
  deriving Repr, DecidableEq

namespace Classification

/-- The document of a classification. -/
def toJson (c : Classification) : Json := .record [("intent", .ofOption .ofText c.intent)]

/-- Reads a classification. -/
def ofJson? (json : Json) : Option Classification := do
  let f ← Json.fields? ["intent"] json
  return ⟨← f.optional "intent" Json.text?⟩

end Classification

/-- A constraint as a correction declares it. -/
structure Declaration where
  intent : Option String
  maxFiles : Option Int64
  maxTotalDiffBytes : Option Int64
  allowedPathPrefixes : List String
  guidance : List String
  deriving Repr, DecidableEq

namespace Declaration

/-- The declaration of a constraint. Its numbers keep their 64 bits and become
signed. -/
def ofConstraint (c : Constraint) : Declaration :=
  { intent := some c.intent.text
    maxFiles := some c.maxFiles.toInt64
    maxTotalDiffBytes := some c.maxTotalDiffBytes.toInt64
    allowedPathPrefixes := c.allowedPathPrefixes
    guidance := c.guidance }

/-- The document of a declaration. -/
def toJson (d : Declaration) : Json :=
  .record
    [("intent", .ofOption .ofText d.intent),
     ("maxFiles", .ofOption (fun n => .ofInt n.toInt) d.maxFiles),
     ("maxTotalDiffBytes", .ofOption (fun n => .ofInt n.toInt) d.maxTotalDiffBytes),
     ("allowedPathPrefixes", .ofTexts d.allowedPathPrefixes),
     ("guidance", .ofTexts d.guidance)]

/-- Reads a declaration. -/
def ofJson? (json : Json) : Option Declaration := do
  let f ← Json.fields?
    ["intent", "maxFiles", "maxTotalDiffBytes", "allowedPathPrefixes", "guidance"] json
  return {
    intent := ← f.optional "intent" Json.text?
    maxFiles := ← f.optional "maxFiles" Json.integer?
    maxTotalDiffBytes := ← f.optional "maxTotalDiffBytes" Json.integer?
    allowedPathPrefixes := ← f.withDefault "allowedPathPrefixes" [] Json.texts?
    guidance := ← f.withDefault "guidance" [] Json.texts? }

end Declaration

/-- The metadata of a correction. -/
structure Metadata where
  phase : Option String
  attempt : Option Int64
  failedStepId : Option String
  classification : Option Classification
  constraint : Option Declaration
  deriving Repr, DecidableEq

namespace Metadata

/-- The document of metadata. -/
def toJson (m : Metadata) : Json :=
  .record
    [("phase", .ofOption .ofText m.phase),
     ("attempt", .ofOption (fun n => .ofInt n.toInt) m.attempt),
     ("failedStepId", .ofOption .ofText m.failedStepId),
     ("classification", .ofOption Classification.toJson m.classification),
     ("constraint", .ofOption Declaration.toJson m.constraint)]

/-- Reads metadata. -/
def ofJson? (json : Json) : Option Metadata := do
  let f ← Json.fields? ["phase", "attempt", "failedStepId", "classification", "constraint"] json
  return {
    phase := ← f.optional "phase" Json.text?
    attempt := ← f.optional "attempt" Json.integer?
    failedStepId := ← f.optional "failedStepId" Json.text?
    classification := ← f.optional "classification" Classification.ofJson?
    constraint := ← f.optional "constraint" Declaration.ofJson? }

end Metadata

end Correction
end Strata
