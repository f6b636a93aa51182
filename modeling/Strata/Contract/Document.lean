/-
# Contracts as documents

Specification, section 8: missing fields fall back to their defaults.

A contract document is a record in which every field may be missing and then
has its value from the built-in contract. It is written in JSON or in TOML; a
TOML document is read through the JSON object that it stands for.
-/

import Strata.Contract.Basic
import Strata.Json.Record
import Strata.Json.Parser
import Strata.Toml.Table

namespace Strata
namespace Contract

/-- The names of the fields, in order. -/
def fieldNames : List String :=
  ["version", "sourceRoot", "moduleContainer", "recognizedLayers", "requiredModuleLayers",
   "layerMatrix", "crossModuleLayers", "allowedTopLevelDirs", "allowedAliasPrefixes",
   "persistencePackages", "persistenceFreeLayers"]

/-- The document of a matrix. -/
def matrixToJson (m : LayerMatrix) : Json :=
  .record (m.rows.map fun row => (row.1, .ofTexts row.2))

/-- Reads a matrix. -/
def matrixOfJson? (json : Json) : Option LayerMatrix :=
  (Json.table? Json.texts? json).map LayerMatrix.ofList

/-- The document of a contract. -/
def toJson (c : Contract) : Json :=
  .record
    [("version", .ofText c.version),
     ("sourceRoot", .ofText c.sourceRoot),
     ("moduleContainer", .ofText c.moduleContainer),
     ("recognizedLayers", .ofTexts c.recognizedLayers),
     ("requiredModuleLayers", .ofTexts c.requiredModuleLayers),
     ("layerMatrix", matrixToJson c.layerMatrix),
     ("crossModuleLayers", .ofTexts c.crossModuleLayers),
     ("allowedTopLevelDirs", .ofTexts c.allowedTopLevelDirs),
     ("allowedAliasPrefixes", .ofTexts c.allowedAliasPrefixes),
     ("persistencePackages", .ofTexts c.persistencePackages),
     ("persistenceFreeLayers", .ofTexts c.persistenceFreeLayers)]

/-- Reads a contract. -/
def ofJson? (json : Json) : Option Contract := do
  let f ← Json.fields? fieldNames json
  return {
    version := ← f.withDefault "version" standard.version Json.text?
    sourceRoot := ← f.withDefault "sourceRoot" standard.sourceRoot Json.text?
    moduleContainer := ← f.withDefault "moduleContainer" standard.moduleContainer Json.text?
    recognizedLayers :=
      ← f.withDefault "recognizedLayers" standard.recognizedLayers Json.texts?
    requiredModuleLayers :=
      ← f.withDefault "requiredModuleLayers" standard.requiredModuleLayers Json.texts?
    layerMatrix := ← f.withDefault "layerMatrix" standard.layerMatrix matrixOfJson?
    crossModuleLayers :=
      ← f.withDefault "crossModuleLayers" standard.crossModuleLayers Json.texts?
    allowedTopLevelDirs :=
      ← f.withDefault "allowedTopLevelDirs" standard.allowedTopLevelDirs Json.texts?
    allowedAliasPrefixes :=
      ← f.withDefault "allowedAliasPrefixes" standard.allowedAliasPrefixes Json.texts?
    persistencePackages :=
      ← f.withDefault "persistencePackages" standard.persistencePackages Json.texts?
    persistenceFreeLayers :=
      ← f.withDefault "persistenceFreeLayers" standard.persistenceFreeLayers Json.texts? }

/-- Reads a contract from a JSON text. -/
def ofJsonText? (s : String) : Option Contract := (Json.parse? s).bind ofJson?

/-- Reads a contract from a TOML text. -/
def ofTomlText? (s : String) : Option Contract := (Toml.parse? s).bind ofJson?

end Contract
end Strata
