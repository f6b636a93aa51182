/-
# Couplings that a layer should not have

Specification, section 4.4, item 2: the rules `AST.*`.

| rule | reports |
| --- | --- |
| `persistenceInLayer` | a persistence package imported by a layer that is free of persistence |
| `httpInService` | an HTTP framework, or a request or response used, in a service or repository |
| `consoleLog` | calls of `console.log` |

Each rule reports a file at most once.
-/

import Strata.Layer
import Strata.Source
import Strata.Violation
import Strata.Import.Statement

namespace Strata
namespace Coupling

open Text Pattern

/-- Packages that handle HTTP. -/
def httpFrameworks : List String := ["express", "fastify", "koa", "@nestjs/common", "hono"]

/-- Layers that should not know of HTTP. -/
def httpFreeLayers : List String := ["service", "repository"]

/-- A use of a request or a response. -/
def handlerAccess : Pattern :=
  .seq (.at .wordEdge) <|
    .either
      (.seq (.text "req.") (anyOf [.text "body", .text "params", .text "query", .text "headers"]))
      (sequence
        [.text "res.", anyOf [.text "status", .text "json", .text "send", .text "redirect"],
         .greedy isBlank, .text "("])

/-- A call of `console.log`. -/
def consoleLog : Pattern :=
  sequence [.at .wordEdge, .text "console.log", .greedy isBlank, .text "("]

/-- True when a specifier names a package or a path inside it. -/
def importsPackage (specifier package : String) : Bool :=
  specifier == package || startsWith (package ++ "/") specifier

/-- The violation of a layer that imports a persistence package. -/
def persistenceViolation? (c : Contract) (file layer : String) (imports : List String) :
    Option Violation :=
  if c.persistenceFreeLayers.contains layer then
    let package? := imports.find? fun s =>
      Import.kindOf s == .nonRelative && c.persistencePackages.any (importsPackage s)
    package?.map fun package =>
      .error .persistenceInLayer file
        (s!"Layer '{layer}' imports persistence package '{package}'; " ++
          "data access belongs in the repository layer")
        (some package)
  else none

/-- What shows that a source handles HTTP: an import, or else a use of a
request or response. -/
def httpEvidence? (source : String) (imports : List String) : Option String :=
  match imports.find? fun s => httpFrameworks.any (importsPackage s) with
  | some package => some package
  | none => (handlerAccess.find? source.toList).map fun m => String.ofList m.whole.text

/-- The violation of a layer that handles HTTP. -/
def httpViolation? (file layer source : String) (imports : List String) : Option Violation :=
  if httpFreeLayers.contains layer then
    (httpEvidence? source imports).map fun evidence =>
      .warning .httpInService file
        (s!"Layer '{layer}' is coupled to HTTP handling ({evidence}); " ++
          "keep request/response types in controllers")
        (some evidence)
  else none

/-- The violation of a source that calls `console.log`. -/
def consoleViolation? (file source : String) : Option Violation :=
  match linesWhere (fun line => (consoleLog.find? line).isSome) source with
  | [] => none
  | first :: rest =>
    some <| .warning .consoleLog file
      s!"console.log used {rest.length + 1} time(s), first at line {first}; use the project logger"
      none

/-- What is wrong with the couplings of a file. -/
def scanSource (c : Contract) (s : SourceFile) : List Violation :=
  match s.text with
  | none => []
  | some source =>
    let imports := Import.specifiers source
    let byLayer :=
      match (c.classify s.relativePath).layer? with
      | some layer =>
        (persistenceViolation? c s.relativePath layer imports).toList ++
          (httpViolation? s.relativePath layer source imports).toList
      | none => []
    byLayer ++ (consoleViolation? s.relativePath source).toList

/-- What is wrong with the couplings of a project. -/
def scan (files : Files) (root : Path) (c : Contract) : Except IoError (List Violation) := do
  return (← productionFiles files root c).flatMap (scanSource c)

end Coupling
end Strata
