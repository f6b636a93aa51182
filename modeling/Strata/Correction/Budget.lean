/-
# Edit budgets

Specification, section 4.6 (a): the budget of each intent.

Each intent has a budget: how many files a correction may touch, how many bytes
its diffs may have together, which paths it may touch, and some guidance. The
caps of the project limit the numbers.

| intent | files | bytes | prefixes |
| --- | ---: | ---: | --- |
| `runtimeBoot` | 4 | 24000 | `src/`, `package.json` |
| `runtimeHealth` | 3 | 16000 | `src/routes/`, `src/app.ts`, `src/server.ts` |
| `typescriptCompile` | 6 | 40000 | `src/`, `tsconfig.json` |
| `testFailure` | 6 | 40000 | `src/`, `tests/`, `test/` |
| `migrationFailure` | 3 | 20000 | `prisma/`, `migrations/`, `src/db/` |
| `architectureViolation` | 12 | 120000 | `src/` |
| `securityBaseline` | 4 | 24000 | `src/`, `.gitignore`, `.env.example` |
| `unknown` | 2 | 12000 | `src/` |
-/

import Strata.Correction.Intent
import Strata.Correction.Scope

namespace Strata
namespace Correction

/-- The limits that hold for every correction of a project. -/
structure Caps where
  maxFilesPerStep : UInt64
  maxTotalDiffBytes : UInt64
  deriving Repr, DecidableEq

namespace Caps

/-- The limits of a project that sets none. -/
def standard : Caps := ⟨12, 120000⟩

/-- A limit as the environment sets it: a positive number, blanks around it. -/
def ofSetting? (setting : String) : Option UInt64 :=
  (Text.natural64? (Text.trim setting)).filter (0 < ·)

/-- The variable that limits the number of files. -/
def filesVariable : String := "ARCHGATE_MAX_FILES_PER_STEP"

/-- The variable that limits the number of bytes. -/
def bytesVariable : String := "ARCHGATE_MAX_TOTAL_DIFF_BYTES"

/-- The limits of an environment; what it sets to no positive number is as if
it were not set. -/
def ofEnvironment (environment : String → Option String) : Caps :=
  { maxFilesPerStep :=
      ((environment filesVariable).bind ofSetting?).getD standard.maxFilesPerStep
    maxTotalDiffBytes :=
      ((environment bytesVariable).bind ofSetting?).getD standard.maxTotalDiffBytes }

/-- The document of some limits. -/
def toJson (c : Caps) : Json :=
  .record
    [("maxFilesPerStep", .ofNat c.maxFilesPerStep.toNat),
     ("maxTotalDiffBytes", .ofNat c.maxTotalDiffBytes.toNat)]

/-- Reads some limits. -/
def ofJson? (json : Json) : Option Caps := do
  let f ← Json.fields? ["maxFilesPerStep", "maxTotalDiffBytes"] json
  return {
    maxFilesPerStep := ← f.required "maxFilesPerStep" Json.natural?
    maxTotalDiffBytes := ← f.required "maxTotalDiffBytes" Json.natural? }

end Caps

/-- What a correction may do. -/
structure Constraint where
  intent : Intent
  maxFiles : UInt64
  maxTotalDiffBytes : UInt64
  allowedPathPrefixes : List String
  guidance : List String
  deriving Repr, DecidableEq

namespace Constraint

/-- The budget of an intent, before any cap. -/
def budget : Intent → Constraint
  | .runtimeBoot =>
    { intent := .runtimeBoot
      maxFiles := 4
      maxTotalDiffBytes := 24000
      allowedPathPrefixes := ["src/", "package.json"]
      guidance :=
        ["Fix the failing boot path only; do not restructure modules.",
         "Prefer correcting imports and entrypoint wiring over adding dependencies."] }
  | .runtimeHealth =>
    { intent := .runtimeHealth
      maxFiles := 3
      maxTotalDiffBytes := 16000
      allowedPathPrefixes := ["src/routes/", "src/app.ts", "src/server.ts"]
      guidance :=
        ["Restore the health endpoint and its route registration.",
         "Keep the response contract unchanged."] }
  | .typescriptCompile =>
    { intent := .typescriptCompile
      maxFiles := 6
      maxTotalDiffBytes := 40000
      allowedPathPrefixes := ["src/", "tsconfig.json"]
      guidance :=
        ["Resolve the reported compiler diagnostics without loosening compiler options.",
         "Do not add path aliases; use relative imports."] }
  | .testFailure =>
    { intent := .testFailure
      maxFiles := 6
      maxTotalDiffBytes := 40000
      allowedPathPrefixes := ["src/", "tests/", "test/"]
      guidance :=
        ["Fix the implementation before touching assertions.",
         "Do not delete or skip failing tests."] }
  | .migrationFailure =>
    { intent := .migrationFailure
      maxFiles := 3
      maxTotalDiffBytes := 20000
      allowedPathPrefixes := ["prisma/", "migrations/", "src/db/"]
      guidance :=
        ["Repair the failing migration or schema definition only.",
         "Never edit an already-applied migration in place; add a new one."] }
  | .architectureViolation =>
    { intent := .architectureViolation
      maxFiles := 12
      maxTotalDiffBytes := 120000
      allowedPathPrefixes := ["src/"]
      guidance :=
        ["Move code into the canonical module layers instead of adding new layer names.",
         "Route cross-layer calls through the layer matrix; " ++
           "import other modules only via service or model."] }
  | .securityBaseline =>
    { intent := .securityBaseline
      maxFiles := 4
      maxTotalDiffBytes := 24000
      allowedPathPrefixes := ["src/", ".gitignore", ".env.example"]
      guidance :=
        ["Move secrets to environment variables and document them in .env.example.",
         "Never commit a real .env file."] }
  | .unknown =>
    { intent := .unknown
      maxFiles := 2
      maxTotalDiffBytes := 12000
      allowedPathPrefixes := ["src/"]
      guidance := ["Make the smallest change that addresses the reported failure."] }

/-- The constraint of an intent under some caps: its budget, each number at
most the cap. -/
def derive (intent : Intent) (caps : Caps) : Constraint :=
  let b := budget intent
  { b with
    maxFiles := min b.maxFiles caps.maxFilesPerStep
    maxTotalDiffBytes := min b.maxTotalDiffBytes caps.maxTotalDiffBytes
    allowedPathPrefixes := normalizePrefixes b.allowedPathPrefixes }

/-- The document of a constraint. -/
def toJson (c : Constraint) : Json :=
  .record
    [("intent", .ofText c.intent.text),
     ("maxFiles", .ofNat c.maxFiles.toNat),
     ("maxTotalDiffBytes", .ofNat c.maxTotalDiffBytes.toNat),
     ("allowedPathPrefixes", .ofTexts c.allowedPathPrefixes),
     ("guidance", .ofTexts c.guidance)]

/-- Reads a constraint. -/
def ofJson? (json : Json) : Option Constraint := do
  let f ← Json.fields?
    ["intent", "maxFiles", "maxTotalDiffBytes", "allowedPathPrefixes", "guidance"] json
  return {
    intent := ← f.required "intent" Intent.ofJson?
    maxFiles := ← f.required "maxFiles" Json.natural?
    maxTotalDiffBytes := ← f.required "maxTotalDiffBytes" Json.natural?
    allowedPathPrefixes := ← f.required "allowedPathPrefixes" Json.texts?
    guidance := ← f.withDefault "guidance" [] Json.texts? }

end Constraint

end Correction
end Strata
