/-
# The command line

Specification, section 6: the commands and their options.

| command | options |
| --- | --- |
| `validate` | `--root`, `--contract`, `--format` (text unless told) |
| `graph` | `--root`, `--contract` |
| `classify` | `--checks`, `--root`, `--contract`, `--format` (JSON unless told) |
| `constraint` | `--intent`, `--max-files`, `--max-diff-bytes` |
| `verify-correction` | `--step`, `--format` (JSON unless told) |
| `validators` | |

An option takes a value, behind an equals sign or as the next argument, and
comes at most once. A command is read without looking at any file; running it
then is a function of the files and the environment, so that what is printed
can be reasoned about.

The exit code is 0 when all is well, 1 when a project or a step does not pass or
something stops the command, and 2 when the arguments make no command.
-/

import Strata.Report
import Strata.Contract.Load
import Strata.Failure.Diagnosis
import Strata.Correction.Policy

namespace Strata
namespace CommandLine

open Text Correction

/-- How a command prints its answer. -/
inductive Format where
  | text
  | json
  deriving Repr, DecidableEq

/-- The project that a command is about. -/
structure Target where
  root : Option Path
  contract : Option Path
  deriving Repr, DecidableEq

/-- A command. -/
inductive Command where
  | validate (target : Target) (format : Format)
  | graph (target : Target)
  | classify (checks : Path) (target : Target) (format : Format)
  | constraint (intent : String) (maxFiles maxDiffBytes : Option UInt64)
  | verifyCorrection (step : Path) (format : Format)
  | validators
  | version
  deriving Repr, DecidableEq

/-! ### Reading the arguments -/

/-- Options and their values. -/
abbrev Options := List (String × String)

/-- True for an argument that is no value: it begins like an option. -/
def looksLikeOption (arg : String) : Bool := startsWith "-" arg && arg ≠ "-"

/-- An argument that begins with two dashes, cut at its first equals sign. -/
def cutOption? (arg : String) : Option (String × Option String) :=
  (dropPrefix? ['-', '-'] arg.toList).map fun body =>
    let name := String.ofList (body.takeWhile (· != '='))
    match body.dropWhile (· != '=') with
    | [] => (name, none)
    | _ :: value => (name, some (String.ofList value))

/-- Reads options with the given names and nothing else. Two dashes may end
the arguments. -/
def readOptions? (names : List String) : List String → Option Options
  | [] | ["--"] => some []
  | arg :: rest =>
    match cutOption? arg, rest with
    | some (name, some value), rest =>
      if names.contains name then (readOptions? names rest).map ((name, value) :: ·) else none
    | some (name, none), value :: rest =>
      if names.contains name && !looksLikeOption value then
        (readOptions? names rest).map ((name, value) :: ·)
      else none
    | _, _ => none

/-- Reads options, each at most once. -/
def options? (names args : List String) : Option Options :=
  (readOptions? names args).filter fun options => !Json.hasRepeated (options.map Prod.fst)

/-- An option that has to be given. -/
def required {α : Type} (options : Options) (name : String) (read : String → Option α) :
    Option α :=
  (options.lookup name).bind read

/-- An option that may be left out. -/
def optional {α : Type} (options : Options) (name : String) (read : String → Option α) :
    Option (Option α) :=
  match options.lookup name with
  | none => some none
  | some value => (read value).map some

/-- The value of an option that is a path: not the empty one. -/
def path? (value : String) : Option Path := if value.isEmpty then none else some ⟨value⟩

/-- The value of an option that is a format. -/
def format? (value : String) : Option Format :=
  if value = "text" then some .text else if value = "json" then some .json else none

/-- The options of the target of a command. -/
def target? (options : Options) : Option Target := do
  return ⟨← optional options "root" path?, ← optional options "contract" path?⟩

/-- Reads a command behind its name. -/
def commandNamed? (name : String) (args : List String) : Option Command :=
  match name with
  | "validate" => do
    let options ← options? ["root", "contract", "format"] args
    return .validate (← target? options) ((← optional options "format" format?).getD .text)
  | "graph" => do
    let options ← options? ["root", "contract"] args
    return .graph (← target? options)
  | "classify" => do
    let options ← options? ["checks", "root", "contract", "format"] args
    return .classify (← required options "checks" path?) (← target? options)
      ((← optional options "format" format?).getD .json)
  | "constraint" => do
    let options ← options? ["intent", "max-files", "max-diff-bytes"] args
    return .constraint (← required options "intent" some)
      (← optional options "max-files" natural64?) (← optional options "max-diff-bytes" natural64?)
  | "verify-correction" => do
    let options ← options? ["step", "format"] args
    return .verifyCorrection (← required options "step" path?)
      ((← optional options "format" format?).getD .json)
  | "validators" => do
    let _ ← options? [] args
    return .validators
  | _ => none

/-- Reads the arguments of the program. -/
def parse? : List String → Option Command
  | [] => none
  | first :: rest =>
    if first = "--version" || startsWith "-V" first then some .version
    else commandNamed? first rest

/-! ### Running a command -/

/-- What a command prints, and the code it ends with. -/
structure Outcome where
  exitCode : UInt32
  stdout : String
  stderr : String
  deriving Repr, DecidableEq

namespace Outcome

/-- An answer. -/
def success (stdout : String) : Outcome := ⟨0, stdout, ""⟩

/-- An answer that passes or not. -/
def judged (ok : Bool) (stdout : String) : Outcome := ⟨if ok then 0 else 1, stdout, ""⟩

/-- An error that stopped the command. -/
def stopped (e : ProjectError) : Outcome := ⟨1, "", "Error: " ++ e.message ++ "\n"⟩

/-- Arguments that make no command. -/
def misuse : Outcome := ⟨2, "", ""⟩

end Outcome

/-- Lines, each of them ended. -/
def lines (texts : List String) : String := String.join (texts.map fun t => t ++ "\n")

/-- A document on lines of its own. -/
def document (json : Json) : String := lines [json.pretty]

/-- The root of a target: what it names, or the working directory. -/
def projectRoot (files : Files) (target : Target) : Except ProjectError Path :=
  match target.root with
  | some root =>
    if files.isDirectory root then .ok root else .error (.notFound s!"project root {root.text}")
  | none => .ok files.workingDirectory

/-- The root of a target and the contract that holds there. -/
def loadProject (files : Files) (target : Target) : Except ProjectError (Path × Contract) := do
  let root ← projectRoot files target
  return (root, ← Contract.load files root target.contract)

/-- Reads a file that holds a document. -/
def readDocument {α : Type} (files : Files) (path : Path) (read : Json → Option α) :
    Except ProjectError α := do
  if files.isFile path then
    let text ← liftIo (files.readText path)
    match (Json.parse? text).bind read with
    | some value => return value
    | none => throw .json
  else throw (.notFound path.text)

/-- The mark in front of a verdict. -/
def mark (ok : Bool) : String := if ok then "✓" else "✗"

/-- The longest message on a line. -/
def messageWidth : Nat := 160

/-- A violation on a line. -/
def violationLine (v : Violation) : String :=
  let place :=
    match v.target with
    | some target => v.file ++ " -> " ++ target
    | none => v.file
  let message := compactLine v.message messageWidth
  s!"  {v.severity.text} {v.ruleId} {place}: {message}"

/-- A report as text. -/
def reportText (r : Report) : String :=
  lines <|
    s!"{mark r.ok} {r.summaryLine}" ::
      s!"  {r.graph.nodes} nodes, {r.graph.edges} edges, {r.graph.cycles} cycle(s)" ::
      r.violations.map violationLine

/-- A profile as text, with what the failed checks printed. -/
def profileText (p : Profile) (checks : List Check) : String :=
  let reason := (p.reason.map FailureReason.text).getD "none"
  let failed := (checks.filter Check.failed).map fun c => s!"{c.id}: {c.output}"
  lines <|
    (s!"▸ reason={reason} autoCorrect={p.shouldAutoCorrect} " ++
        s!"collapse={p.architectureCollapse} blocking={p.blockingCount}") ::
      p.clusters.map (fun c => s!"  ● {c.describe}") ++
      if failed.isEmpty then [] else ["  failed: " ++ previewMessages failed 3 120]

/-- A verdict as text. -/
def verdictText (v : Verdict) : String :=
  lines <|
    s!"{mark v.ok} {v.summary}" ::
      v.findings.map fun f => s!"  {f.gravity.title} {f.ruleId}: {f.message}"

/-- The contract for a classification: the standard one unless a project or a
contract is named. -/
def classificationContract (files : Files) (target : Target) : Except ProjectError Contract :=
  if target = ⟨none, none⟩ then .ok .standard
  else (loadProject files target).map Prod.snd

/-- The caps for a constraint: as the options say, else as the environment
says. -/
def capsOf (environment : String → Option String) (maxFiles maxDiffBytes : Option UInt64) : Caps :=
  let caps := Caps.ofEnvironment environment
  { maxFilesPerStep := maxFiles.getD caps.maxFilesPerStep
    maxTotalDiffBytes := maxDiffBytes.getD caps.maxTotalDiffBytes }

/-- What the program says about its version. -/
def versionText : String := "archgate 0.4.2"

/-- Runs a command until it answers or stops. -/
def answer (files : Files) (environment : String → Option String) :
    Command → Except ProjectError Outcome
  | .validate target format => do
    let (root, c) ← loadProject files target
    let report ← liftIo (Report.validate files root c)
    return .judged report.ok <|
      match format with
      | .json => document report.toJson
      | .text => reportText report
  | .graph target => do
    let (root, c) ← loadProject files target
    let graph ← liftIo (ImportGraph.build files root c)
    return .success (document graph.toJson.sorted)
  | .classify checks target format => do
    let c ← classificationContract files target
    let checks ← readDocument files checks (Json.list? Check.ofJson?)
    let profile := Profile.ofChecks c checks
    return .success <|
      match format with
      | .json => document profile.toJson
      | .text => profileText profile checks
  | .constraint intent maxFiles maxDiffBytes =>
    let caps := capsOf environment maxFiles maxDiffBytes
    return .success (document (Constraint.derive (.ofText intent) caps).toJson)
  | .verifyCorrection step format => do
    let step ← readDocument files step Step.ofJson?
    let verdict := step.evaluate
    return .judged verdict.ok <|
      match format with
      | .json => document verdict.toJson
      | .text => verdictText verdict
  | .validators => return .success (lines (Validator.registered.map Validator.id))
  | .version => return .success (lines [versionText])

/-- Runs the program on its arguments. -/
def run (files : Files) (environment : String → Option String) (args : List String) : Outcome :=
  match parse? args with
  | none => .misuse
  | some command =>
    match answer files environment command with
    | .ok outcome => outcome
    | .error e => .stopped e

end CommandLine
end Strata
