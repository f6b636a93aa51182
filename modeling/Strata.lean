import Strata.Proofs.Session
import Strata.Main
import Strata.Proofs.Correction.Containment
import Strata.Proofs.Graph.Search
import Strata.Proofs.Graph.Components
import Strata.Proofs.Graph.Imports
import Strata.Proofs.Graph.ClosedWalk
import Strata.Proofs.Graph.CycleReport
import Strata.Proofs.Path
import Strata.Proofs.Tree.Relisting
import Strata.Proofs.Tree.Walk
import Strata.Proofs.Graph.Relisting
import Strata.Proofs.Validator.Regular
import Strata.Proofs.Validator.Relisting
import Strata.Proofs.Report
import Strata.Proofs.Path.Descent
import Strata.Proofs.Tree.Found
import Strata.Proofs.Graph.Sources
import Strata.Proofs.Graph.Accounting
import Strata.Proofs.Layer
import Strata.Proofs.Graph.SourceRoot
import Strata.Proofs.Validator.Modules
import Strata.Proofs.Graph.CycleOrder
import Strata.Proofs.Validator.Findings
import Strata.Proofs.Failure.Diagnosis
import Strata.Proofs.Text.Pattern
import Strata.Proofs.Correction.Compliance
import Strata.Proofs.Import.Forms
import Strata.Proofs.Import.Written
import Strata.Proofs.Json.Readable
import Strata.Proofs.Correction.Derivation
import Strata.Proofs.Failure.Blame
import Strata.Proofs.Correction.Repair
import Strata.Proofs.Failure.Recognized
import Strata.Proofs.Failure.Silence
import Strata.Proofs.Documents
import Strata.Proofs.Graph.CycleWalk
import Strata.Proofs.Import.Resolution
import Strata.Proofs.Import.Interspersed
import Strata.Proofs.Violation.Canonical
import Strata.Proofs.Graph.Elementary
import Strata.Proofs.Import.Denoted
import Strata.Proofs.Json.Relaxed
import Strata.Proofs.Correction.Attempt
import Strata.Proofs.Correction.Resolved
import Strata.Proofs.Correction.Easing
import Strata.Proofs.Import.Spacing
import Strata.Proofs.Failure.Blocking
import Strata.Proofs.Graph.Aliases
import Strata.Proofs.Failure.MissingModules
import Strata.Proofs.Graph.ComponentOrder
import Strata.Proofs.Correction.Nesting
import Strata.Proofs.Correction.NormalForm
import Strata.Proofs.Text.Summary
