/-
# A rule says how severe its violations are

Specification, sections 4.3 and 4.4: the severity of each rule.

Five rules make warnings, all others make errors (`Rule.severity`). Every violation of a graph
is an error (`ImportGraph.graded_of_build`), and a validator makes its violations as severe
as their rules (`Validator.graded_of_mem_registered`). So what blocks in a report is by a rule
that makes errors (`Violation.Graded.severity_of_isBlocking`).
-/

import Strata.Proofs.Graph.Violations
import Strata.Proofs.Validator.Regular

namespace Strata

/-- How severe the violations of a rule are. -/
def Rule.severity : Rule → Severity
  | moduleEmpty | httpInService | consoleLog | envNotIgnored | testsEmpty => .warning
  | layerMatrix | moduleIsolation | unknownLayer | unknownTopLevel | nonRelativeImport
  | pathAliasConfig | missingTarget | cycle | sourceRootMissing | moduleMissingLayer
  | persistenceInLayer | hardcodedSecret | dynamicEval | testsMissing => .error

namespace Violation

/-- A violation is as severe as its rule says. -/
def Graded (v : Violation) : Prop := ∃ rule : Rule, v.ruleId = rule.id ∧ v.severity = rule.severity

variable {rule : Rule} {file message : String} {target : Option String}

/-- An error by a rule that makes errors is graded. -/
theorem graded_error (h : rule.severity = .error) : (error rule file message target).Graded :=
  ⟨rule, rfl, h.symm⟩

/-- A warning by a rule that makes warnings is graded. -/
theorem graded_warning (h : rule.severity = .warning) :
    (warning rule file message target).Graded := ⟨rule, rfl, h.symm⟩

/-- **What blocks is by a rule that makes errors.** -/
theorem Graded.severity_of_isBlocking {v : Violation} (h : v.Graded)
    (hblocks : v.isBlocking = true) :
    ∃ rule : Rule, v.ruleId = rule.id ∧ rule.severity = .error := by
  obtain ⟨rule, hid, hseverity⟩ := h
  exact ⟨rule, hid, hseverity.symm.trans (beq_iff_eq.1 hblocks)⟩

/-- Violations that are as severe as their rules say. -/
def AllGraded (vs : List Violation) : Prop := ∀ v ∈ vs, v.Graded

end Violation

open Violation

/-! ### The graph -/

/-- **Every violation of a graph is an error.** -/
theorem ImportGraph.graded_of_build {files : Files} {root : Path} {c : Contract}
    {g : ImportGraph} (h : ImportGraph.build files root c = .ok g) : AllGraded g.violations := by
  have herror : ∀ rule ∈ Graph.rules, rule.severity = .error := by decide
  obtain ⟨configs, nodes, records, rfl, -⟩ := build_eq h
  intro v hv
  have hv := Graph.assembled_ofRecords.perm.mem_iff.1 hv
  simp only [List.flatMap_cons, List.flatMap_nil, List.append_nil, List.mem_append] at hv
  rcases hv with hv | hv | hv | hv
  · obtain ⟨config, -, hv⟩ := List.mem_filterMap.1 hv
    obtain ⟨file, message, rfl⟩ := Graph.aliasConfigViolation_eq hv
    exact graded_error rfl
  · obtain ⟨node, -, hv⟩ := List.mem_filterMap.1 hv
    obtain ⟨rule, hrule, file, message, target, rfl⟩ := Graph.unknownLayerViolation_eq hv
    exact graded_error (herror rule (List.mem_append_left _ (List.mem_append_left _
      (List.mem_append_right _ hrule))))
  · obtain ⟨record, -, hv⟩ := List.mem_flatMap.1 hv
    obtain ⟨rule, hrule, file, message, target, rfl⟩ := Graph.importViolation_eq hv
    exact graded_error (herror rule (List.mem_append_left _ (List.mem_append_right _ hrule)))
  · obtain ⟨cycle, -, rfl⟩ := List.mem_map.1 hv
    exact graded_error rfl

/-! ### The validators -/

variable {files : Files} {root : Path} {c : Contract} {vs : List Violation}

/-- What a scan of the layout reports is as severe as its rules. -/
theorem Structure.graded_scan (h : scan files root c = .ok vs) : AllGraded vs := by
  intro v hv
  rcases scan_cases h hv with ⟨rfl, -⟩ | ⟨module, ⟨layer, rfl⟩ | rfl⟩
  · exact graded_error rfl
  · exact graded_error rfl
  · exact graded_warning rfl

/-- What a scan for couplings reports is as severe as its rules. -/
theorem Coupling.graded_scan (h : scan files root c = .ok vs) : AllGraded vs := by
  obtain ⟨sources, -, h⟩ := bind_eq_ok h
  obtain rfl := Except.ok.inj h
  intro v hv
  obtain ⟨s, -, hv⟩ := List.mem_flatMap.1 hv
  rcases scanSource_cases hv with ⟨message, package, rfl⟩ | ⟨message, evidence, rfl⟩ |
    ⟨message, rfl⟩
  · exact graded_error rfl
  · exact graded_warning rfl
  · exact graded_warning rfl

/-- What a scan for security reports is as severe as its rules. -/
theorem Security.graded_scan (h : scan files root c = .ok vs) : AllGraded vs := by
  obtain ⟨found, -, h⟩ := bind_eq_ok h
  obtain ⟨env, henv, h⟩ := bind_eq_ok h
  obtain rfl := Except.ok.inj h
  intro v hv
  rcases List.mem_append.1 hv with hv | hv
  · obtain ⟨f, -, hv⟩ := List.mem_flatMap.1 hv
    split at hv
    · rcases scanSource_cases hv with ⟨message, kind, rfl⟩ | ⟨message, rfl⟩
      · exact graded_error rfl
      · exact graded_error rfl
    · exact absurd hv List.not_mem_nil
  · obtain ⟨file, message, rfl⟩ := scanEnv_eq henv hv
    exact graded_warning rfl

/-- What a scan of the tests reports is as severe as its rules. -/
theorem Tests.graded_scan (h : scan files root c = .ok vs) : AllGraded vs := by
  intro v hv
  obtain ⟨module, rfl | ⟨file, rfl⟩⟩ := scan_cases h hv
  · exact graded_error rfl
  · exact graded_warning rfl

/-- **A registered validator makes its violations as severe as their rules say.** -/
theorem Validator.graded_of_mem_registered {v : Validator} (hv : v ∈ registered)
    (h : v.scan files root c = .ok vs) : AllGraded vs := by
  simp only [registered, List.mem_cons, List.not_mem_nil, or_false] at hv
  rcases hv with rfl | rfl | rfl | rfl
  · exact Structure.graded_scan h
  · exact Coupling.graded_scan h
  · exact Security.graded_scan h
  · exact Tests.graded_scan h

end Strata
