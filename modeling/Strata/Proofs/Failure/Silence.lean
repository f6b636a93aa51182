/-
# When a failure has no cluster

The profile of a report that is not ok always asks for a correction. It has a cluster exactly
when the report has a violation of a rule that clusters are built from
(`Report.diagnosis_of_failure`); the seven other rules that make errors are silent
(`mem_silentRules_iff`):

| rules | cluster |
| --- | --- |
| `moduleMissingLayer`, `unknownLayer`, `unknownTopLevel` | architecture contract |
| `layerMatrix` | layer boundary |
| `missingTarget` | import resolution |
| `cycle` | dependency cycle |
| `testsMissing`, `testsEmpty` | test contract gap |
| `moduleIsolation`, `nonRelativeImport`, `pathAliasConfig` | none |
| `sourceRootMissing`, `persistenceInLayer` | none |
| `hardcodedSecret`, `dynamicEval` | none |

So a project may fail without a cluster (`Report.failure_without_cluster`).
-/

import Strata.Proofs.Failure.Blame
import Strata.Proofs.Failure.Diagnosis
import Strata.Proofs.Severity

namespace Strata

open Text

namespace Diagnosis

/-- The rules whose violations are grouped into clusters. -/
def groupedRules : List Rule :=
  ([.moduleMissingLayer] ++ Graph.placeRules) ++ [.layerMatrix] ++ [.missingTarget] ++ [.cycle] ++
    Tests.rules

/-- The rules that make errors and lead to no cluster. -/
def silentRules : List Rule :=
  [.moduleIsolation, .nonRelativeImport, .pathAliasConfig, .sourceRootMissing,
   .persistenceInLayer, .hardcodedSecret, .dynamicEval]

/-- **An error is grouped or silent.** -/
theorem mem_silentRules_iff {rule : Rule} :
    rule ∈ silentRules ↔ rule.severity = .error ∧ rule ∉ groupedRules := by
  cases rule <;> decide

/-- No violation is by one of these rules. -/
def HasNone (rules : List Rule) (vs : List Violation) : Prop :=
  ∀ v ∈ vs, ∀ rule ∈ rules, v.ruleId ≠ rule.id

/-- None by two lists of rules is none by either of them. -/
theorem hasNone_append {rules rules' : List Rule} {vs : List Violation} :
    HasNone (rules ++ rules') vs ↔ HasNone rules vs ∧ HasNone rules' vs := by
  simp only [HasNone, List.forall_mem_append, forall_and]

/-- No violation of a rule is picked when there is none. -/
theorem ofRule_eq_nil_iff {rule : Rule} {vs : List Violation} :
    ofRule rule vs = [] ↔ HasNone [rule] vs := by
  simp [ofRule, HasNone, List.filter_eq_nil_iff]

/-! ### Each cluster -/

section

variable {vs : List Violation} (hregular : Violation.AllRegular vs)
include hregular

/-- A family has no violations when its rules have none. -/
theorem filter_family_eq_nil_iff {family : String} {rules : List Rule}
    (hfamily : ∀ rule : Rule, startsWith family rule.id = true ↔ rule ∈ rules) :
    (vs.filter fun v => startsWith family v.ruleId) = [] ↔ HasNone rules vs := by
  simp only [List.eq_nil_iff_forall_not_mem, mem_family_iff hfamily hregular, mem_ofRule, HasNone]
  constructor
  · intro h v hv rule hrule hid
    exact h v ⟨rule, hrule, hv, hid⟩
  · rintro h v ⟨rule, hrule, hv, hid⟩
    exact h v hv rule hrule hid

/-- The cluster of the structure is missing when no layer is missing or unknown. -/
theorem architecture_eq_none_iff (c : Contract) :
    (Evidence.ofViolations c vs).cluster? = none ↔
      HasNone ([.moduleMissingLayer] ++ Graph.placeRules) vs := by
  have hcluster : (Evidence.ofViolations c vs).cluster? = none ↔
      (Evidence.ofViolations c vs).signals = [] := by
    rw [Evidence.cluster?, Evidence.isEmpty]
    cases (Evidence.ofViolations c vs).signals <;> simp
  have hsignals : (Evidence.ofViolations c vs).signals = [] ↔
      vs.filter isMissingLayer = [] ∧ vs.filter isUnknownLayer = [] := by
    rw [Evidence.ofViolations, ordered_eq_nil_iff, List.append_eq_nil_iff, List.map_eq_nil_iff,
      List.map_eq_nil_iff]
  rw [hcluster, hsignals, hasNone_append]
  exact and_congr (filter_family_eq_nil_iff hregular Rule.startsWith_missingLayerFamily_iff)
    (filter_family_eq_nil_iff hregular Rule.startsWith_unknownLayerFamily_iff)

omit hregular in
/-- The cluster of the layers is missing when the matrix is kept. -/
theorem layerBoundary_eq_none_iff (c : Contract) :
    layerBoundary? c vs = none ↔ HasNone [.layerMatrix] vs := by
  rw [← ofRule_eq_nil_iff, layerBoundary?]
  cases ofRule .layerMatrix vs <;> simp

omit hregular in
/-- The cluster of the imports is missing when every import has a target. -/
theorem importResolution_eq_none_iff :
    importResolution? vs [] = none ↔ HasNone [.missingTarget] vs := by
  rw [← ofRule_eq_nil_iff, importResolution?]
  simp only [List.flatMap_nil, List.filterMap_nil, List.map_nil, List.append_nil,
    ite_eq_left_iff, reduceCtorEq, imp_false, Decidable.not_not, Bool.and_eq_true,
    List.isEmpty_iff, ordered_eq_nil_iff, List.map_eq_nil_iff]
  refine and_iff_left_of_imp fun hnil => ?_
  rw [hnil, List.filterMap_nil]

omit hregular in
/-- The cluster of the cycles is missing when there is no cycle. -/
theorem dependencyCycle_eq_none_iff : dependencyCycle? vs = none ↔ HasNone [.cycle] vs := by
  rw [← ofRule_eq_nil_iff, dependencyCycle?]
  cases ofRule .cycle vs <;> simp

/-- The cluster of the tests is missing when no test is at fault. -/
theorem testGap_eq_none_iff : testGap? vs = none ↔ HasNone Tests.rules vs := by
  rw [← filter_family_eq_nil_iff hregular Rule.startsWith_testFamily_iff, testGap?]
  cases vs.filter (fun v => startsWith Rule.testFamily v.ruleId) <;> simp

end

/-- **The clusters of a failed architecture check**: there is none exactly when no violation is
grouped. -/
theorem clusters_eq_nil_iff {check : Check} (hregular : Violation.AllRegular check.violations)
    (c : Contract) :
    (⟨some check, none, none, none, none⟩ : Failures).clusters c = [] ↔
      HasNone groupedRules check.violations := by
  rw [groupedRules, hasNone_append, hasNone_append, hasNone_append, hasNone_append,
    ← architecture_eq_none_iff hregular c, ← layerBoundary_eq_none_iff c,
    ← importResolution_eq_none_iff, ← dependencyCycle_eq_none_iff, ← testGap_eq_none_iff hregular]
  simp [Failures.clusters, Failures.violations, Failures.outputs, middleware?, ofFailed?,
    and_assoc]

end Diagnosis

namespace Report

open Diagnosis

variable {files : Files} {root : Path} {c : Contract} {r : Report}

/-- **The violations of a report are as severe as their rules say.** -/
theorem graded (h : Report.validate files root c = .ok r) : Violation.AllGraded r.violations := by
  obtain ⟨g, hgraph, h⟩ := bind_eq_ok h
  obtain ⟨merged, hmerged, h⟩ := bind_eq_ok h
  obtain ⟨found, hfound, hmerged⟩ := bind_eq_ok hmerged
  obtain rfl := Except.ok.inj h
  obtain rfl := Except.ok.inj hmerged
  intro v hv
  rcases mem_violations_assemble.1 hv with hv | ⟨vs, hvs, hv⟩
  · exact ImportGraph.graded_of_build hgraph v hv
  · obtain ⟨validator, hvalidator, hscan⟩ := exists_of_mem_mapM hfound hvs
    exact Validator.graded_of_mem_registered hvalidator hscan v hv

/-- A report is diagnosed without clusters exactly when none of its violations is by a rule that
clusters are built from. -/
theorem clusters_toCheck_eq_nil_iff (h : Report.validate files root c = .ok r)
    (hok : r.ok = false) :
    (Profile.ofChecks c [r.toCheck]).clusters = [] ↔ HasNone groupedRules r.violations := by
  obtain ⟨g, layout, tests, others, hp⟩ := exists_parts h
  have hregular : Violation.AllRegular r.toCheck.violations := hp.regular
  rw [ofChecks_toCheck hok]
  exact clusters_eq_nil_iff hregular c

/-- **The diagnosis of a failure.** A report that is not ok asks for a correction. It has a
cluster exactly when it has a violation of a rule that is grouped, and so whenever a rule that
is not silent blocks. Source: specification, section 4.5, items 1 to 8. -/
theorem diagnosis_of_failure (h : Report.validate files root c = .ok r) (hok : r.ok = false) :
    (Profile.ofChecks c [r.toCheck]).shouldAutoCorrect = true ∧
    ((Profile.ofChecks c [r.toCheck]).clusters ≠ [] ↔
      ∃ v ∈ r.violations, ∃ rule ∈ groupedRules, v.ruleId = rule.id) ∧
    ((∃ v ∈ r.violations, v.isBlocking = true ∧ ∀ rule ∈ silentRules, v.ruleId ≠ rule.id) →
      (Profile.ofChecks c [r.toCheck]).clusters ≠ []) := by
  have hclusters : (Profile.ofChecks c [r.toCheck]).clusters ≠ [] ↔
      ∃ v ∈ r.violations, ∃ rule ∈ groupedRules, v.ruleId = rule.id := by
    rw [ne_eq, clusters_toCheck_eq_nil_iff h hok]
    simp [HasNone]
  refine ⟨by rw [ofChecks_toCheck hok]; rfl, hclusters, ?_⟩
  rintro ⟨v, hv, hblocks, hloud⟩
  obtain ⟨rule, hid, hseverity⟩ := (graded h v hv).severity_of_isBlocking hblocks
  refine hclusters.2 ⟨v, hv, rule, ?_, hid⟩
  by_contra hgrouped
  exact hloud rule (mem_silentRules_iff.2 ⟨hseverity, hgrouped⟩) hid

/-- The diagnosis of a project with cycles has a cluster. -/
theorem diagnosis_of_failure_arrow :
    ∃ r, Report.validate arrowFiles ⟨"/"⟩ .standard = .ok r ∧ r.ok = false ∧
      (Profile.ofChecks .standard [r.toCheck]).shouldAutoCorrect = true ∧
      (Profile.ofChecks .standard [r.toCheck]).clusters ≠ [] := by
  obtain ⟨r, hvalidate, hok, cycle, hcycle, -⟩ := exists_validate_arrowFiles
  obtain ⟨g, layout, tests, others, hp⟩ := exists_parts hvalidate
  obtain ⟨v, hv, hid, -⟩ := hp.exists_violation_of_cycle (hp.cycles ▸ hcycle)
  obtain ⟨hcorrect, hclusters, -⟩ := diagnosis_of_failure hvalidate hok
  exact ⟨r, hvalidate, hok, hcorrect, hclusters.2 ⟨v, hv, .cycle, by decide, hid⟩⟩

/-! ### A failure without a cluster -/

/-- A project without any file. -/
def bareFiles : Files where
  top := .directory []
  workingDirectory := ⟨"/"⟩

/-- **A project may fail without a cluster**: that the source root is missing blocks, and no
cluster is built from it. -/
theorem failure_without_cluster :
    ∃ r, Report.validate bareFiles ⟨"/"⟩ .standard = .ok r ∧ r.ok = false ∧
      (Profile.ofChecks .standard [r.toCheck]).shouldAutoCorrect = true ∧
      (Profile.ofChecks .standard [r.toCheck]).clusters = [] := by
  have hmodules : moduleDirectories bareFiles ⟨"/"⟩ .standard = .ok [] :=
    congrArg Except.ok List.mergeSort_nil
  have hbuild : ImportGraph.build bareFiles ⟨"/"⟩ .standard = .ok .empty := rfl
  obtain ⟨found, hfound⟩ := exists_scan_of_no_modules hmodules ⟨_, rfl⟩ ⟨_, rfl⟩
  have hvalidate := validateWith_eq hbuild hfound
  obtain ⟨g, layout, tests, others, hp⟩ := exists_parts hvalidate
  -- from here on the report is known by its parts only
  generalize assemble .standard .empty _ = r at hvalidate hp
  have hgraph : g = .empty := (Except.ok.inj (hbuild.symm.trans hp.build)).symm
  have hlayout : layout = [Structure.sourceRootMissing .standard] :=
    (Except.ok.inj hp.scanLayout).symm
  have htests : tests = [] := by
    have hscan := hp.scanTests
    unfold Tests.scan at hscan
    rw [hmodules] at hscan
    exact (Except.ok.inj hscan).symm
  have hmem (v : Violation) :
      v ∈ r.violations ↔ v = Structure.sourceRootMissing .standard ∨ v ∈ others := by
    rw [hp.assembled.perm.mem_iff, hgraph, hlayout, htests]
    simp [ImportGraph.empty]
  have hok := hp.ok_eq_false_of_mem ((hmem _).2 (.inl rfl)) rfl
  refine ⟨r, hvalidate, hok, by rw [ofChecks_toCheck hok]; rfl, ?_⟩
  rw [clusters_toCheck_eq_nil_iff hvalidate hok]
  intro v hv
  rcases (hmem v).1 hv with rfl | hv
  · decide
  · -- the other scans report by rules that no cluster is built from
    have hapart : ∀ rule ∈ groupedRules, rule ∉ otherRules := by decide
    exact fun rule hrule => hp.madeBy_others.ruleId_ne (hapart rule hrule) hv

end Report

end Strata
