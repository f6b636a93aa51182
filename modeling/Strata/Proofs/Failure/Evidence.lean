/-
# What the violations of a report speak of

A report merges the violations of its graph with those that the validators found,
and each rule is made by one of them. So the violations that a diagnosis picks by
their rules can be traced to what they speak of:

| picked | made by | one for each |
| --- | --- | --- |
| missing layers | the scan of the layout | module and layer that it lacks |
| unknown layers | the graph | node that lies in no layer |
| tests | the scan of the tests | fault in the tests of a module |
-/

import Strata.Proofs.Graph.Accounting
import Strata.Proofs.Graph.CycleOrder
import Strata.Proofs.Report
import Strata.Proofs.Validator.Findings

namespace Strata

open Diagnosis Text

/-! ### Families of rules -/

namespace Rule

/-- One rule belongs to the family about missing layers. -/
theorem startsWith_missingLayerFamily_iff (rule : Rule) :
    startsWith missingLayerFamily rule.id = true ↔ rule ∈ [moduleMissingLayer] := by
  cases rule <;> decide

/-- The family about unknown layers has the two rules about places. -/
theorem startsWith_unknownLayerFamily_iff (rule : Rule) :
    startsWith unknownLayerFamily rule.id = true ↔ rule ∈ Graph.placeRules := by
  cases rule <;> decide

/-- The family about tests has the rules of their scan. -/
theorem startsWith_testFamily_iff (rule : Rule) :
    startsWith testFamily rule.id = true ↔ rule ∈ Tests.rules := by
  cases rule <;> decide

end Rule

/-- The violations of a family are those of its rules. -/
theorem Diagnosis.mem_family_iff {family : String} {rules : List Rule}
    (hfamily : ∀ rule : Rule, startsWith family rule.id = true ↔ rule ∈ rules)
    {vs : List Violation} (h : Violation.AllRegular vs) {v : Violation} :
    v ∈ vs.filter (fun v => startsWith family v.ruleId) ↔ ∃ rule ∈ rules, v ∈ ofRule rule vs := by
  simp only [List.mem_filter, mem_ofRule]
  constructor
  · rintro ⟨hv, hstarts⟩
    obtain ⟨rule, hid, -⟩ := h v hv
    exact ⟨rule, (hfamily rule).1 (hid ▸ hstarts), hv, hid⟩
  · rintro ⟨rule, hrule, hv, hid⟩
    exact ⟨hv, hid ▸ (hfamily rule).2 hrule⟩

namespace Report

variable {files : Files} {root : Path} {c : Contract} {r : Report} {g : ImportGraph}
  {layout tests others : List Violation}

/-- The rules about couplings and security. -/
def otherRules : List Rule := Coupling.rules ++ Security.rules

/-- What a report is made from: a graph, and what the validators found about the
layout, the tests and other matters. -/
structure Parts (files : Files) (root : Path) (c : Contract) (r : Report) (g : ImportGraph)
    (layout tests others : List Violation) : Prop where
  build : ImportGraph.build files root c = .ok g
  scanLayout : Structure.scan files root c = .ok layout
  scanTests : Tests.scan files root c = .ok tests
  madeBy_others : Violation.AllMadeBy otherRules others
  violations : r.violations = Violation.sort (g.violations ++ layout ++ tests ++ others)
  cycles : r.cycles = g.cycles
  blockingCount : r.blockingCount = Violation.blockingCount r.violations
  ok : r.ok = (r.blockingCount == 0)

/-- A validation builds the graph, scans for each matter, and sorts what was found. -/
theorem exists_scans (h : Report.validate files root c = .ok r) :
    ∃ g layout couplings security tests, ImportGraph.build files root c = .ok g ∧
      Structure.scan files root c = .ok layout ∧ Coupling.scan files root c = .ok couplings ∧
      Security.scan files root c = .ok security ∧ Tests.scan files root c = .ok tests ∧
      r = assemble c g (Violation.sort [layout, couplings, security, tests].flatten) := by
  obtain ⟨g, hgraph, h⟩ := bind_eq_ok h
  obtain ⟨merged, hmerged, h⟩ := bind_eq_ok h
  obtain ⟨found, hfound, hmerged⟩ := bind_eq_ok hmerged
  obtain rfl := Except.ok.inj h
  obtain rfl := Except.ok.inj hmerged
  have hall := mapM_eq_ok.1 hfound
  simp only [Validator.registered, List.forall₂_cons_left_iff, List.forall₂_nil_left_iff] at hall
  obtain ⟨layout, _, hlayout, ⟨couplings, _, hcouplings, ⟨security, _, hsecurity,
    ⟨tests, _, htests, rfl, rfl⟩, rfl⟩, rfl⟩, rfl⟩ := hall
  exact ⟨g, layout, couplings, security, tests, hgraph, hlayout, hcouplings, hsecurity, htests, rfl⟩

/-- **A validation puts a report together from its parts.** -/
theorem exists_parts (h : Report.validate files root c = .ok r) :
    ∃ g layout tests others, Parts files root c r g layout tests others := by
  obtain ⟨g, layout, couplings, security, tests, hgraph, hlayout, hcouplings, hsecurity, htests,
    rfl⟩ := exists_scans h
  have hothers : Violation.AllMadeBy otherRules (couplings ++ security) :=
    ((Coupling.madeBy_scan hcouplings).mono (by decide)).append
      ((Security.madeBy_scan hsecurity).mono (by decide))
  have hregular : Violation.AllRegular
      (g.violations ++ layout ++ tests ++ (couplings ++ security)) :=
    (((ImportGraph.regular_of_build hgraph).append (Structure.madeBy_scan hlayout).regular).append
      (Tests.madeBy_scan htests).regular).append hothers.regular
  refine ⟨g, layout, tests, couplings ++ security, hgraph, hlayout, htests, hothers, ?_, rfl, rfl,
    rfl⟩
  refine (Violation.sort_eq_of_perm (List.perm_iff_count.2 fun v => ?_) hregular).symm
  have hmerged := (Violation.sort_perm [layout, couplings, security, tests].flatten).count_eq v
  simp only [List.count_append, List.flatten_cons, List.flatten_nil, List.append_nil] at hmerged ⊢
  omega

namespace Parts

variable (hp : Parts files root c r g layout tests others)
include hp

/-- The violations of a report, part by part. -/
theorem assembled :
    Violation.Assembled
      [(Graph.rules, g.violations), (Structure.rules, layout), (Tests.rules, tests),
        (otherRules, others)] r.violations where
  perm := by
    rw [hp.violations, List.flatMap_cons, List.flatMap_cons, List.flatMap_cons,
      List.flatMap_singleton, ← List.append_assoc, ← List.append_assoc]
    exact Violation.sort_perm _
  madeBy := by
    simp only [List.forall_mem_cons, List.not_mem_nil, false_imp_iff, implies_true, and_true]
    exact ⟨ImportGraph.madeBy_of_build hp.build, Structure.madeBy_scan hp.scanLayout,
      Tests.madeBy_scan hp.scanTests, hp.madeBy_others⟩
  apart := show [Graph.rules, Structure.rules, Tests.rules, otherRules].Pairwise _ by decide

/-- Every violation of a report has a target exactly when its rule has one. -/
theorem regular : Violation.AllRegular r.violations := hp.assembled.allRegular

/-- The violations of a rule of graphs are those of the graph. -/
theorem ofRule_graph_perm {rule : Rule} (hrule : rule ∈ Graph.rules) :
    (ofRule rule r.violations).Perm (ofRule rule g.violations) :=
  hp.assembled.ofRule_perm (.head _) hrule

/-- **A violation about a missing layer** speaks of a module that lacks it. -/
theorem mem_missing_iff {v : Violation} :
    v ∈ r.violations.filter isMissingLayer ↔
      ∃ d layer, Lacks files root c d layer ∧ v = Structure.missingLayer c d.name layer := by
  unfold isMissingLayer
  rw [mem_family_iff Rule.startsWith_missingLayerFamily_iff hp.regular]
  have hlayout : (ofRule .moduleMissingLayer r.violations).Perm
      (ofRule .moduleMissingLayer layout) :=
    hp.assembled.ofRule_perm (.tail _ (.head _)) (show _ ∈ Structure.rules by decide)
  simp only [List.mem_singleton, exists_eq_left]
  rw [hlayout.mem_iff, mem_ofRule]
  exact Structure.missing_iff hp.scanLayout

/-- **A violation about an unknown layer** speaks of a node that lies in no layer. -/
theorem mem_unknown_iff {v : Violation} :
    v ∈ r.violations.filter isUnknownLayer ↔
      ∃ n ∈ g.nodes, Graph.unknownLayerViolation? n = some v := by
  have hsub : ∀ rule ∈ Graph.placeRules, rule ∈ Graph.rules := by decide
  unfold isUnknownLayer
  rw [mem_family_iff Rule.startsWith_unknownLayerFamily_iff hp.regular,
    ← ImportGraph.place_violations_iff hp.build]
  exact exists_congr fun rule => and_congr_right fun hrule =>
    (hp.ofRule_graph_perm (hsub rule hrule)).mem_iff

/-- **A violation about tests** speaks of a fault in the tests of a module. -/
theorem mem_gap_iff {v : Violation} :
    v ∈ r.violations.filter (fun v => startsWith Rule.testFamily v.ruleId) ↔
      ∃ d, IsModule files root c d ∧ ∃ found, Tests.scanModule files root c d = .ok found ∧
        v ∈ found := by
  rw [mem_family_iff Rule.startsWith_testFamily_iff hp.regular, ← Tests.mem_scan_iff hp.scanTests]
  exact (hp.assembled.mem_part_iff (.tail _ (.tail _ (.head _)))).symm

/-- **The violations of the layer matrix** speak of the edges that break it. -/
theorem matrix (hwell : files.top.WellNamed) :
    OneEach r.violations .layerMatrix (fun e => e ∈ g.edges ∧ g.BreaksMatrix c e)
      (fun e => g.nameOf e.source) (fun e => g.nameOf e.target) :=
  (ImportGraph.matrix_of_build hwell hp.build).of_perm (hp.ofRule_graph_perm (by decide))

/-- The violations about cycles are those of the cycles that are shown. -/
theorem ofRule_cycle_perm :
    (ofRule .cycle r.violations).Perm ((Graph.shownCycles g).map Graph.Cycle.violation) :=
  (hp.ofRule_graph_perm (by decide)).trans (ImportGraph.reportsCycles hp.build).violations

/-- **The violations about cycles** stand in the order of the cycles. -/
theorem ofRule_cycle (hdistinct : g.DistinctNames) :
    ofRule .cycle r.violations = (Graph.shownCycles g).map Graph.Cycle.violation := by
  have hperm := hp.ofRule_cycle_perm
  rw [hp.violations] at hperm ⊢
  exact hdistinct.ofRule_cycle_sort
    ((Diagnosis.ofRule_perm .cycle (Violation.sort_perm _)).symm.trans hperm)

/-- A report with a violation that blocks is not ok. -/
theorem ok_eq_false_of_mem {v : Violation} (hv : v ∈ r.violations) (hblocks : v.isBlocking = true) :
    r.ok = false := by
  have hcount : r.blockingCount ≠ 0 := by
    rw [hp.blockingCount, Violation.blockingCount]
    exact mt List.length_eq_zero_iff.1 (List.ne_nil_of_mem (List.mem_filter.2 ⟨hv, hblocks⟩))
  rw [hp.ok]
  exact beq_false_of_ne hcount

/-- A cycle is reported by a violation that blocks. -/
theorem exists_violation_of_cycle {cycle : List String} (h : cycle ∈ g.cycles) :
    ∃ v ∈ r.violations, v.ruleId = Rule.cycle.id ∧ v.isBlocking = true := by
  rw [(ImportGraph.reportsCycles hp.build).cycles] at h
  obtain ⟨shown, hshown, -⟩ := List.mem_map.1 h
  have hreported := hp.ofRule_cycle_perm.mem_iff.2 (List.mem_map_of_mem hshown)
  exact ⟨shown.violation, (mem_ofRule.1 hreported).1, rfl, rfl⟩

/-- **A report with a cycle is not ok.** -/
theorem ok_eq_false_of_cycle {cycle : List String} (h : cycle ∈ g.cycles) : r.ok = false := by
  obtain ⟨v, hv, -, hblocks⟩ := hp.exists_violation_of_cycle h
  exact hp.ok_eq_false_of_mem hv hblocks

end Parts

end Report

end Strata
