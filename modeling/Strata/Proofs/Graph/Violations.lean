/-
# The violations of a graph

Every violation of a graph is an error, and its rule says whether it has a
target:

| found in | rules | target |
| --- | --- | --- |
| a compiler configuration | `pathAliasConfig` | none |
| a node | `unknownLayer`, `unknownTopLevel` | a directory |
| an import | `nonRelativeImport`, `missingTarget` | the specifier |
| an edge | `layerMatrix`, `moduleIsolation` | the imported file |
| a component | `cycle` | the path of the cycle |
-/

import Strata.Proofs.Graph.Built
import Strata.Proofs.Violation

namespace Strata
namespace Graph

/-- A configuration is reported by one rule, without a target. -/
theorem aliasConfigViolation_eq {config : AliasConfig} {v : Violation}
    (h : v ∈ aliasConfigViolation? config) :
    ∃ file message, v = .error .pathAliasConfig file message none := by
  unfold aliasConfigViolation? at h
  split at h
  · exact ⟨_, _, (Option.some.inj h).symm⟩
  · cases h

/-- A node is reported by one of the two rules about its place, with the directory as the target. -/
theorem unknownLayerViolation_eq {node : Node} {v : Violation}
    (h : v ∈ unknownLayerViolation? node) :
    ∃ rule ∈ [Rule.unknownLayer, .unknownTopLevel], ∃ file message target,
      v = .error rule file message (some target) := by
  unfold unknownLayerViolation? at h
  split at h
  · exact ⟨.unknownLayer, by simp, _, _, _, (Option.some.inj h).symm⟩
  · exact ⟨.unknownTopLevel, by simp, _, _, _, (Option.some.inj h).symm⟩
  all_goals cases h

/-- A node has a violation when a directory stands where a layer should. -/
theorem isSome_unknownLayerViolation (node : Node) :
    (unknownLayerViolation? node).isSome = node.place.unknownLayer?.isSome := by
  unfold unknownLayerViolation?
  cases node.place <;> rfl

/-- The violation of a node is about its file, by a rule for its place. -/
theorem unknownLayerViolation_place {node : Node} {v : Violation}
    (h : v ∈ unknownLayerViolation? node) :
    v.file = node.relativePath ∧
      (v.ruleId = Rule.unknownLayer.id ∧ (∃ m segment, node.place = .unknownModuleLayer m segment) ∨
        v.ruleId = Rule.unknownTopLevel.id ∧ ∃ segment, node.place = .unknownTopLevel segment) := by
  unfold unknownLayerViolation? at h
  split at h
  · rename_i m segment hplace
    rw [← Option.some.inj h]
    exact ⟨rfl, .inl ⟨rfl, m, segment, hplace⟩⟩
  · rename_i segment hplace
    rw [← Option.some.inj h]
    exact ⟨rfl, .inr ⟨rfl, segment, hplace⟩⟩
  all_goals cases h

/-- An edge that the layers do not allow is reported by the rule of the matrix, with the
imported file as the target. -/
theorem matrixViolation_eq {c : Contract} {source target : Node} {v : Violation}
    (h : v ∈ matrixViolation? c source target) :
    ∃ file message file', v = .error .layerMatrix file message (some file') := by
  obtain ⟨layers, -, heq⟩ := Option.map_eq_some_iff.1 h
  exact ⟨_, _, _, heq.symm⟩

/-- An edge between modules is reported by the rule of isolation, with the imported file as the
target. -/
theorem isolationViolation_eq {c : Contract} {source target : Node} {v : Violation}
    (h : v ∈ isolationViolation? c source target) :
    ∃ file message file', v = .error .moduleIsolation file message (some file') := by
  obtain ⟨modules, -, heq⟩ := Option.map_eq_some_iff.1 h
  exact ⟨_, _, _, heq.symm⟩

/-- An import is reported by one of the four rules about imports, always with a target: the
specifier or the imported file. -/
theorem importViolation_eq {c : Contract} {nodes : Array Node} {r : ImportRecord} {v : Violation}
    (h : v ∈ r.violations c nodes) :
    ∃ rule ∈ [Rule.nonRelativeImport, .missingTarget, .layerMatrix, .moduleIsolation],
      ∃ file message target, v = .error rule file message (some target) := by
  unfold ImportRecord.violations at h
  split at h
  · exact absurd h List.not_mem_nil
  · split at h
    · exact absurd h List.not_mem_nil
    · exact absurd h List.not_mem_nil
    · exact ⟨.nonRelativeImport, by simp, _, _, _, List.mem_singleton.1 h⟩
    · exact ⟨.missingTarget, by simp, _, _, _, List.mem_singleton.1 h⟩
    · split at h
      · exact absurd h List.not_mem_nil
      · rcases List.mem_append.1 h with h | h
        · obtain ⟨file, message, target, rfl⟩ := matrixViolation_eq (Option.mem_toList.1 h)
          exact ⟨.layerMatrix, by simp, file, message, target, rfl⟩
        · obtain ⟨file, message, target, rfl⟩ := isolationViolation_eq (Option.mem_toList.1 h)
          exact ⟨.moduleIsolation, by simp, file, message, target, rfl⟩

/-- A cycle is reported by its own rule, with a target. -/
theorem cycleViolation_eq (cycle : Cycle) :
    ∃ file message target, cycle.violation = .error .cycle file message (some target) :=
  ⟨_, _, _, rfl⟩

/-! ### Rules -/

/-- The rules about where a node lies. -/
def placeRules : List Rule := [.unknownLayer, .unknownTopLevel]

/-- The rules about imports. -/
def importRules : List Rule := [.nonRelativeImport, .missingTarget, .layerMatrix, .moduleIsolation]

/-- The rules of a graph. -/
def rules : List Rule := [.pathAliasConfig] ++ placeRules ++ importRules ++ [.cycle]

/-- The violations of the configurations are made by the rule about aliases. -/
theorem madeBy_configs (configs : List AliasConfig) :
    Violation.AllMadeBy [.pathAliasConfig] (configs.filterMap aliasConfigViolation?) := by
  refine .filterMap fun config _ v hv => ?_
  obtain ⟨file, message, rfl⟩ := aliasConfigViolation_eq hv
  exact Violation.madeBy_error List.mem_cons_self rfl _ _

/-- The violations of the nodes are made by the rules about their places. -/
theorem madeBy_nodes (nodes : List Node) :
    Violation.AllMadeBy placeRules (nodes.filterMap unknownLayerViolation?) := by
  have htarget : ∀ rule ∈ placeRules, true = rule.hasTarget := by decide
  refine .filterMap fun node _ v hv => ?_
  obtain ⟨rule, hrule, file, message, target, rfl⟩ := unknownLayerViolation_eq hv
  exact ⟨rule, hrule, rfl, htarget rule hrule⟩

/-- The violations of the imports are made by the rules about imports. -/
theorem madeBy_imports (c : Contract) (nodes : Array Node) (records : List ImportRecord) :
    Violation.AllMadeBy importRules (records.flatMap (ImportRecord.violations c nodes)) := by
  have htarget : ∀ rule ∈ importRules, true = rule.hasTarget := by decide
  refine .flatMap fun r _ v hv => ?_
  obtain ⟨rule, hrule, file, message, target, rfl⟩ := importViolation_eq hv
  exact ⟨rule, hrule, rfl, htarget rule hrule⟩

/-- The violations of the cycles are made by the rule about cycles. -/
theorem madeBy_cycles (cycles : List Cycle) :
    Violation.AllMadeBy [.cycle] (cycles.map Cycle.violation) := by
  refine .map fun cycle _ => ?_
  obtain ⟨file, message, target, heq⟩ := cycleViolation_eq cycle
  exact heq ▸ Violation.madeBy_error List.mem_cons_self rfl _ _

section

variable {c : Contract} {configs : List AliasConfig} {nodes : Array Node}
  {records : List ImportRecord}

/-- The cycles of the graph of some records. -/
abbrev cyclesOfRecords (c : Contract) (configs : List AliasConfig) (nodes : Array Node)
    (records : List ImportRecord) : List Cycle :=
  cyclesOf (ofRecords c configs nodes records).adjacency (ofRecords c configs nodes records).nameOf

/-- **The violations of the graph of some records**, part by part. -/
theorem assembled_ofRecords :
    Violation.Assembled
      [([.pathAliasConfig], configs.filterMap aliasConfigViolation?),
        (placeRules, nodes.toList.filterMap unknownLayerViolation?),
        (importRules, records.flatMap (ImportRecord.violations c nodes)),
        ([.cycle], (cyclesOfRecords c configs nodes records).map Cycle.violation)]
      (ofRecords c configs nodes records).violations where
  perm := by
    rw [List.flatMap_cons, List.flatMap_cons, List.flatMap_cons, List.flatMap_singleton,
      ← List.append_assoc, ← List.append_assoc]
    exact Violation.sort_perm _
  madeBy := by
    simp only [List.forall_mem_cons, List.not_mem_nil, false_imp_iff, implies_true, and_true]
    exact ⟨madeBy_configs _, madeBy_nodes _, madeBy_imports _ _ _, madeBy_cycles _⟩
  apart := show [[Rule.pathAliasConfig], placeRules, importRules, [Rule.cycle]].Pairwise _ by
    decide

end

end Graph

/-- Every violation of a graph is made by a rule of the graph, so no other producer reports the
same. -/
theorem ImportGraph.madeBy_of_build {files : Files} {root : Path} {c : Contract}
    {g : ImportGraph} (h : ImportGraph.build files root c = .ok g) :
    Violation.AllMadeBy Graph.rules g.violations := by
  obtain ⟨configs, nodes, records, rfl, -⟩ := build_eq h
  refine Graph.assembled_ofRecords.allMadeBy ?_
  simp only [List.forall_mem_cons, List.not_mem_nil, false_imp_iff, implies_true, and_true]
  decide

/-- Every violation of a graph has a target exactly when its rule has one. -/
theorem ImportGraph.regular_of_build {files : Files} {root : Path} {c : Contract}
    {g : ImportGraph} (h : ImportGraph.build files root c = .ok g) :
    Violation.AllRegular g.violations := (madeBy_of_build h).regular

/-- **The violations about where nodes lie** are those of the nodes. -/
theorem ImportGraph.place_violations_iff {files : Files} {root : Path} {c : Contract}
    {g : ImportGraph} (h : ImportGraph.build files root c = .ok g) {v : Violation} :
    (∃ rule ∈ Graph.placeRules, v ∈ Diagnosis.ofRule rule g.violations) ↔
      ∃ n ∈ g.nodes, Graph.unknownLayerViolation? n = some v := by
  obtain ⟨configs, nodes, records, rfl, -⟩ := build_eq h
  have hnodes : v ∈ nodes.toList.filterMap Graph.unknownLayerViolation? ↔
      ∃ n ∈ nodes, Graph.unknownLayerViolation? n = some v := by simp
  exact (Graph.assembled_ofRecords.mem_part_iff (.tail _ (.head _))).symm.trans hnodes

end Strata
