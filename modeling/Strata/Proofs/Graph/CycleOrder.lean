/-
# The order of the reported cycles

Specification, section 4.3: cycles and violations are sorted.

The cycles of a graph are ordered by their paths, the violations that report them
by rule, file, target and message, and the file of such a violation is the first
node of the path. The components are disjoint, and each path begins in its
component. So when no two nodes have the same name, no two paths begin alike, and
the beginnings alone decide both orders (`ofRule_cycle_sort`).
-/

import Strata.Proofs.Graph.CycleReport
import Strata.Proofs.Graph.Sources

namespace Strata

/-- Lists of texts are compared lexicographically. -/
theorem Text.orderTexts_eq_compareLex : orderTexts = List.compareLex compare := by
  funext as bs
  induction as generalizing bs with
  | nil => cases bs <;> rfl
  | cons a as ih =>
    cases bs with
    | nil => rfl
    | cons b bs =>
      rw [List.compareLex_cons_cons, ← ih]
      rfl

instance : Std.TransCmp Text.orderTexts := by
  rw [Text.orderTexts_eq_compareLex]
  infer_instance

namespace Graph

open Violation

instance : Std.TransCmp Cycle.order :=
  have : Std.TransCmp fun a b : Cycle => Text.orderTexts a.path b.path := transCmp_on Cycle.path
  have : Std.TransCmp fun a b : Cycle => Text.orderTexts a.others b.others :=
    transCmp_on Cycle.others
  inferInstanceAs (Std.TransCmp (compareLex (fun a b : Cycle => Text.orderTexts a.path b.path)
    fun a b => Text.orderTexts a.others b.others))

/-! ### Cycles that begin apart -/

/-- Two cycles begin with different nodes. -/
def BeginApart (a b : Cycle) : Prop :=
  ∃ v w rest more, v ≠ w ∧ a.path = v :: rest ∧ b.path = w :: more

/-- Two cycles begin apart in either order. -/
theorem BeginApart.symm {a b : Cycle} (h : BeginApart a b) : BeginApart b a := by
  obtain ⟨v, w, rest, more, hne, ha, hb⟩ := h
  exact ⟨w, v, more, rest, hne.symm, hb, ha⟩

/-- Where cycles begin apart, their violations have the order of the cycles. -/
theorem BeginApart.isLE_order {a b : Cycle} (h : BeginApart a b) (hab : (a.order b).isLE) :
    (a.violation.order b.violation).isLE := by
  obtain ⟨v, w, rest, more, hne, ha, hb⟩ := h
  have hvw : compare v w = .lt := by
    cases hcmp : compare v w with
    | lt => rfl
    | eq => exact absurd (Std.LawfulEqOrd.eq_of_compare hcmp) hne
    | gt =>
      rw [Cycle.order, ha, hb, Text.orderTexts, hcmp] at hab
      cases hab
  have hfiles : a.violation.file = v ∧ b.violation.file = w := by
    simp [Cycle.violation, Violation.error, ha, hb]
  have hrules : compare a.violation.ruleId b.violation.ruleId = .eq := Std.ReflCmp.compare_self
  rw [Violation.order, hrules, hfiles.1, hfiles.2, hvw]
  rfl

end Graph

namespace ImportGraph

variable {g : ImportGraph}

/-- No two nodes have the same name. -/
def DistinctNames (g : ImportGraph) : Prop := (g.nodes.toList.map Graph.Node.relativePath).Nodup

/-- Where names are distinct, a name tells its node. -/
theorem DistinctNames.eq_of_nameOf (h : g.DistinctNames) {v w : Nat} (hv : v < g.nodes.size)
    (hw : w < g.nodes.size) (heq : g.nameOf v = g.nameOf w) : v = w := by
  have hname : ∀ {u : Nat}, u < g.nodes.size →
      (g.nodes.toList.map Graph.Node.relativePath)[u]? = some (g.nameOf u) := by
    intro u hu
    have hnode : g.nodes.toList[u]? = some g.nodes[u] := by
      rw [Array.getElem?_toList, Array.getElem?_eq_getElem hu]
    rw [List.getElem?_map, hnode, nameOf, Array.getElem?_eq_getElem hu]
    rfl
  have hlength : v < (g.nodes.toList.map Graph.Node.relativePath).length := by
    rwa [List.length_map, Array.length_toList]
  refine (List.getElem?_inj hlength h).1 ?_
  rw [hname hv, hname hw, heq]

/-- **The names of the nodes of a project are distinct**, when the names below its
source root are plain. -/
theorem distinctNames_of_build {files : Files} {root : Path} {c : Contract}
    (hwell : files.top.WellNamed)
    (hplain : ∀ tree, files.find (c.sourceDirectory root) = .ok tree → tree.Plain)
    (h : ImportGraph.build files root c = .ok g) : g.DistinctNames := by
  rcases build_cases h with ⟨-, rfl⟩ | ⟨entries, all, configs, hfind, -, -, rfl⟩
  · exact List.nodup_nil
  · have hsource : c.sourceDirectory root = root.join ⟨c.sourceRoot⟩ := rfl
    have hnodup := Graph.nodup_relativePath_sourcesBelow (Files.wellNamed_of_find hwell hfind)
      hsource (hplain _ hfind)
    have hnames : (Graph.assemble c root (filesOfEntries (c.sourceDirectory root) entries) all
        configs).nodes.toList.map Graph.Node.relativePath =
        (Graph.sourcesBelow root (c.sourceDirectory root) entries).map SourceFile.relativePath := by
      have hnodes : (Graph.assemble c root (filesOfEntries (c.sourceDirectory root) entries) all
          configs).nodes.toList =
          (Graph.sourcesBelow root (c.sourceDirectory root) entries).map
            (Graph.Node.ofSource c) := rfl
      rw [hnodes, List.map_map]
      rfl
    rwa [DistinctNames, hnames]

/-- Cycles of different components begin apart. -/
theorem DistinctNames.beginApart (h : g.DistinctNames) :
    (Graph.shownCycles g).Pairwise Graph.BeginApart := by
  have hsize : g.adjacency.size = g.nodes.size := Graph.size_adjacencyOf _ _
  have hdisjoint : (Graph.components g.adjacency).Pairwise List.Disjoint :=
    (List.nodup_flatten.1 (Graph.nodup_flatten_components g.adjacency)).2
  have hnode : ∀ k ∈ Graph.components g.adjacency, ∀ v ∈ k, v < g.nodes.size := by
    intro k hk v hv
    rw [← hsize, ← Graph.mem_flatten_components]
    exact List.mem_flatten.2 ⟨k, hk, hv⟩
  rw [(Graph.shownCycles_perm g).pairwise_iff fun hab => hab.symm, List.pairwise_map]
  refine (hdisjoint.imp_of_mem fun {k k'} hk hk' hapart => ?_).filter _
  obtain ⟨v, hv, rest, hpath⟩ := Graph.path_cycleOf_eq g.adjacency g.nameOf
    (Graph.isComponent_of_mem_components hk).nonempty
  obtain ⟨w, hw, more, hpath'⟩ := Graph.path_cycleOf_eq g.adjacency g.nameOf
    (Graph.isComponent_of_mem_components hk').nonempty
  refine ⟨g.nameOf v, g.nameOf w, rest, more, fun heq => ?_, hpath, hpath'⟩
  exact hapart hv (h.eq_of_nameOf (hnode k hk v hv) (hnode k' hk' w hw) heq ▸ hw)

/-- **Sorted violations have the cycles in the order in which they are shown.** -/
theorem DistinctNames.ofRule_cycle_sort (h : g.DistinctNames) {vs : List Violation}
    (hperm : (Diagnosis.ofRule .cycle vs).Perm
      ((Graph.shownCycles g).map Graph.Cycle.violation)) :
    Diagnosis.ofRule .cycle (Violation.sort vs) =
      (Graph.shownCycles g).map Graph.Cycle.violation := by
  have hsorted : (Diagnosis.ofRule .cycle (Violation.sort vs)).Pairwise
      fun v w => (v.order w).isLE = true :=
    (pairwise_mergeSort vs).filter _
  have hshown : ((Graph.shownCycles g).map Graph.Cycle.violation).Pairwise
      fun v w => (v.order w).isLE = true := by
    have hcycles : (Graph.shownCycles g).Pairwise fun a b => (a.order b).isLE = true :=
      pairwise_mergeSort _
    exact List.pairwise_map.2 (hcycles.imp₂ (fun a b hab hapart => hapart.isLE_order hab)
      h.beginApart)
  have hperm' := (Diagnosis.ofRule_perm .cycle (Violation.sort_perm vs)).trans hperm
  have hregular := (Graph.madeBy_cycles (Graph.shownCycles g)).regular
  refine hperm'.eq_of_pairwise (fun v w hv hw hvw hwv => ?_) hsorted hshown
  exact Violation.eq_of_order_eq (hregular v (hperm'.mem_iff.1 hv)) (hregular w hw)
    (Std.OrientedCmp.isLE_antisymm hvw hwv)

end ImportGraph

end Strata
