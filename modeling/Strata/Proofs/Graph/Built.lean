/-
# Graphs that were built

A graph that was built is the graph of some records whose importers are nodes
(`ImportGraph.build_eq`), whatever the project is.
-/

import Strata.Graph.Build
import Strata.Proofs.Graph.Imports
import Strata.Proofs.Outcome

namespace Strata

namespace Graph

variable {c : Contract} {configs : List AliasConfig} {nodes : Array Node}
  {records : List ImportRecord}

theorem edge?_eq_some_iff {r : ImportRecord} {e : Edge} :
    r.edge? = some e ↔ r = ⟨e.source, e.specifier, .edge e.target⟩ := by
  constructor
  · intro h
    unfold ImportRecord.edge? at h
    split at h
    · rename_i target houtcome
      obtain rfl := Option.some.inj h
      rw [← houtcome]
    · cases h
  · rintro rfl
    rfl

theorem wellFormed_ofRecords (h : ∀ r ∈ records, r.importer < nodes.size) :
    (ofRecords c configs nodes records).WellFormed := by
  intro e he
  obtain ⟨r, hr, he⟩ := List.mem_filterMap.1 he
  obtain rfl := edge?_eq_some_iff.1 he
  exact h _ hr

theorem importer_lt_of_mem_recordsOf {w : Surroundings} {sources : List SourceFile}
    {r : ImportRecord} (h : r ∈ recordsOf w sources) : r.importer < sources.length := by
  obtain ⟨s, hs, hr⟩ := List.mem_flatMap.1 h
  have himporter : r.importer = s.2 := by
    unfold Surroundings.importsOf at hr
    split at hr
    · exact absurd hr List.not_mem_nil
    · obtain ⟨-, -, rfl⟩ := List.mem_map.1 hr
      rfl
  rw [himporter]
  exact List.snd_lt_of_mem_zipIdx hs

/-- A project without a source root has the graph of no records. -/
theorem ofRecords_nil (c : Contract) : ofRecords c [] #[] [] = .empty := by
  have hcycles : cyclesOf ImportGraph.empty.adjacency ImportGraph.empty.nameOf = [] :=
    List.mergeSort_nil
  have hsort : Violation.sort [] = [] := List.mergeSort_nil
  unfold ofRecords
  simp only [List.filterMap_nil]
  rw [show (⟨#[], [], [], []⟩ : ImportGraph) = .empty from rfl, hcycles]
  simp [hsort, ImportGraph.empty]

end Graph

/-- A graph that is built is that of records whose importers are nodes. -/
theorem ImportGraph.build_eq {files : Files} {root : Path} {c : Contract} {g : ImportGraph}
    (h : ImportGraph.build files root c = .ok g) :
    ∃ configs nodes records, g = Graph.ofRecords c configs nodes records ∧
      ∀ r ∈ records, r.importer < nodes.size := by
  unfold ImportGraph.build at h
  split at h
  · obtain ⟨below, -, h⟩ := bind_eq_ok h
    obtain ⟨all, -, h⟩ := bind_eq_ok h
    obtain ⟨configs, -, h⟩ := bind_eq_ok h
    refine ⟨configs, _, _, (Except.ok.inj h).symm, fun r hr => ?_⟩
    rw [List.size_toArray, List.length_map]
    exact Graph.importer_lt_of_mem_recordsOf hr
  · refine ⟨[], #[], [], ?_, fun _ hr => absurd hr List.not_mem_nil⟩
    rw [Graph.ofRecords_nil]
    exact (Except.ok.inj h).symm

end Strata
