/-
# The reported cycles

Specification, section 4.3: every component with two members, and every edge to itself, is
a cycle; each is flagged once.

A graph reports each component that holds a cycle once among its cycles and once
among its violations, and names all members of the component in doing so
(`cycles_exact`). So it reports no cycle exactly when its imports are acyclic.

What a violation says is stated by the cycle alone (`Graph.Cycle.ToldBy`): it
stands at the first node of the path, its target is the path, and its message shows
the path and lists the members off the path.
-/

import Mathlib.Data.List.Perm.Basic
import Strata.Proofs.Graph.Built
import Strata.Proofs.Graph.ClosedWalk
import Strata.Proofs.Graph.Sources
import Strata.Proofs.Graph.Violations

namespace Strata

/-- A cycle names the members of a component by their relative paths, each on the
closed walk or, once, beside it. -/
structure ImportGraph.Names (g : ImportGraph) (c : List Nat) (cycle : Graph.Cycle) : Prop where
  member_iff : ∀ n, n ∈ cycle.path ∨ n ∈ cycle.others ↔ ∃ v ∈ c, g.nameOf v = n
  others : cycle.others.Perm ((c.map g.nameOf).filter fun n => !cycle.path.contains n)

/-- A violation tells a cycle: it is an error at the first node of the path, its
target is the path, and its message shows the path and, when some members are off
the path, these members. -/
structure Graph.Cycle.ToldBy (cycle : Graph.Cycle) (v : Violation) : Prop where
  ruleId : v.ruleId = "GRAPH.CYCLE"
  severity : v.severity = .error
  file : cycle.path.head? = some v.file
  target : v.target = some (" -> ".intercalate cycle.path)
  message : v.message = "Dependency cycle detected: " ++ " -> ".intercalate cycle.path ++
    if cycle.others = [] then ""
    else " (component also includes " ++ ", ".intercalate cycle.others ++ ")"

/-- The violations that report cycles. -/
def ImportGraph.cycleViolations (g : ImportGraph) : List Violation :=
  g.violations.filter fun v => v.ruleId == Rule.cycle.id

namespace Graph

variable {c : Contract} {configs : List AliasConfig} {nodes : Array Node}
  {records : List ImportRecord}

/-- The cycles of a graph with the members beside their paths. -/
def shownCycles (g : ImportGraph) : List Cycle := cyclesOf g.adjacency g.nameOf

/-- One cycle is shown for each component that holds one. -/
theorem shownCycles_perm (g : ImportGraph) :
    (shownCycles g).Perm
      (((components g.adjacency).filter (isCyclic g.adjacency)).map
        (cycleOf g.adjacency g.nameOf)) :=
  List.mergeSort_perm _ _

/-! ### The graph of some records -/

/-- The cycles of a graph are the paths of what it shows. -/
theorem cycles_ofRecords :
    (ofRecords c configs nodes records).cycles =
      (shownCycles (ofRecords c configs nodes records)).map Cycle.path := rfl

/-- Among the violations of a graph, those of its cycles are the ones that report
cycles. -/
theorem cycleViolations_ofRecords :
    (ofRecords c configs nodes records).cycleViolations.Perm
      ((shownCycles (ofRecords c configs nodes records)).map Cycle.violation) := by
  refine (assembled_ofRecords.ofRule_perm (.tail _ (.tail _ (.tail _ (.head _))))
    List.mem_cons_self).trans (.of_eq ?_)
  refine Diagnosis.ofRule_eq_self fun v hv => ?_
  obtain ⟨cycle, -, rfl⟩ := List.mem_map.1 hv
  rfl

/-! ### What a violation tells -/

/-- **The violation of a cycle tells it**, when the path has a first node. -/
theorem Cycle.toldBy_violation {cycle : Cycle} (h : cycle.path ≠ []) :
    cycle.ToldBy cycle.violation := by
  refine ⟨rfl, rfl, ?_, ?_, ?_⟩
  · obtain ⟨n, rest, hpath⟩ := List.exists_cons_of_ne_nil h
    simp [violation, Violation.error, hpath]
  · simp only [violation, Violation.error, Text.join_eq_intercalate]
  · simp only [violation, Violation.error, Text.join_eq_intercalate, List.isEmpty_iff]

/-- The path of each cycle that is shown has a first node. -/
theorem path_ne_nil_of_mem_shownCycles {g : ImportGraph} {cycle : Cycle}
    (h : cycle ∈ shownCycles g) : cycle.path ≠ [] := by
  obtain ⟨k, hk, rfl⟩ := List.mem_map.1 ((shownCycles_perm g).mem_iff.1 h)
  obtain ⟨v, -, rest, hpath⟩ := path_cycleOf_eq g.adjacency g.nameOf
    (isComponent_of_mem_components (List.mem_filter.1 hk).1).nonempty
  rw [hpath]
  exact List.cons_ne_nil _ _

end Graph

namespace ImportGraph

variable {g : ImportGraph}

/-- The test for a cycle tells the components that hold one. -/
theorem isCyclic_iff (h : g.WellFormed) {k : List Nat} (hk : g.IsStrongComponent k) :
    Graph.isCyclic g.adjacency k = true ↔ g.HoldsCycle k := by
  match k, hk with
  | [], hk => exact absurd rfl hk.nonempty
  | [v], _ =>
    have hself : Graph.isCyclic g.adjacency [v] = true ↔ g.Imports v v := by
      rw [← mem_successors_adjacency h]
      exact List.contains_iff_mem
    rw [hself, HoldsCycle]
    simp
  | v :: w :: rest, _ =>
    refine iff_of_true rfl (.inl ?_)
    simp

/-- The name of a node is the relative path that stands in its place. -/
theorem nameOf_eq (g : ImportGraph) (v : Nat) :
    g.nameOf v = ((g.nodes.toList.map Graph.Node.relativePath)[v]?).getD "" := by
  rw [List.getElem?_map, Array.getElem?_toList]
  rfl

/-- What a graph reports about its cycles, when it was made from some records. -/
structure ReportsCycles (g : ImportGraph) : Prop where
  wellFormed : g.WellFormed
  cycles : g.cycles = (Graph.shownCycles g).map Graph.Cycle.path
  violations : g.cycleViolations.Perm ((Graph.shownCycles g).map Graph.Cycle.violation)

/-- A graph that is built is made from some records. -/
theorem reportsCycles {files : Files} {root : Path} {c : Contract}
    (h : ImportGraph.build files root c = .ok g) : g.ReportsCycles := by
  obtain ⟨configs, nodes, records, rfl, himporter⟩ := build_eq h
  exact ⟨Graph.wellFormed_ofRecords himporter, Graph.cycles_ofRecords,
    Graph.cycleViolations_ofRecords⟩

/-- The components that are shown are those that hold a cycle. -/
theorem mem_filter_isCyclic_iff (h : g.WellFormed) {k : List Nat} :
    k ∈ (Graph.components g.adjacency).filter (Graph.isCyclic g.adjacency) ↔
      g.IsStrongComponent k ∧ g.HoldsCycle k := by
  rw [List.mem_filter, mem_components_iff h]
  exact and_congr_right fun hk => isCyclic_iff h hk

/-- A graph reports the walks of the components that hold a cycle. -/
theorem ReportsCycles.mem_cycles_iff (h : g.ReportsCycles) {path : List String} :
    path ∈ g.cycles ↔ ∃ k, (g.IsStrongComponent k ∧ g.HoldsCycle k) ∧
      (Graph.walkOf g.adjacency g.nameOf k).map g.nameOf = path := by
  rw [h.cycles, ((Graph.shownCycles_perm g).map _).mem_iff, List.map_map, List.mem_map]
  exact exists_congr fun k => and_congr_left' (mem_filter_isCyclic_iff h.wellFormed)

/-- The components that hold a cycle, in the order in which they are shown. -/
theorem exists_shown (h : g.WellFormed) :
    ∃ shown : List (List Nat), shown.Nodup ∧
      (∀ k, k ∈ shown ↔ g.IsStrongComponent k ∧ g.HoldsCycle k) ∧
      List.Forall₂ g.Names shown (Graph.shownCycles g) := by
  have hmap : List.Forall₂ (fun cycle k => cycle = Graph.cycleOf g.adjacency g.nameOf k)
      (((Graph.components g.adjacency).filter (Graph.isCyclic g.adjacency)).map
        (Graph.cycleOf g.adjacency g.nameOf))
      ((Graph.components g.adjacency).filter (Graph.isCyclic g.adjacency)) :=
    List.forall₂_map_left_iff.2 (List.forall₂_same.2 fun _ _ => rfl)
  obtain ⟨shown, hshown, hperm⟩ := List.perm_comp_forall₂ (Graph.shownCycles_perm g) hmap
  refine ⟨shown, ?_, fun k => ?_, ?_⟩
  · exact hperm.nodup_iff.2 ((nodup_components g).filter _)
  · rw [hperm.mem_iff, mem_filter_isCyclic_iff h]
  · refine hshown.flip.imp fun k cycle heq => ?_
    rw [heq]
    exact ⟨Graph.cycleOf_names g.adjacency g.nameOf k, List.mergeSort_perm _ _⟩

/-- No cycle is shown exactly when the imports are acyclic. -/
theorem shownCycles_eq_nil_iff (h : g.WellFormed) :
    Graph.shownCycles g = [] ↔ ∀ v, ¬ Relation.TransGen g.Imports v v := by
  obtain ⟨shown, -, hmem, hnames⟩ := exists_shown h
  rw [acyclic_iff h, ← List.length_eq_zero_iff, ← hnames.length_eq, List.length_eq_zero_iff,
    List.eq_nil_iff_forall_not_mem]
  exact forall_congr' fun k => by rw [hmem, not_and]

/-- **The reported cycles are exact.** When a graph can be built, it reports each component of
its imports that has two nodes or an edge to itself once as a cycle and once as a violation, and
names all its members in doing so. It reports none exactly when the imports are acyclic. Source:
specification, section 4.3, cycle detection. -/
theorem cycles_exact {files : Files} {root : Path} {c : Contract}
    (h : ImportGraph.build files root c = .ok g) :
    (∃ (shown : List (List Nat)) (cycles : List Graph.Cycle) (told : List Violation),
      shown.Nodup ∧ (∀ k, k ∈ shown ↔ g.IsStrongComponent k ∧ g.HoldsCycle k) ∧
      List.Forall₂ g.Names shown cycles ∧
      g.cycles = cycles.map Graph.Cycle.path ∧
      List.Forall₂ Graph.Cycle.ToldBy cycles told ∧ g.cycleViolations.Perm told) ∧
    (g.cycles = [] ↔ ∀ v, ¬ Relation.TransGen g.Imports v v) ∧
    (g.cycleViolations = [] ↔ ∀ v, ¬ Relation.TransGen g.Imports v v) := by
  have hreports := reportsCycles h
  obtain ⟨shown, hnodup, hmem, hnames⟩ := exists_shown hreports.wellFormed
  have htold : List.Forall₂ Graph.Cycle.ToldBy (Graph.shownCycles g)
      ((Graph.shownCycles g).map Graph.Cycle.violation) :=
    List.forall₂_map_right_iff.2 (List.forall₂_same.2 fun cycle hcycle =>
      Graph.Cycle.toldBy_violation (Graph.path_ne_nil_of_mem_shownCycles hcycle))
  have hacyclic := shownCycles_eq_nil_iff hreports.wellFormed
  refine ⟨⟨shown, Graph.shownCycles g, _, hnodup, hmem, hnames, hreports.cycles, htold,
    hreports.violations⟩, ?_, ?_⟩
  · -- no component holds a cycle exactly when the imports are acyclic
    rw [hreports.cycles, List.map_eq_nil_iff, hacyclic]
  · rw [← hacyclic, ← List.map_eq_nil_iff (f := Graph.Cycle.violation)]
    constructor
    · intro hnil
      exact (hnil ▸ hreports.violations).nil_eq.symm
    · intro hnil
      exact (hnil ▸ hreports.violations).eq_nil

/-! ### A component with a member off the path -/

/-- A project whose first file imports the two others and is imported by both. -/
def branchingFiles : Files where
  top :=
    .directory
      [("src", .directory
        [("a.ts", .file (some "import './b';\nimport './c';")),
         ("b.ts", .file (some "import './a';")), ("c.ts", .file (some "import './a';"))])]
  workingDirectory := ⟨"/"⟩

/-- The relative paths of the three files. -/
def branchingNames : List String := ["src/a.ts", "src/b.ts", "src/c.ts"]

theorem build_branchingFiles :
    ∃ g, ImportGraph.build branchingFiles ⟨"/"⟩ .standard = .ok g ∧
      g.nodes.toList.map Graph.Node.relativePath = branchingNames ∧
      g.edges = [⟨0, 1, "./b"⟩, ⟨0, 2, "./c"⟩, ⟨1, 0, "./a"⟩, ⟨2, 0, "./a"⟩] := by
  let below : List FoundFile :=
    [⟨⟨"/src/a.ts"⟩, some "import './b';\nimport './c';"⟩,
     ⟨⟨"/src/b.ts"⟩, some "import './a';"⟩, ⟨⟨"/src/c.ts"⟩, some "import './a';"⟩]
  let sources : List SourceFile :=
    below.map fun f => ⟨f.path, Path.relativeTo ⟨"/"⟩ f.path, f.text⟩
  have hsources : selectProduction ⟨"/"⟩ (sortByPath below) = sources :=
    selectProduction_eq (by decide +kernel) (by decide +kernel) (by decide +kernel)
  have hnames : sources.map SourceFile.relativePath = branchingNames := by decide +kernel
  -- two mentions in one text: their order is shown without running the sort
  have hboth : Import.specifiers "import './b';\nimport './c';" = ["./b", "./c"] := by
    have hmentions : Import.mentions (Import.stripComments "import './b';\nimport './c';".toList) =
        [⟨8, "./b"⟩, ⟨22, "./c"⟩] :=
      Import.mentions_eq_of_pairwise (by decide +kernel) (by decide +kernel)
    rw [Import.specifiers, hmentions]
    rfl
  have hone : Import.specifiers "import './a';" = ["./a"] := by decide +kernel
  have hrecords (w : Graph.Surroundings) : Graph.recordsOf w sources =
      [⟨0, "./b", w.outcome ⟨"/src/a.ts"⟩ "./b"⟩, ⟨0, "./c", w.outcome ⟨"/src/a.ts"⟩ "./c"⟩,
       ⟨1, "./a", w.outcome ⟨"/src/b.ts"⟩ "./a"⟩, ⟨2, "./a", w.outcome ⟨"/src/c.ts"⟩ "./a"⟩] := by
    simp [Graph.recordsOf, Graph.Surroundings.importsOf, sources, below, hboth, hone]
  have hedges : (Graph.recordsOf
      (Graph.surroundingsOf .standard ⟨"/"⟩ below below [] sources) sources).filterMap
        Graph.ImportRecord.edge? =
          [⟨0, 1, "./b"⟩, ⟨0, 2, "./c"⟩, ⟨1, 0, "./a"⟩, ⟨2, 0, "./a"⟩] := by
    rw [hrecords]
    decide +kernel
  refine ⟨Graph.assemble .standard ⟨"/"⟩ below below [], rfl, ?_, ?_⟩
  · rw [Graph.assemble, hsources]
    exact hnames
  · rw [Graph.assemble, hsources]
    exact hedges

/-- The walk of the three nodes turns back at the second. -/
theorem walkOf_branching {name : Nat → String} (hsecond : ¬ name 1 < name 0)
    (hthird : ¬ name 2 < name 0) (horder : (compare (name 1) (name 2)).isLE = true) :
    Graph.walkOf #[[1, 2], [0], [0]] name [0, 1, 2] = [0, 1, 0] := by
  have hinner : Graph.innerSuccessors #[[1, 2], [0], [0]] name [0, 1, 2] =
      fun v => (Graph.successors #[[1, 2], [0], [0]] v).filter [0, 1, 2].contains := by
    funext v
    match v with
    | 0 => exact List.mergeSort_of_pairwise (by simp [Graph.successors, horder])
    | 1 | 2 => exact Graph.innerSuccessors_eq_filter name _ (Nat.le_refl 1)
    | n + 3 => exact Graph.innerSuccessors_eq_filter name _ (Nat.zero_le 1)
  have hsmallest : Graph.smallestBy name 0 [1, 2] = 0 := by
    simp [Graph.smallestBy, hsecond, hthird]
  rw [Graph.walkOf, hinner, hsmallest]
  decide

/-- The three nodes are the only component. -/
theorem isStrongComponent_branching_iff {g : ImportGraph} (hsize : g.nodes.size = 3)
    (himports : ∀ v w, g.Imports v w ↔ v = 0 ∧ w = 1 ∨ v = 0 ∧ w = 2 ∨ v = 1 ∧ w = 0 ∨
      v = 2 ∧ w = 0) {k : List Nat} : g.IsStrongComponent k ↔ k = [0, 1, 2] := by
  have hto : ∀ v ∈ [0, 1, 2], Relation.ReflTransGen g.Imports v 0 := by
    simp only [List.forall_mem_cons, List.not_mem_nil, false_imp_iff, implies_true, and_true]
    exact ⟨.refl, .single ((himports 1 0).2 (by simp)), .single ((himports 2 0).2 (by simp))⟩
  have hfrom : ∀ v ∈ [0, 1, 2], Relation.ReflTransGen g.Imports 0 v := by
    simp only [List.forall_mem_cons, List.not_mem_nil, false_imp_iff, implies_true, and_true]
    exact ⟨.refl, .single ((himports 0 1).2 (by simp)), .single ((himports 0 2).2 (by simp))⟩
  have hall : g.IsStrongComponent [0, 1, 2] :=
    isStrongComponent_of_closed (by simp) (by simp) (by simp [hsize]) (by simp [himports])
      fun v hv w hw => (hto v hv).trans (hfrom w hw)
  refine ⟨fun hk => ?_, fun heq => heq ▸ hall⟩
  obtain ⟨v, hv⟩ := List.exists_mem_of_ne_nil k hk.nonempty
  have hlt : v < 3 := hsize ▸ hk.isNode v hv
  have hv' : v ∈ [0, 1, 2] := by
    simp only [List.mem_cons, List.not_mem_nil, or_false]
    omega
  exact hk.eq_of_mem hall hv hv'

/-- The only component and the only cycle. -/
theorem exists_cycle_branchingFiles :
    ∃ g, ImportGraph.build branchingFiles ⟨"/"⟩ .standard = .ok g ∧
      g.nodes.toList.map Graph.Node.relativePath = branchingNames ∧
      (∀ k, g.IsStrongComponent k ∧ g.HoldsCycle k ↔ k = [0, 1, 2]) ∧
      g.cycles = [["src/a.ts", "src/b.ts", "src/a.ts"]] := by
  obtain ⟨g, hbuild, hnames, hedges⟩ := build_branchingFiles
  have hname : ∀ v, g.nameOf v = (branchingNames[v]?).getD "" := fun v => hnames ▸ g.nameOf_eq v
  have hsize : g.nodes.size = 3 := by
    have hlength := congrArg List.length hnames
    simpa [branchingNames] using hlength
  have hadjacency : g.adjacency = #[[1, 2], [0], [0]] := by
    rw [ImportGraph.adjacency, hsize, hedges]
    decide
  have himports : ∀ v w, g.Imports v w ↔ v = 0 ∧ w = 1 ∨ v = 0 ∧ w = 2 ∨ v = 1 ∧ w = 0 ∨
      v = 2 ∧ w = 0 := by
    intro v w
    simp [ImportGraph.Imports, hedges, eq_comm]
  have hcomponent : ∀ k, g.IsStrongComponent k ∧ g.HoldsCycle k ↔ k = [0, 1, 2] := by
    intro k
    rw [isStrongComponent_branching_iff hsize himports]
    refine and_iff_left_of_imp ?_
    rintro rfl
    exact .inl (by simp)
  -- the walk from the first file goes to the second one and back, past the third
  have hwalk : Graph.walkOf #[[1, 2], [0], [0]] g.nameOf [0, 1, 2] = [0, 1, 0] :=
    walkOf_branching (by rw [hname, hname]; decide +kernel)
      (by rw [hname, hname]; decide +kernel) (by rw [hname, hname]; decide +kernel)
  have hreports := reportsCycles hbuild
  have hpath : ∀ path, path ∈ g.cycles ↔ path = ["src/a.ts", "src/b.ts", "src/a.ts"] := by
    intro path
    rw [hreports.mem_cycles_iff]
    simp only [hcomponent, exists_eq_left, hadjacency, hwalk, List.map_cons, List.map_nil, hname]
    exact eq_comm
  refine ⟨g, hbuild, hnames, hcomponent, ?_⟩
  obtain ⟨shown, hnodup, hmem, hnamed⟩ := exists_shown hreports.wellFormed
  -- one component holds a cycle, so there is one path
  have hone : g.cycles.length = 1 := by
    have hshown : shown.Perm [[0, 1, 2]] := (List.perm_ext_iff_of_nodup hnodup (by simp)).2
      fun k => by rw [hmem, hcomponent, List.mem_singleton]
    rw [hreports.cycles, List.length_map, ← hnamed.length_eq, hshown.length_eq]
    rfl
  obtain ⟨path, hcycles⟩ := List.length_eq_one_iff.1 hone
  rw [hcycles, (hpath path).1 (hcycles ▸ List.mem_cons_self)]

/-- The three files are one component, whose path misses the last of them. -/
theorem cycles_exact_branching :
    ∃ g, ImportGraph.build branchingFiles ⟨"/"⟩ .standard = .ok g ∧
      g.cycles = [["src/a.ts", "src/b.ts", "src/a.ts"]] ∧
      g.cycleViolations =
        [⟨"GRAPH.CYCLE", .error, "src/a.ts", some "src/a.ts -> src/b.ts -> src/a.ts",
          "Dependency cycle detected: src/a.ts -> src/b.ts -> src/a.ts " ++
            "(component also includes src/c.ts)"⟩] := by
  obtain ⟨g, hbuild, hnames, hcomponent, hpath⟩ := exists_cycle_branchingFiles
  obtain ⟨⟨shown, cycles, told, -, hmem, hnamed, hcycles, htold, hperm⟩, -, -⟩ :=
    cycles_exact hbuild
  obtain ⟨⟨path, others⟩, rfl, rfl⟩ := List.map_eq_singleton_iff.1 (hcycles.symm.trans hpath)
  obtain ⟨⟨ruleId, severity, file, target, message⟩, _, hviolation, hnil, rfl⟩ :=
    List.forall₂_cons_left_iff.1 htold
  obtain rfl := List.forall₂_nil_left_iff.1 hnil
  obtain ⟨k, _, hcycle, hnil, rfl⟩ := List.forall₂_cons_right_iff.1 hnamed
  obtain rfl := (hcomponent k).1 ((hmem k).1 List.mem_cons_self)
  have hmembers : [0, 1, 2].map g.nameOf = branchingNames := by
    simp only [List.map_cons, List.map_nil, nameOf_eq, hnames]
    rfl
  obtain rfl : others = ["src/c.ts"] := by
    have hothers := hcycle.others
    rw [hmembers] at hothers
    exact List.perm_singleton.1 hothers
  obtain ⟨rfl, rfl, hfile, rfl, rfl⟩ := hviolation
  obtain rfl := Option.some.inj hfile
  exact ⟨g, hbuild, hpath, List.perm_singleton.1 hperm⟩

end ImportGraph

end Strata
