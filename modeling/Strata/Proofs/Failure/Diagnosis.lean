/-
# The diagnosis of a report

Specification, sections 4.4 and 4.5: a report, taken for a check result, is classified.

The check of a report passes when the report is ok, and the profile of a passed
check is zero. Otherwise the profile carries the evidence of the report
(`Report.diagnosed`).

Where no name holds an arrow, this includes every cycle. Names that hold one can make
the texts of two cycles equal, so that the diagnosis shows fewer cycles than the
report (`Report.diagnosis_merges_cycles`).
-/

import Strata.Proofs.Failure.Clusters
import Strata.Proofs.Failure.Profile

namespace Strata

open Text

namespace Diagnosis

/-- A profile carries the evidence of a report. -/
structure Carries (files : Files) (root : Path) (c : Contract) (g : ImportGraph) (r : Report)
    (p : Profile) : Prop where
  reason : p.reason = some .architecture
  -- a profile counts in 64 bits
  blocking : r.blockingCount < UInt64.size → p.blockingCount.toNat = r.blockingCount
  clusters : ∃ architecture boundary imports cycles gap,
    p.clusters = [architecture, boundary, imports, cycles, gap].flatMap Option.toList ∧
      ShowsArchitecture files root c g architecture ∧ ShowsBoundary c g r boundary ∧
      ShowsImports r imports ∧ ShowsCycles g r cycles ∧ ShowsGap files root c r gap
  collapse : ∃ layers, Lists layers (IsMissing files root c) ∧
    (p.architectureCollapse = true ↔ 2 ≤ damage g layers)

/-! ### The profile of one check -/

section Check

variable {r : Report} {c : Contract}

/-- A report that is ok has the profile without failures. -/
theorem ofChecks_toCheck_ok (hok : r.ok = true) : Profile.ofChecks c [r.toCheck] = .zero := by
  have hpassed : r.toCheck.failed = false := by
    unfold Report.toCheck
    rw [hok]
    rfl
  unfold Profile.ofChecks
  rw [List.any_cons, hpassed]
  rfl

/-- The check of a report that is not ok failed. -/
theorem failed_toCheck (hok : r.ok = false) : r.toCheck.failed = true := by
  unfold Report.toCheck
  rw [hok]
  rfl

/-- The check of a report that is not ok is the one that failed. -/
theorem failures_toCheck (hok : r.ok = false) :
    Failures.ofChecks [r.toCheck] = ⟨some r.toCheck, none, none, none, none⟩ := by
  have hfirst : ∀ id, Check.firstFailed? [r.toCheck] id =
      if Check.architecture == id then some r.toCheck else none := by
    intro id
    have hid : r.toCheck.id = Check.architecture := rfl
    rw [Check.firstFailed?, List.find?_singleton, failed_toCheck hok, hid, Bool.and_true]
  simp only [Failures.ofChecks, hfirst]
  rfl

/-- The profile of a report that is not ok is that of one failed check of the architecture. -/
theorem ofChecks_toCheck (hok : r.ok = false) :
    Profile.ofChecks c [r.toCheck] =
      (⟨some r.toCheck, none, none, none, none⟩ : Failures).profile c .architecture := by
  unfold Profile.ofChecks
  rw [List.any_cons, failed_toCheck hok, failures_toCheck hok]
  rfl

/-- A count that is neither zero nor too large is the weight of the check. -/
theorem toNat_weight {n : Nat} (hn : n ≠ 0) (hsize : n < UInt64.size) :
    (max (UInt64.ofNat n) 1 + UInt64.ofNat 0).toNat = n := by
  have hcount : (UInt64.ofNat n).toNat = n := UInt64.toNat_ofNat_of_lt' hsize
  have hzero : UInt64.ofNat 0 = 0 := rfl
  by_cases hle : UInt64.ofNat n ≤ 1
  · have hle' : n ≤ 1 := by
      have := UInt64.le_iff_toNat_le.1 hle
      rwa [hcount] at this
    obtain rfl : n = 1 := by omega
    decide
  · have hmax : max (UInt64.ofNat n) 1 = UInt64.ofNat n := if_neg hle
    rw [hmax, hzero, UInt64.add_zero, hcount]

end Check

/-! ### Equal texts -/

/-- **A diagnosis shows equal texts of cycles once.** -/
theorem nodup_of_mem_clusters {c : Contract} {checks : List Check} {texts : List String}
    (h : .dependencyCycle texts ∈ (Profile.ofChecks c checks).clusters) : texts.Nodup := by
  obtain ⟨n, heq⟩ | ⟨reason, heq⟩ := Profile.ofChecks_eq c checks
  · rw [heq] at h
    exact absurd h List.not_mem_nil
  · rw [heq] at h
    exact listed_of_mem_shown ((Failures.ofChecks checks).filed_places c) h

end Diagnosis

namespace Report

open Diagnosis

/-- **A diagnosis carries the evidence of the report.** The profile of a report that is ok is
zero. For a report that is not ok it blocks as often as the report, and each of its clusters is
there exactly when the tree or the graph has something to show, and shows all of it (`Carries`).
Only cycles with the same text are shown once, which takes a name with an arrow in it. Source:
specification, section 4.5, items 1 to 4, 6 and 8 to 10. -/
theorem diagnosed {files : Files} {root : Path} {c : Contract} {r : Report}
    (hwell : files.top.WellNamed)
    (hplain : ∀ tree, files.find (c.sourceDirectory root) = .ok tree → tree.Plain)
    (h : Report.validate files root c = .ok r) :
    (r.ok = true → Profile.ofChecks c [r.toCheck] = .zero) ∧
    (r.ok = false → ∃ g, ImportGraph.build files root c = .ok g ∧ r.cycles = g.cycles ∧
      Carries files root c g r (Profile.ofChecks c [r.toCheck])) := by
  obtain ⟨g, layout, tests, others, hp⟩ := exists_parts h
  refine ⟨ofChecks_toCheck_ok, fun hok => ⟨g, hp.build, hp.cycles, ?_⟩⟩
  rw [ofChecks_toCheck hok]
  constructor
  · rfl
  · intro hsize
    have hne : r.blockingCount ≠ 0 := by
      intro hzero
      rw [hp.ok, hzero] at hok
      cases hok
    exact toNat_weight hne hsize
  · exact ⟨_, _, _, _, _, rfl, showsArchitecture hp hwell, showsBoundary hp hwell, showsImports,
      showsCycles hp hwell hplain, showsGap hp⟩
  · refine ⟨_, lists_missingLayers hp hwell, ?_⟩
    rw [← length_signals hp hwell]
    exact decide_eq_true_iff

/-- A project without modules whose graph has a cycle has a report that is not ok. -/
theorem exists_validate_of_cycle {files : Files} {root : Path} {c : Contract} {g : ImportGraph}
    (hbuild : ImportGraph.build files root c = .ok g)
    (hmodules : moduleDirectories files root c = .ok [])
    (hcoupling : ∃ vs, Coupling.scan files root c = .ok vs)
    (hsecurity : ∃ vs, Security.scan files root c = .ok vs) {path : List String}
    (hpath : path ∈ g.cycles) :
    ∃ r, Report.validate files root c = .ok r ∧ r.ok = false ∧ r.cycles = g.cycles := by
  obtain ⟨found, hfound⟩ := exists_scan_of_no_modules hmodules hcoupling hsecurity
  have hvalidate := validateWith_eq hbuild hfound
  obtain ⟨g', layout, tests, others, hp⟩ := exists_parts hvalidate
  obtain rfl := Except.ok.inj (hbuild.symm.trans hp.build)
  exact ⟨_, hvalidate, hp.ok_eq_false_of_cycle hpath, hp.cycles⟩

theorem wellNamed_branchingFiles : ImportGraph.branchingFiles.top.WellNamed := by
  refine .singleton (by decide) (.directory (by decide) (by decide) ?_)
  simp only [List.forall_mem_cons, List.not_mem_nil, false_imp_iff, implies_true, and_true]
  exact ⟨.file _, .file _, .file _⟩

theorem plain_branchingFiles : ImportGraph.branchingFiles.top.Plain := by
  refine .singleton (by decide) (.directory (by decide) ?_)
  simp only [List.forall_mem_cons, List.not_mem_nil, false_imp_iff, implies_true, and_true]
  exact ⟨.file _, .file _, .file _⟩

/-- Three files in one component: the diagnosis shows the path through two of them. -/
theorem diagnosed_branching :
    ∃ r, Report.validate ImportGraph.branchingFiles ⟨"/"⟩ .standard = .ok r ∧ r.ok = false ∧
      r.cycles = [["src/a.ts", "src/b.ts", "src/a.ts"]] ∧
      Cluster.dependencyCycle ["src/a.ts -> src/b.ts -> src/a.ts"] ∈
        (Profile.ofChecks .standard [r.toCheck]).clusters := by
  obtain ⟨g, hbuild, hnames, -, hcycles⟩ := ImportGraph.exists_cycle_branchingFiles
  obtain ⟨r, hvalidate, hok, hsame⟩ := exists_validate_of_cycle hbuild
    (congrArg Except.ok List.mergeSort_nil) ⟨_, rfl⟩ ⟨_, rfl⟩ (hcycles ▸ List.mem_cons_self)
  have hplain : ∀ tree, ImportGraph.branchingFiles.find
      (Contract.standard.sourceDirectory ⟨"/"⟩) = .ok tree → tree.Plain := by
    rintro _ ⟨⟩
    exact plain_branchingFiles.inner List.mem_cons_self
  obtain ⟨g', hbuild', -, hcarries⟩ := (diagnosed wellNamed_branchingFiles hplain hvalidate).2 hok
  obtain rfl := Except.ok.inj (hbuild.symm.trans hbuild')
  have harrows : ∀ n ∈ g.nodes, ¬ " -> ".toList <:+: n.relativePath.toList := by
    have hplain : ∀ name ∈ ImportGraph.branchingNames, ¬ " -> ".toList <:+: name.toList := by
      decide +kernel
    exact fun n hn => hplain _ (hnames ▸ List.mem_map_of_mem (Array.mem_toList_iff.2 hn))
  obtain ⟨architecture, boundary, imports, cycles, gap, hclusters, -, -, -, hshows, -⟩ :=
    hcarries.clusters
  have hlisted := hsame.trans hcycles
  refine ⟨r, hvalidate, hok, hlisted, ?_⟩
  cases hshows with
  | nothing hnone => exact absurd (hlisted ▸ List.cons_ne_nil _ _) hnone
  | cluster _ hshown =>
    obtain ⟨texts, rfl, -, hall⟩ := hshown
    have htexts : texts = ["src/a.ts -> src/b.ts -> src/a.ts"] := by
      rw [hall harrows, hlisted]
      rfl
    rw [hclusters, List.mem_flatMap]
    exact ⟨_, by simp, Option.mem_toList.2 (congrArg (some ∘ Cluster.dependencyCycle) htexts)⟩

/-! ### Cycles with equal texts -/

/-- A project whose names hold arrows: the first file imports the last one and is
imported by it, the file between them imports itself. -/
def arrowFiles : Files where
  top :=
    .directory
      [("src", .directory
        [("a.ts", .file (some "import './a.ts -> src/a.ts -> src/a.ts -> src/a';")),
         ("a.ts -> src", .directory
           [("a.ts -> src", .directory
             [("a.ts", .file (some "import './a';")),
              ("a.ts -> src", .directory [("a.ts", .file (some "import '../../../a';"))])])])])]
  workingDirectory := ⟨"/"⟩

/-- The relative paths of the files. -/
def arrowNames : List String :=
  ["src/a.ts", "src/a.ts -> src/a.ts -> src/a.ts", "src/a.ts -> src/a.ts -> src/a.ts -> src/a.ts"]

theorem wellNamed_arrowFiles : arrowFiles.top.WellNamed := by
  refine .singleton (by decide) (.directory (by decide) (by decide) ?_)
  simp only [List.forall_mem_cons, List.not_mem_nil, false_imp_iff, implies_true, and_true]
  refine ⟨.file _, .singleton (by decide) (.directory (by decide) (by decide) ?_)⟩
  simp only [List.forall_mem_cons, List.not_mem_nil, false_imp_iff, implies_true, and_true]
  exact ⟨.file _, .singleton (by decide) (.file _)⟩

theorem plain_arrowFiles : arrowFiles.top.Plain := by
  refine .singleton (by decide) (.directory (by decide) ?_)
  simp only [List.forall_mem_cons, List.not_mem_nil, false_imp_iff, implies_true, and_true]
  refine ⟨.file _, .singleton (by decide) (.directory (by decide) ?_)⟩
  simp only [List.forall_mem_cons, List.not_mem_nil, false_imp_iff, implies_true, and_true]
  exact ⟨.file _, .singleton (by decide) (.file _)⟩

theorem build_arrowFiles :
    ∃ g, ImportGraph.build arrowFiles ⟨"/"⟩ .standard = .ok g ∧
      g.nodes.toList.map Graph.Node.relativePath = arrowNames ∧
      g.edges = [⟨0, 2, "./a.ts -> src/a.ts -> src/a.ts -> src/a"⟩, ⟨1, 1, "./a"⟩,
        ⟨2, 0, "../../../a"⟩] := by
  let below : List FoundFile :=
    [⟨⟨"/src/a.ts"⟩, some "import './a.ts -> src/a.ts -> src/a.ts -> src/a';"⟩,
     ⟨⟨"/src/a.ts -> src/a.ts -> src/a.ts"⟩, some "import './a';"⟩,
     ⟨⟨"/src/a.ts -> src/a.ts -> src/a.ts -> src/a.ts"⟩, some "import '../../../a';"⟩]
  let sources : List SourceFile :=
    below.map fun f => ⟨f.path, Path.relativeTo ⟨"/"⟩ f.path, f.text⟩
  have hsources : selectProduction ⟨"/"⟩ (sortByPath below) = sources :=
    selectProduction_eq (by decide +kernel) (by decide +kernel) (by decide +kernel)
  have hnames : sources.map SourceFile.relativePath = arrowNames := by decide +kernel
  have hedges : (Graph.recordsOf
      (Graph.surroundingsOf .standard ⟨"/"⟩ below below [] sources) sources).filterMap
        Graph.ImportRecord.edge? =
          [⟨0, 2, "./a.ts -> src/a.ts -> src/a.ts -> src/a"⟩, ⟨1, 1, "./a"⟩,
            ⟨2, 0, "../../../a"⟩] := by decide +kernel
  refine ⟨Graph.assemble .standard ⟨"/"⟩ below below [], rfl, ?_, ?_⟩
  · rw [Graph.assemble, hsources]
    exact hnames
  · rw [Graph.assemble, hsources]
    exact hedges

/-- The walks of the two components, when the first node has the smaller name. -/
theorem walkOf_arrow {name : Nat → String} (h : ¬ name 2 < name 0) :
    Graph.walkOf #[[2], [1], [0]] name [0, 2] = [0, 2, 0] ∧
      Graph.walkOf #[[2], [1], [0]] name [1] = [1, 1] := by
  have hinner : ∀ k, Graph.innerSuccessors #[[2], [1], [0]] name k =
      fun v => (Graph.successors #[[2], [1], [0]] v).filter k.contains := by
    intro k
    funext v
    refine Graph.innerSuccessors_eq_filter name k ?_
    match v with
    | 0 | 1 | 2 => exact Nat.le_refl 1
    | n + 3 => exact Nat.zero_le 1
  have hsmallest : Graph.smallestBy name 0 [2] = 0 := by simp [Graph.smallestBy, h]
  constructor
  · rw [Graph.walkOf, hinner, hsmallest]
    decide
  · rw [Graph.walkOf, hinner, Graph.smallestBy]
    decide

/-- The two components: the first file with the last, and the file between them. -/
theorem isStrongComponent_arrow {g : ImportGraph} (hsize : g.nodes.size = 3)
    (himports : ∀ v w, g.Imports v w ↔ v = 0 ∧ w = 2 ∨ v = 1 ∧ w = 1 ∨ v = 2 ∧ w = 0) :
    g.IsStrongComponent [0, 2] ∧ g.IsStrongComponent [1] := by
  constructor
  · have hforth : g.Imports 0 2 := (himports 0 2).2 (by simp)
    have hback : g.Imports 2 0 := (himports 2 0).2 (by simp)
    refine ImportGraph.isStrongComponent_of_closed (by simp) (by simp) (by simp [hsize])
      (by simp [himports]) ?_
    simp only [List.mem_cons, List.not_mem_nil, or_false]
    rintro v (rfl | rfl) w (rfl | rfl)
    · exact .refl
    · exact .single hforth
    · exact .single hback
    · exact .refl
  · refine ImportGraph.isStrongComponent_of_closed (by simp) (by simp) (by simp [hsize])
      (by simp [himports]) ?_
    simp only [List.mem_singleton]
    rintro v rfl w rfl
    exact .refl

/-- The graph has two cycles that are written alike. -/
theorem exists_cycles_arrowFiles :
    ∃ g, ImportGraph.build arrowFiles ⟨"/"⟩ .standard = .ok g ∧
      ∃ p ∈ g.cycles, ∃ q ∈ g.cycles, p ≠ q ∧ join " -> " p = join " -> " q := by
  obtain ⟨g, hbuild, hnames, hedges⟩ := build_arrowFiles
  have hreports := ImportGraph.reportsCycles hbuild
  have hsize : g.nodes.size = 3 := by
    have hlength := congrArg List.length hnames
    simpa [arrowNames] using hlength
  have hname : ∀ v, g.nameOf v = (arrowNames[v]?).getD "" := fun v => hnames ▸ g.nameOf_eq v
  have hadjacency : g.adjacency = #[[2], [1], [0]] := by
    rw [ImportGraph.adjacency, hsize, hedges]
    decide
  have himports : ∀ v w, g.Imports v w ↔ v = 0 ∧ w = 2 ∨ v = 1 ∧ w = 1 ∨ v = 2 ∧ w = 0 := by
    intro v w
    simp [ImportGraph.Imports, hedges, eq_comm]
  obtain ⟨hpair, hself⟩ := isStrongComponent_arrow hsize himports
  have hsmaller : ¬ g.nameOf 2 < g.nameOf 0 := by
    rw [hname, hname]
    decide +kernel
  obtain ⟨hpairWalk, hselfWalk⟩ := walkOf_arrow hsmaller
  refine ⟨g, hbuild, [0, 2, 0].map g.nameOf, ?_, [1, 1].map g.nameOf, ?_, ?_⟩
  · refine hreports.mem_cycles_iff.2 ⟨[0, 2], ⟨hpair, .inl (by simp)⟩, ?_⟩
    rw [hadjacency, hpairWalk]
  · refine hreports.mem_cycles_iff.2 ⟨[1], ⟨hself, .inr ⟨1, by simp [himports]⟩⟩, ?_⟩
    rw [hadjacency, hselfWalk]
  · simp only [List.map_cons, List.map_nil, hname]
    decide +kernel

/-- The report on the project: it is not ok, and two of its cycles are written alike. -/
theorem exists_validate_arrowFiles :
    ∃ r, Report.validate arrowFiles ⟨"/"⟩ .standard = .ok r ∧ r.ok = false ∧
      ∃ p ∈ r.cycles, ∃ q ∈ r.cycles, p ≠ q ∧ join " -> " p = join " -> " q := by
  obtain ⟨g, hbuild, p, hp, hmore⟩ := exists_cycles_arrowFiles
  obtain ⟨r, hvalidate, hok, hsame⟩ := exists_validate_of_cycle hbuild
    (congrArg Except.ok List.mergeSort_nil) ⟨_, rfl⟩ ⟨_, rfl⟩ hp
  exact ⟨r, hvalidate, hok, p, hsame ▸ hp, hsame ▸ hmore⟩

/-- **A diagnosis may show fewer cycles than the report**: it lists texts, and two
cycles may have the same. -/
theorem diagnosis_merges_cycles :
    arrowFiles.top.WellNamed ∧ arrowFiles.top.Plain ∧
      ∃ r, Report.validate arrowFiles ⟨"/"⟩ .standard = .ok r ∧ r.ok = false ∧ r.cycles ≠ [] ∧
      Cluster.dependencyCycle (r.cycles.map (join " -> ")) ∉
        (Profile.ofChecks .standard [r.toCheck]).clusters := by
  obtain ⟨r, hvalidate, hok, p, hp, q, hq, hne, htext⟩ := exists_validate_arrowFiles
  refine ⟨wellNamed_arrowFiles, plain_arrowFiles, r, hvalidate, hok, List.ne_nil_of_mem hp,
    fun hshown => hne ?_⟩
  exact List.inj_on_of_nodup_map (nodup_of_mem_clusters hshown) hp hq htext

end Report

end Strata
