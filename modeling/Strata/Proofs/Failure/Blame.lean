/-
# What a report blames

Specification, sections 4.3 and 4.4: the files that violations are about.

A violation names a file. Of the violations that block, those about compiler aliases name a
compiler configuration at the project root; the one about a missing source root names the
source root, and then that is no directory; all others name a path below the source root
(`Report.blames`).

| found by | the file of a violation |
| --- | --- |
| the graph | a compiler configuration, or a node (`ImportGraph.file_of_mem_violations`) |
| the scan of the layout | the source root, or a module (`Structure.file_of_mem_scan`) |
| the scan of couplings | production code (`Coupling.file_of_mem_scan`) |
| the scan for security | a file below the source root (`Security.file_of_mem_scan`) |
| the scan of the tests | a module (`Tests.file_of_mem_scan`) |

Warnings are left aside: they may name a test or the environment file.
-/

import Strata.Proofs.Failure.Evidence

namespace Strata

open Text

variable {files : Files} {root : Path} {c : Contract} {vs : List Violation} {v : Violation}

/-! ### Paths below the source root -/

/-- A path that is written as one below the source root. -/
def Contract.Covers (c : Contract) (file : String) : Prop :=
  c.sourceRoot.toList ++ ['/'] <+: file.toList

theorem Contract.covers_modulePath (c : Contract) (module : String) :
    c.Covers (c.modulePath module) := by
  refine ⟨c.moduleContainer.toList ++ '/' :: module.toList, ?_⟩
  simp [modulePath, toString]

/-- What a walk from the source root finds lies below it. -/
theorem covers_of_mem_walk (hwell : files.top.WellNamed) (hroot : IsName c.sourceRoot)
    (hslash : '\\' ∉ c.sourceRoot.toList) {found : List FoundFile}
    (hwalk : files.walk (c.sourceDirectory root) = .ok found) {f : FoundFile} (hf : f ∈ found) :
    c.Covers (root.relativeTo f.path) := by
  rcases (Files.walk_cases hwalk).2 with rfl | ⟨entries, hfind, rfl⟩
  · exact absurd hf List.not_mem_nil
  · have hentries := Files.wellNamed_of_find hwell hfind
    obtain ⟨rest, hfound, hpath⟩ := (hentries.mem_walk _ f).1 hf
    have hnames : AreNames (c.sourceRoot :: rest) :=
      List.forall_mem_cons.2 ⟨hroot, hfound.areNames hentries⟩
    have hbelow : f.path = root.descend (c.sourceRoot :: rest) := hpath
    have hrest : partsOfNames rest ≠ [] := by simpa [partsOfNames] using hfound.ne_nil
    have hjoin : joinChars ['/'] (partsOfNames (c.sourceRoot :: rest)) =
        c.sourceRoot.toList ++ '/' :: joinChars ['/'] (partsOfNames rest) := by
      have hcons : partsOfNames (c.sourceRoot :: rest) =
          c.sourceRoot.toList :: partsOfNames rest := rfl
      rw [hcons, joinChars_cons _ hrest, List.append_assoc]
      rfl
    refine ⟨forwardSlashes (joinChars ['/'] (partsOfNames rest)), ?_⟩
    rw [hbelow, Path.toList_relativeTo_descend root hnames (List.cons_ne_nil _ _), hjoin,
      forwardSlashes_append, forwardSlashes_eq_self hslash, List.append_assoc]
    rfl

/-! ### The graph -/

namespace Graph

/-- The configurations of a project are the files that are read. -/
theorem file_of_mem_readAll {configs : List AliasConfig}
    (h : AliasConfig.readAll files root = .ok configs) {config : AliasConfig}
    (hconfig : config ∈ configs) : config.file ∈ aliasConfigFiles := by
  obtain ⟨found, hfound, h⟩ := bind_eq_ok h
  obtain rfl := Except.ok.inj h
  obtain ⟨_, hsome, rfl⟩ := List.mem_filterMap.1 hconfig
  obtain ⟨file, hfile, hread⟩ := exists_of_mem_mapM hfound hsome
  unfold AliasConfig.read at hread
  split at hread
  · obtain ⟨json, -, rfl⟩ := Option.map_eq_some_iff.1 (Except.ok.inj hread)
    exact hfile
  · cases hread
  · cases hread

theorem file_of_aliasConfigViolation {config : AliasConfig}
    (h : v ∈ aliasConfigViolation? config) : v.file = config.file := by
  unfold aliasConfigViolation? at h
  split at h
  · rw [← Option.some.inj h]
    rfl
  · cases h

/-- An import is blamed on the node that has it. -/
theorem file_of_importViolation {nodes : Array Node} {r : ImportRecord}
    (h : v ∈ r.violations c nodes) : ∃ n ∈ nodes, v.file = n.relativePath := by
  unfold ImportRecord.violations at h
  split at h
  · exact absurd h List.not_mem_nil
  · rename_i node hnode
    refine ⟨node, Array.mem_of_getElem? hnode, ?_⟩
    split at h
    · exact absurd h List.not_mem_nil
    · exact absurd h List.not_mem_nil
    · rw [List.mem_singleton.1 h]
      rfl
    · rw [List.mem_singleton.1 h]
      rfl
    · split at h
      · exact absurd h List.not_mem_nil
      · rcases List.mem_append.1 h with h | h
        · obtain ⟨layers, -, rfl⟩ := Option.map_eq_some_iff.1 (Option.mem_toList.1 h)
          rfl
        · obtain ⟨modules, -, rfl⟩ := Option.map_eq_some_iff.1 (Option.mem_toList.1 h)
          rfl

/-- A cycle is blamed on a node of it. -/
theorem file_of_cycleViolation {g : ImportGraph} (h : g.WellFormed) {cycle : Cycle}
    (hcycle : cycle ∈ shownCycles g) : ∃ n ∈ g.nodes, cycle.violation.file = n.relativePath := by
  obtain ⟨k, hk, rfl⟩ := List.mem_map.1 ((shownCycles_perm g).mem_iff.1 hcycle)
  have hcomponent := ((ImportGraph.mem_filter_isCyclic_iff h).1 hk).1
  obtain ⟨i, hi, rest, hpath⟩ := path_cycleOf_eq g.adjacency g.nameOf hcomponent.nonempty
  have hlt := hcomponent.isNode i hi
  refine ⟨g.nodes[i], Array.getElem_mem hlt, ?_⟩
  have hname : g.nameOf i = g.nodes[i].relativePath := by
    rw [ImportGraph.nameOf, Array.getElem?_eq_getElem hlt]
    rfl
  rw [← hname]
  simp [Cycle.violation, Violation.error, hpath]

end Graph

/-- **A graph blames its nodes**, and for aliases the configuration that declares them. -/
theorem ImportGraph.file_of_mem_violations {g : ImportGraph}
    (h : ImportGraph.build files root c = .ok g) (hv : v ∈ g.violations) :
    (v.ruleId = Rule.pathAliasConfig.id ∧ v.file ∈ Graph.aliasConfigFiles) ∨
      v.ruleId ≠ Rule.pathAliasConfig.id ∧ ∃ n ∈ g.nodes, v.file = n.relativePath := by
  have hwell := (reportsCycles h).wellFormed
  rcases build_cases h with ⟨-, rfl⟩ | ⟨entries, all, configs, -, -, hconfigs, rfl⟩
  · exact absurd hv List.not_mem_nil
  · have hparts := Graph.assembled_ofRecords.perm.mem_iff.1 hv
    simp only [List.flatMap_cons, List.flatMap_nil, List.append_nil, List.mem_append] at hparts
    rcases hparts with hv | hv | hv | hv
    · obtain ⟨config, hconfig, hv⟩ := List.mem_filterMap.1 hv
      obtain ⟨file, message, heq⟩ := Graph.aliasConfigViolation_eq hv
      refine .inl ⟨heq ▸ rfl, ?_⟩
      rw [Graph.file_of_aliasConfigViolation hv]
      exact Graph.file_of_mem_readAll hconfigs hconfig
    · refine .inr ⟨(Graph.madeBy_nodes _).ruleId_ne (by decide) hv, ?_⟩
      obtain ⟨n, hn, hv⟩ := List.mem_filterMap.1 hv
      exact ⟨n, Array.mem_toList_iff.1 hn, (Graph.unknownLayerViolation_place hv).1⟩
    · refine .inr ⟨(Graph.madeBy_imports _ _ _).ruleId_ne (by decide) hv, ?_⟩
      obtain ⟨r, -, hv⟩ := List.mem_flatMap.1 hv
      exact Graph.file_of_importViolation hv
    · refine .inr ⟨(Graph.madeBy_cycles _).ruleId_ne (by decide) hv, ?_⟩
      obtain ⟨cycle, hcycle, rfl⟩ := List.mem_map.1 hv
      exact Graph.file_of_cycleViolation hwell hcycle

/-- The nodes of a graph lie below the source root. -/
theorem ImportGraph.covers_of_mem_nodes {g : ImportGraph} (hwell : files.top.WellNamed)
    (hroot : IsName c.sourceRoot) (hslash : '\\' ∉ c.sourceRoot.toList)
    (h : ImportGraph.build files root c = .ok g) {n : Graph.Node} (hn : n ∈ g.nodes) :
    c.Covers n.relativePath := by
  rcases build_cases h with ⟨-, rfl⟩ | ⟨entries, all, configs, hfind, -, -, rfl⟩
  · exact absurd hn (Array.not_mem_empty n)
  · obtain ⟨s, hs, rfl⟩ := List.mem_map.1 (List.mem_toArray.1 hn)
    obtain ⟨f, hf, -, rfl⟩ := mem_selectProduction.1 hs
    exact covers_of_mem_walk hwell hroot hslash (Files.walk_eq hfind) (List.mem_mergeSort.1 hf)

/-! ### The validators -/

/-- **A scan of the layout blames modules**, or the source root when it is no directory. -/
theorem Structure.file_of_mem_scan (h : Structure.scan files root c = .ok vs) (hv : v ∈ vs) :
    (v = sourceRootMissing c ∧ files.isDirectory (c.sourceDirectory root) = false) ∨
      ∃ module, v.file = c.modulePath module := by
  refine (scan_cases h hv).imp_right ?_
  rintro ⟨module, ⟨layer, rfl⟩ | rfl⟩ <;> exact ⟨module, rfl⟩

/-- The couplings of a source are blamed on its file. -/
theorem Coupling.file_of_mem_scanSource {s : SourceFile} (h : v ∈ scanSource c s) :
    v.file = s.relativePath := by
  rcases scanSource_cases h with ⟨_, _, rfl⟩ | ⟨_, _, rfl⟩ | ⟨_, rfl⟩ <;> rfl

/-- **A scan of couplings blames production code.** -/
theorem Coupling.file_of_mem_scan (h : Coupling.scan files root c = .ok vs) (hv : v ∈ vs) :
    ∃ found, files.walk (c.sourceDirectory root) = .ok found ∧
      ∃ f ∈ found, v.file = root.relativeTo f.path := by
  obtain ⟨sources, hsources, h⟩ := bind_eq_ok h
  obtain ⟨found, hwalk, hsources⟩ := bind_eq_ok hsources
  obtain rfl := Except.ok.inj h
  obtain rfl := Except.ok.inj hsources
  obtain ⟨s, hs, hv⟩ := List.mem_flatMap.1 hv
  obtain ⟨f, hf, -, rfl⟩ := mem_selectProduction.1 hs
  exact ⟨found, hwalk, f, hf, file_of_mem_scanSource hv⟩

/-- What endangers a source is blamed on its file. -/
theorem Security.file_of_mem_scanSource {file source : String} (h : v ∈ scanSource file source) :
    v.file = file := by
  rcases scanSource_cases h with ⟨_, _, rfl⟩ | ⟨_, rfl⟩ <;> rfl

/-- **A scan for security blames files below the source root**, but for a warning. -/
theorem Security.file_of_mem_scan (h : Security.scan files root c = .ok vs) (hv : v ∈ vs)
    (hblocks : v.isBlocking = true) :
    ∃ found, files.walk (c.sourceDirectory root) = .ok found ∧
      ∃ f ∈ found, v.file = root.relativeTo f.path := by
  obtain ⟨found, hwalk, h⟩ := bind_eq_ok h
  obtain ⟨env, henv, h⟩ := bind_eq_ok h
  obtain rfl := Except.ok.inj h
  rcases List.mem_append.1 hv with hv | hv
  · obtain ⟨f, hf, hv⟩ := List.mem_flatMap.1 hv
    have hfile := List.mem_mergeSort.1 hf
    refine ⟨found, hwalk, f, (List.mem_filter.1 hfile).1, ?_⟩
    split at hv
    · exact file_of_mem_scanSource hv
    · exact absurd hv List.not_mem_nil
  · obtain ⟨_, _, rfl⟩ := scanEnv_eq henv hv
    cases hblocks

/-- **A scan of the tests blames modules**, but for warnings. -/
theorem Tests.file_of_mem_scan (h : Tests.scan files root c = .ok vs) (hv : v ∈ vs)
    (hblocks : v.isBlocking = true) : ∃ module, v.file = c.modulePath module := by
  obtain ⟨module, rfl | ⟨file, rfl⟩⟩ := scan_cases h hv
  · exact ⟨module, rfl⟩
  · cases hblocks

/-! ### The report -/

/-- What a violation blames: a compiler configuration, a source root that is no directory, or
a path below the source root. -/
inductive Violation.Blames (files : Files) (root : Path) (c : Contract) (v : Violation) : Prop where
  | config (rule : v.ruleId = Rule.pathAliasConfig.id) (file : v.file ∈ Graph.aliasConfigFiles)
  | sourceRoot (rule : v.ruleId ≠ Rule.pathAliasConfig.id) (file : v.file = c.sourceRoot)
      (missing : files.isDirectory (c.sourceDirectory root) = false)
  | source (rule : v.ruleId ≠ Rule.pathAliasConfig.id) (file : c.Covers v.file)

namespace Report

variable {r : Report}

theorem mem_violations_assemble {g : ImportGraph} {found : List (List Violation)} :
    v ∈ (assemble c g (Violation.sort found.flatten)).violations ↔
      v ∈ g.violations ∨ ∃ vs ∈ found, v ∈ vs := by
  rw [(violations_assemble_perm c g found.flatten).mem_iff, List.mem_append, List.mem_flatten]

/-- **What a report blames.** A violation that blocks is about a path below the source root,
unless it is about a source root that is no directory, or about the aliases of a compiler
configuration. -/
theorem blames (hwell : files.top.WellNamed) (hroot : IsName c.sourceRoot)
    (hslash : '\\' ∉ c.sourceRoot.toList) (h : Report.validate files root c = .ok r)
    (hv : v ∈ r.violations) (hblocks : v.isBlocking = true) : v.Blames files root c := by
  obtain ⟨g, layout, couplings, security, tests, hgraph, hlayout, hcouplings, hsecurity, htests,
    rfl⟩ := exists_scans h
  have hbelow : ∀ found f, files.walk (c.sourceDirectory root) = .ok found → f ∈ found →
      v.file = root.relativeTo f.path → c.Covers v.file := fun found f hwalk hf hfile =>
    hfile ▸ covers_of_mem_walk hwell hroot hslash hwalk hf
  have hmodule : ∀ module, v.file = c.modulePath module → c.Covers v.file := fun module hfile =>
    hfile ▸ c.covers_modulePath module
  rw [mem_violations_assemble] at hv
  simp only [List.exists_mem_cons_iff, List.not_mem_nil, false_and, exists_false, or_false] at hv
  -- the graph first, then the four scans in the order of their registration
  rcases hv with hv | hv | hv | hv | hv
  · rcases ImportGraph.file_of_mem_violations hgraph hv with ⟨hrule, hfile⟩ | ⟨hrule, n, hn, hfile⟩
    · exact .config hrule hfile
    · exact .source hrule
        (hfile ▸ ImportGraph.covers_of_mem_nodes hwell hroot hslash hgraph hn)
  · have hrule : v.ruleId ≠ Rule.pathAliasConfig.id :=
      (Structure.madeBy_scan hlayout).ruleId_ne (by decide) hv
    rcases Structure.file_of_mem_scan hlayout hv with ⟨rfl, hmissing⟩ | ⟨module, hfile⟩
    · exact .sourceRoot hrule rfl hmissing
    · exact .source hrule (hmodule module hfile)
  · obtain ⟨found, hwalk, f, hf, hfile⟩ := Coupling.file_of_mem_scan hcouplings hv
    exact .source ((Coupling.madeBy_scan hcouplings).ruleId_ne (by decide) hv)
      (hbelow found f hwalk hf hfile)
  · obtain ⟨found, hwalk, f, hf, hfile⟩ := Security.file_of_mem_scan hsecurity hv hblocks
    exact .source ((Security.madeBy_scan hsecurity).ruleId_ne (by decide) hv)
      (hbelow found f hwalk hf hfile)
  · obtain ⟨module, hfile⟩ := Tests.file_of_mem_scan htests hv hblocks
    exact .source ((Tests.madeBy_scan htests).ruleId_ne (by decide) hv) (hmodule module hfile)

/-- No file stands at the source root of a project that can be validated. -/
theorem isFile_sourceDirectory (h : Report.validate files root c = .ok r) :
    files.isFile (c.sourceDirectory root) = false := by
  obtain ⟨g, layout, couplings, security, tests, -, -, -, hsecurity, -, -⟩ := exists_scans h
  obtain ⟨found, hwalk, -⟩ := bind_eq_ok hsecurity
  exact (Files.walk_cases hwalk).1

end Report

end Strata
