/-
# The readings of the source root

Specification, section 4.2: specifiers resolve in a set of files that is collected once;
section 4.3: the nodes are collected by a walk of the source root.

The name of the source root is read three times: a walk starts from its directory,
another walk, from the project root, meets that directory by its name, and a path
is classified by its first segment. For a name these readings agree on the nodes
(`sourceRoot_readings`), except that the walk from the project root does not enter
a directory with the name of a skipped one.
-/

import Strata.Contract.Validity
import Strata.Proofs.Graph.Accounting
import Strata.Proofs.Layer

namespace Strata

open Text

/-! ### Names in a contract -/

namespace Contract

variable {c : Contract}

/-- A single name is a name, but for the two that mean a directory itself. -/
theorem isName_of_isSingleName {name : String} (h : isSingleName name = true) (hdot : name ≠ ".")
    (hdots : name ≠ "..") : IsName name := by
  rw [isSingleName, Bool.and_eq_true, Bool.not_eq_true', Bool.not_eq_true'] at h
  refine ⟨?_, hdot, hdots, fun hmem => ?_⟩
  · rintro rfl
    exact absurd h.1 (by decide)
  · rw [List.contains_iff_mem.2 hmem] at h
    exact Bool.noConfusion h.2

/-- A valid contract names its two directories by single names. -/
theorem isSingleName_of_validate (h : c.validate = .ok ()) :
    isSingleName c.sourceRoot = true ∧ isSingleName c.moduleContainer = true := by
  unfold validate at h
  split at h
  · cases h
  · split at h
    · cases h
    · rename_i hroot
      split at h
      · cases h
      · rename_i hcontainer
        exact ⟨by simpa using hroot, by simpa using hcontainer⟩

end Contract

namespace ImportGraph

variable {files : Files} {root : Path} {c : Contract} {g : ImportGraph}

/-- The nodes of a graph are the production files below the directory of the
source root. -/
theorem mem_nodes_iff (hwell : files.top.WellNamed) {entries : List (String × Entry)}
    (hfind : files.find (c.sourceDirectory root) = .ok (.directory entries))
    (h : ImportGraph.build files root c = .ok g) {n : Graph.Node} :
    n ∈ g.nodes ↔ ∃ rest text, Found entries rest text ∧
      IsProduction root (root.descend (c.sourceRoot :: rest)) ∧
      Graph.Node.ofSource c (.ofFound root ⟨root.descend (c.sourceRoot :: rest), text⟩) = n := by
  rcases build_cases h with ⟨hnone, -⟩ | ⟨entries', all, configs, hfind', -, -, rfl⟩
  · rw [Files.isDirectory_iff.2 ⟨entries, hfind⟩] at hnone
    cases hnone
  · obtain rfl : entries = entries' := by
      rw [hfind] at hfind'
      exact Entry.directory.inj (Except.ok.inj hfind')
    have hentries := Files.wellNamed_of_find hwell hfind
    have hnodes : n ∈ (Graph.assemble c root (filesOfEntries (c.sourceDirectory root) entries) all
        configs).nodes ↔
        n ∈ (Graph.sourcesBelow root (c.sourceDirectory root) entries).map
          (Graph.Node.ofSource c) := List.mem_toArray
    rw [hnodes, List.mem_map]
    constructor
    · rintro ⟨s, hs, rfl⟩
      obtain ⟨rest, text, hfound, hproduction, rfl⟩ := (Graph.mem_sourcesBelow hentries).1 hs
      exact ⟨rest, text, hfound, hproduction, rfl⟩
    · rintro ⟨rest, text, hfound, hproduction, rfl⟩
      exact ⟨_, (Graph.mem_sourcesBelow hentries).2 ⟨rest, text, hfound, hproduction, rfl⟩, rfl⟩

/-- A path below the source root is classified by the names behind it. -/
theorem classify_relativeTo (root : Path) {rest : List String}
    (hnames : AreNames (c.sourceRoot :: rest))
    (hplain : ∀ name ∈ c.sourceRoot :: rest, '\\' ∉ name.toList) :
    c.classify (root.relativeTo (root.descend (c.sourceRoot :: rest))) = c.classifyInRoot rest := by
  rw [Path.relativeTo_descend root hnames (List.cons_ne_nil _ _) hplain, Contract.classify,
    pathSegments_join hnames hplain, Contract.classifySegments, if_pos rfl]

/-- Names lead to a node when a walk from the source root finds production code
there. -/
theorem exists_node_iff (hwell : files.top.WellNamed) {entries : List (String × Entry)}
    (hfind : files.find (c.sourceDirectory root) = .ok (.directory entries))
    (h : ImportGraph.build files root c = .ok g) (hroot : IsName c.sourceRoot)
    {rest : List String} (hrest : AreNames rest)
    (hproduction : IsProduction root (root.descend (c.sourceRoot :: rest))) :
    (∃ n ∈ g.nodes, n.id = root.descend (c.sourceRoot :: rest)) ↔
      ∃ text, Found entries rest text := by
  constructor
  · rintro ⟨n, hn, hid⟩
    obtain ⟨rest', text, hfound, -, rfl⟩ := (mem_nodes_iff hwell hfind h).1 hn
    have hnames' := hfound.areNames (Files.wellNamed_of_find hwell hfind)
    have heq : c.sourceRoot :: rest' = c.sourceRoot :: rest :=
      Path.descend_inj root (List.forall_mem_cons.2 ⟨hroot, hnames'⟩)
        (List.forall_mem_cons.2 ⟨hroot, hrest⟩) hid
    exact ⟨text, (List.cons.inj heq).2 ▸ hfound⟩
  · rintro ⟨text, hfound⟩
    exact ⟨_, (mem_nodes_iff hwell hfind h).2 ⟨rest, text, hfound, hproduction, rfl⟩, rfl⟩

/-- A node lies where its path leads. -/
theorem place_of_mem_nodes (h : ImportGraph.build files root c = .ok g) {n : Graph.Node}
    (hn : n ∈ g.nodes) :
    n.relativePath = root.relativeTo n.id ∧ n.place = c.classify n.relativePath := by
  rcases build_cases h with ⟨-, rfl⟩ | ⟨entries, all, configs, -, -, -, rfl⟩
  · exact absurd hn (Array.not_mem_empty n)
  · obtain ⟨s, hs, rfl⟩ := List.mem_map.1 (List.mem_toArray.1 hn)
    obtain ⟨f, -, -, rfl⟩ := mem_selectProduction.1 hs
    simp only [Graph.id_ofSource, Graph.relativePath_ofSource, Graph.place_ofSource,
      SourceFile.path_ofFound, SourceFile.relativePath_ofFound, and_self]

/-- The last name of a code file looks like a file. -/
theorem looksLikeFile_of_getLast? {root : Path} {first : String} {rest : List String}
    (hnames : AreNames (first :: rest)) (hcode : isCodeFile (root.descend (first :: rest)) = true)
    {name : String} (hlast : rest.getLast? = some name) : looksLikeFile name = true := by
  obtain ⟨inner, rfl⟩ := List.getLast?_eq_some_iff.1 hlast
  exact looksLikeFile_of_isCodeFile (List.cons_append ▸ hnames) (List.cons_append ▸ hcode)

/-- **The readings of the source root agree.** For a valid contract whose source root is a name
and a directory of the project, every node has a path below the project root that begins with
the source root. A relative import can mean it, that is, the walk from the project root finds
it, exactly when the source root has not the name of a directory that walks skip. It is out of
scope exactly when it lies directly in the module container, or is a file of that name. Source:
specification, sections 4.1 to 4.3. -/
theorem sourceRoot_readings {tree : Entry} (hwell : files.top.WellNamed)
    (htree : files.find root = .ok tree) (hplain : tree.Plain) (hvalid : c.validate = .ok ())
    (hdot : c.sourceRoot ≠ ".") (hdots : c.sourceRoot ≠ "..")
    (hdirectory : files.isDirectory (c.sourceDirectory root) = true)
    (h : ImportGraph.build files root c = .ok g) :
    ∃ all, files.walk root = .ok all ∧ ∀ n ∈ g.nodes, ∃ rest, rest ≠ [] ∧
      AreNames (c.sourceRoot :: rest) ∧ n.id = root.descend (c.sourceRoot :: rest) ∧
      n.relativePath = join "/" (c.sourceRoot :: rest) ∧
      ((∃ f ∈ all, f.path.normalize = n.id.normalize) ↔
        isSkippedDirectory c.sourceRoot = false) ∧
      (n.place = .outOfScope ↔
        rest = [c.moduleContainer] ∨ ∃ name, rest = [c.moduleContainer, name]) := by
  have hroot := Contract.isName_of_isSingleName (Contract.isSingleName_of_validate hvalid).1 hdot
    hdots
  obtain ⟨entries, hfind⟩ := Files.isDirectory_iff.1 hdirectory
  have hmem : (c.sourceRoot, .directory entries) ∈ tree.entries :=
    Files.mem_of_find_child htree hroot hfind
  have htreeWell := Files.wellNamed_of_find hwell htree
  have hentries := htreeWell.inner hmem
  cases tree with
  | file text => exact absurd hmem List.not_mem_nil
  | directory listing =>
    refine ⟨_, Files.walk_eq htree, fun n hn => ?_⟩
    obtain ⟨rest, text, hfound, hproduction, rfl⟩ := (mem_nodes_iff hwell hfind h).1 hn
    have hnames : AreNames (c.sourceRoot :: rest) :=
      List.forall_mem_cons.2 ⟨hroot, hfound.areNames hentries⟩
    have hslashes : ∀ name ∈ c.sourceRoot :: rest, '\\' ∉ name.toList :=
      List.forall_mem_cons.2 ⟨(hplain.name hmem).noBackslash, fun name hname =>
        (hfound.plain (hplain.inner hmem) name hname).noBackslash⟩
    refine ⟨rest, hfound.ne_nil, hnames, rfl,
      Path.relativeTo_descend root hnames (List.cons_ne_nil _ _) hslashes, ?_, ?_⟩
    · -- the walk from the project root: names found from there begin with the source root, and a
      -- walk enters that directory exactly when it does not skip its name
      constructor
      · rintro ⟨f, hf, heq⟩
        obtain ⟨names, hfound', hpath⟩ := (htreeWell.mem_walk root f).1 hf
        rw [hpath] at heq
        obtain rfl := Path.normalize_descend_inj root (hfound'.areNames htreeWell) hnames
          hfound'.ne_nil (List.cons_ne_nil _ _) heq
        exact ((Found.cons_directory_iff htreeWell.nodup hmem).1 hfound').1
      · intro hentered
        have hbelow : Found listing (c.sourceRoot :: rest) text :=
          (Found.cons_directory_iff htreeWell.nodup hmem).2 ⟨hentered, hfound⟩
        exact ⟨⟨_, text⟩, (htreeWell.mem_walk root _).2 ⟨_, hbelow, rfl⟩, rfl⟩
    · -- the class: a node is a file, so its last name looks like one
      rw [Graph.place_ofSource, SourceFile.relativePath_ofFound,
        classify_relativeTo root hnames hslashes]
      exact Contract.classifyInRoot_eq_outOfScope_iff hfound.ne_nil fun name hlast =>
        looksLikeFile_of_getLast? hnames hproduction.1 hlast

/-- A project with two files that import each other. -/
def mutualFiles : Files where
  top :=
    .directory
      [("src", .directory
        [("a.ts", .file (some "import './b';")), ("b.ts", .file (some "import './a';"))])]
  workingDirectory := ⟨"/"⟩

theorem wellNamed_mutualFiles : mutualFiles.top.WellNamed := by
  refine .singleton (by decide) (.directory (by decide) (by decide) ?_)
  exact List.forall_mem_cons.2 ⟨.file _, List.forall_mem_singleton.2 (.file _)⟩

theorem plain_mutualFiles : mutualFiles.top.Plain := by
  refine .singleton (by decide) (.directory (by decide) ?_)
  exact List.forall_mem_cons.2 ⟨.file _, List.forall_mem_singleton.2 (.file _)⟩

theorem build_mutualFiles :
    ∃ g, ImportGraph.build mutualFiles ⟨"/"⟩ .standard = .ok g ∧
      g.nodes.toList.map Graph.Node.relativePath = ["src/a.ts", "src/b.ts"] := by
  let below : List FoundFile :=
    [⟨⟨"/src/a.ts"⟩, some "import './b';"⟩, ⟨⟨"/src/b.ts"⟩, some "import './a';"⟩]
  have hsources : selectProduction ⟨"/"⟩ (sortByPath below) =
      below.map (SourceFile.ofFound ⟨"/"⟩) :=
    selectProduction_eq (by decide +kernel) (by decide +kernel) (by decide +kernel)
  refine ⟨Graph.assemble .standard ⟨"/"⟩ below below [], rfl, ?_⟩
  rw [Graph.assemble, hsources]
  decide +kernel

/-- Two files that import each other are both found from the project root, and
neither is out of scope. -/
theorem sourceRoot_readings_mutual :
    ∃ g all, ImportGraph.build mutualFiles ⟨"/"⟩ .standard = .ok g ∧
      mutualFiles.walk ⟨"/"⟩ = .ok all ∧
      g.nodes.toList.map Graph.Node.relativePath = ["src/a.ts", "src/b.ts"] ∧
      ∀ n ∈ g.nodes, (∃ f ∈ all, f.path.normalize = n.id.normalize) ∧ n.place ≠ .outOfScope := by
  obtain ⟨g, hbuild, hnames⟩ := build_mutualFiles
  obtain ⟨all, hall, hnodes⟩ := sourceRoot_readings wellNamed_mutualFiles rfl plain_mutualFiles
    Contract.validate_standard (by decide) (by decide) rfl hbuild
  refine ⟨g, all, hbuild, hall, hnames, fun n hn => ?_⟩
  obtain ⟨rest, -, -, -, hpath, hknown, hscope⟩ := hnodes n hn
  refine ⟨hknown.2 (by decide), fun hout => ?_⟩
  -- both names go on with a file behind `src/`, not with the container
  have hfront : n.relativePath.toList.take 5 ∈ ["src/a".toList, "src/b".toList] := by
    have hname : n.relativePath ∈ ["src/a.ts", "src/b.ts"] :=
      hnames ▸ List.mem_map_of_mem (Array.mem_toList_iff.2 hn)
    rcases List.mem_pair.1 hname with hname | hname <;> rw [hname] <;> decide
  have hmodules : n.relativePath.toList.take 5 = "src/m".toList := by
    rcases hscope.1 hout with rfl | ⟨name, rfl⟩ <;> rw [hpath, join] <;>
      simp [joinChars, Contract.standard]
  rw [hmodules] at hfront
  exact absurd hfront (by decide)

/-! ### Where the readings differ -/

/-- A project with one file, which lies in a directory at the top. -/
def loneFile (directory name : String) : Files where
  top := .directory [(directory, .directory [(name, .file (some ""))])]
  workingDirectory := ⟨"/"⟩

theorem wellNamed_loneFile {directory name : String} (hdirectory : IsName directory)
    (hname : IsName name) : (loneFile directory name).top.WellNamed :=
  .singleton hdirectory (.singleton hname (.file _))

/-- The graph of a project with one file below its source root has a node for it,
when it is production code. -/
theorem exists_loneNode (c : Contract) (root : Path) {directory name : String}
    (hdirectory : IsName directory) (hname : IsName name) {inner : List String}
    {entries : List (String × Entry)} {all : List FoundFile} {configs : List Graph.AliasConfig}
    (hfind : (loneFile directory name).find (c.sourceDirectory root) = .ok (.directory entries))
    (hall : (loneFile directory name).walk root = .ok all)
    (hconfigs : Graph.AliasConfig.readAll (loneFile directory name) root = .ok configs)
    (hfound : Found entries inner (some ""))
    (hproduction : IsProduction root (root.descend (c.sourceRoot :: inner))) :
    ∃ g, ImportGraph.build (loneFile directory name) root c = .ok g ∧
      ∃ n ∈ g.nodes, n.id = root.descend (c.sourceRoot :: inner) ∧
        n.place = c.classify (root.relativeTo (root.descend (c.sourceRoot :: inner))) := by
  have hbuild := build_eq_assemble hfind hall hconfigs
  refine ⟨_, hbuild, _, (mem_nodes_iff (wellNamed_loneFile hdirectory hname) hfind hbuild).2
    ⟨inner, some "", hfound, hproduction, rfl⟩, rfl, ?_⟩
  rw [Graph.place_ofSource, SourceFile.relativePath_ofFound]

/-- A source root that walks skip has a node that no relative import can mean. -/
theorem exists_node_unknown :
    ∃ c g all, c.validate = .ok () ∧
      (loneFile "build" "a.ts").isDirectory (c.sourceDirectory ⟨"/"⟩) = true ∧
      ImportGraph.build (loneFile "build" "a.ts") ⟨"/"⟩ c = .ok g ∧
      (loneFile "build" "a.ts").walk ⟨"/"⟩ = .ok all ∧
      ∃ n ∈ g.nodes, ¬ ∃ f ∈ all, f.path.normalize = n.id.normalize := by
  have hdirectory : IsName "build" := by decide
  have hname : IsName "a.ts" := by decide
  have hproduction : IsProduction ⟨"/"⟩ (Path.descend ⟨"/"⟩ ["build", "a.ts"]) := by
    unfold IsProduction
    decide
  obtain ⟨g, hbuild, n, hn, -⟩ := exists_loneNode { Contract.standard with sourceRoot := "build" }
    ⟨"/"⟩ hdirectory hname rfl rfl rfl (.here List.mem_cons_self) hproduction
  refine ⟨_, g, [], rfl, rfl, hbuild, rfl, n, hn, ?_⟩
  simp

/-- A file in the source root with the name of the module container is out of
scope. -/
theorem exists_node_named_container :
    ∃ c g, c.validate = .ok () ∧
      (loneFile "src" "main.ts").isDirectory (c.sourceDirectory ⟨"/"⟩) = true ∧
      ImportGraph.build (loneFile "src" "main.ts") ⟨"/"⟩ c = .ok g ∧
      ∃ n ∈ g.nodes, n.id = ⟨"/src/main.ts"⟩ ∧ n.place = .outOfScope := by
  have hdirectory : IsName "src" := by decide
  have hname : IsName "main.ts" := by decide
  have hproduction : IsProduction ⟨"/"⟩ (Path.descend ⟨"/"⟩ ["src", "main.ts"]) := by
    unfold IsProduction
    decide
  obtain ⟨g, hbuild, n, hn, hid, hplace⟩ :=
    exists_loneNode { Contract.standard with moduleContainer := "main.ts" } ⟨"/"⟩ hdirectory hname
      rfl rfl rfl (.here List.mem_cons_self) hproduction
  exact ⟨_, g, rfl, rfl, hbuild, n, hn, hid, hplace⟩

/-- Below a source root that is a dot, all is out of scope. -/
theorem exists_node_below_dot :
    ∃ c g, c.validate = .ok () ∧ c.moduleContainer = "modules" ∧
      (loneFile "src" "a.ts").isDirectory (c.sourceDirectory ⟨"/"⟩) = true ∧
      ImportGraph.build (loneFile "src" "a.ts") ⟨"/"⟩ c = .ok g ∧
      ∃ n ∈ g.nodes, n.id = ⟨"/./src/a.ts"⟩ ∧ n.place = .outOfScope := by
  have hdirectory : IsName "src" := by decide
  have hname : IsName "a.ts" := by decide
  have hproduction : IsProduction ⟨"/"⟩ (Path.descend ⟨"/"⟩ [".", "src", "a.ts"]) := by
    unfold IsProduction
    decide
  obtain ⟨g, hbuild, n, hn, hid, hplace⟩ :=
    exists_loneNode { Contract.standard with sourceRoot := "." } ⟨"/"⟩ hdirectory hname rfl rfl rfl
      (.inside List.mem_cons_self rfl (.here List.mem_cons_self)) hproduction
  exact ⟨_, g, rfl, rfl, rfl, hbuild, n, hn, hid, hplace⟩

/-- **The readings of the source root differ** for a source root that walks skip,
for a container with the name of a file in the source root, and for a source root
that is a dot. -/
theorem sourceRoot_readings_differ :
    (∃ c g all, c.validate = .ok () ∧
      (loneFile "build" "a.ts").isDirectory (c.sourceDirectory ⟨"/"⟩) = true ∧
      ImportGraph.build (loneFile "build" "a.ts") ⟨"/"⟩ c = .ok g ∧
      (loneFile "build" "a.ts").walk ⟨"/"⟩ = .ok all ∧
      ∃ n ∈ g.nodes, ¬ ∃ f ∈ all, f.path.normalize = n.id.normalize) ∧
    (∃ c g, c.validate = .ok () ∧
      (loneFile "src" "main.ts").isDirectory (c.sourceDirectory ⟨"/"⟩) = true ∧
      ImportGraph.build (loneFile "src" "main.ts") ⟨"/"⟩ c = .ok g ∧
      ∃ n ∈ g.nodes, n.id = ⟨"/src/main.ts"⟩ ∧ n.place = .outOfScope) ∧
    ∃ c g, c.validate = .ok () ∧ c.moduleContainer = "modules" ∧
      (loneFile "src" "a.ts").isDirectory (c.sourceDirectory ⟨"/"⟩) = true ∧
      ImportGraph.build (loneFile "src" "a.ts") ⟨"/"⟩ c = .ok g ∧
      ∃ n ∈ g.nodes, n.id = ⟨"/./src/a.ts"⟩ ∧ n.place = .outOfScope :=
  ⟨exists_node_unknown, exists_node_named_container, exists_node_below_dot⟩

end ImportGraph

end Strata
