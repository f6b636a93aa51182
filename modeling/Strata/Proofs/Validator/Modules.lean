/-
# Modules, as validators and the graph see them

Specification, sections 4.3 and 4.4: the graph skips directories by their names, the scans
of modules do not.

The validators of the layout and of the tests take the modules of a project from a
listing of the module container, the graph takes them from the paths of its nodes.
Every module of a node is one that the listing gives, and the production files
below the directory of a listed module are nodes with this module, unless walks
skip the container or the module by its name (`modules_agree`).
-/

import Strata.Proofs.Graph.SourceRoot
import Strata.Proofs.Validator.Relisting

namespace Strata

open Text

variable {files : Files} {root : Path} {c : Contract}

/-- The modules that are found in a directory. -/
theorem moduleDirectories_eq_ok {listing : List (String × Entry)}
    (h : files.find (c.containerDirectory root) = .ok (.directory listing)) :
    moduleDirectories files root c =
      .ok ((modulesIn (c.containerDirectory root) listing).mergeSort fun a b =>
        (a.order b).isLE) := by
  simp only [moduleDirectories, Files.list?, h]
  rfl

/-- A container with one module. -/
theorem moduleDirectories_of_singleton {listing : List (String × Entry)} {d : ModuleDirectory}
    (h : files.find (c.containerDirectory root) = .ok (.directory listing))
    (hone : modulesIn (c.containerDirectory root) listing = [d]) :
    moduleDirectories files root c = .ok [d] := by
  rw [moduleDirectories_eq_ok h, hone, List.mergeSort_singleton]

theorem mem_modulesIn {container : Path} {listing : List (String × Entry)} {d : ModuleDirectory} :
    d ∈ modulesIn container listing ↔
      ∃ inner, (d.name, .directory inner) ∈ listing ∧ startsWith "." d.name = false ∧
        d.path = container.child d.name := by
  rw [modulesIn, List.mem_map]
  constructor
  · rintro ⟨⟨name, entry⟩, he, rfl⟩
    rw [List.mem_filter, Bool.and_eq_true, Bool.not_eq_true'] at he
    obtain ⟨hmem, hdirectory, hdot⟩ := he
    cases entry with
    | file text => cases hdirectory
    | directory inner => exact ⟨inner, hmem, hdot, rfl⟩
  · rintro ⟨inner, hmem, hdot, hpath⟩
    refine ⟨(d.name, .directory inner), ?_, ?_⟩
    · rw [List.mem_filter, hdot]
      exact ⟨hmem, rfl⟩
    · cases d
      simp_all

/-- Where there are modules there is a directory that lists them. -/
theorem exists_listing {modules : List ModuleDirectory}
    (h : moduleDirectories files root c = .ok modules) {d : ModuleDirectory} (hd : d ∈ modules) :
    ∃ listing, files.find (c.containerDirectory root) = .ok (.directory listing) ∧
      d ∈ modulesIn (c.containerDirectory root) listing := by
  obtain ⟨found, hfound, h⟩ := bind_eq_ok h
  obtain rfl := Except.ok.inj h
  rw [List.mem_mergeSort] at hd
  unfold Files.list? at hfound
  split at hfound
  · rename_i listing hfind
    obtain rfl := Except.ok.inj hfound
    exact ⟨listing, hfind, hd⟩
  · cases hfound
  · obtain rfl := Except.ok.inj hfound
    exact absurd hd List.not_mem_nil
  · cases hfound

/-- A directory that a walk enters has a name without a dot in front. -/
theorem startsWith_dot_eq_false {name : String} (h : isSkippedDirectory name = false) :
    startsWith "." name = false := (Bool.or_eq_false_iff.1 h).1

namespace ImportGraph

variable {g : ImportGraph} {tree : Entry}

section

variable (hwell : files.top.WellNamed) (htree : files.find root = .ok tree) (hplain : tree.Plain)
  (hroot : IsName c.sourceRoot) (h : ImportGraph.build files root c = .ok g)
include hwell htree hplain hroot h

/-- The module of a node is one that the validators see. -/
theorem exists_module_of_node {n : Graph.Node} (hn : n ∈ g.nodes) {m : String}
    (hm : n.place.module? = some m) :
    ∃ modules, moduleDirectories files root c = .ok modules ∧ ∃ d ∈ modules, d.name = m := by
  rcases build_cases h with ⟨-, rfl⟩ | ⟨entries, all, configs, hfind, -⟩
  · exact absurd hn (Array.not_mem_empty n)
  · have hmem : (c.sourceRoot, .directory entries) ∈ tree.entries :=
      Files.mem_of_find_child htree hroot hfind
    have hentries := Files.wellNamed_of_find hwell hfind
    have hplainBelow := hplain.inner hmem
    obtain ⟨rest, text, hfound, hproduction, rfl⟩ := (mem_nodes_iff hwell hfind h).1 hn
    have hnames : AreNames (c.sourceRoot :: rest) :=
      List.forall_mem_cons.2 ⟨hroot, hfound.areNames hentries⟩
    have hslashes : ∀ name ∈ c.sourceRoot :: rest, '\\' ∉ name.toList :=
      List.forall_mem_cons.2 ⟨(hplain.name hmem).noBackslash, fun name hname =>
        (hfound.plain hplainBelow name hname).noBackslash⟩
    rw [Graph.place_ofSource, SourceFile.relativePath_ofFound,
      classify_relativeTo root hnames hslashes,
      Contract.module?_classifyInRoot_iff fun name hlast =>
        looksLikeFile_of_getLast? hnames hproduction.1 hlast] at hm
    obtain ⟨more, hmore, rfl⟩ := hm
    -- the names lead through the container and the module, which the walk enters
    rcases Found.cons_iff.1 hfound with ⟨hnil, -⟩ | ⟨listing, hlisting, -, hinner⟩
    · cases hnil
    · rcases Found.cons_iff.1 hinner with ⟨hnil, -⟩ | ⟨inner, hmodule, hentered, -⟩
      · exact absurd hnil hmore
      · have hfindContainer : files.find (c.containerDirectory root) = .ok (.directory listing) :=
          Files.find_child_of_mem hfind hentries (hplainBelow.name hlisting) hlisting
        refine ⟨_, moduleDirectories_eq_ok hfindContainer,
          ⟨m, (c.containerDirectory root).child m⟩, ?_, rfl⟩
        exact List.mem_mergeSort.2
          (mem_modulesIn.2 ⟨inner, hmodule, startsWith_dot_eq_false hentered, rfl⟩)

variable (hcontainer : IsName c.moduleContainer)
include hcontainer

omit hwell hplain h in
/-- The directory of a module that the validators see lies in the container, which
lies in the source root. -/
theorem exists_way {modules : List ModuleDirectory}
    (hmodules : moduleDirectories files root c = .ok modules) {d : ModuleDirectory}
    (hd : d ∈ modules) :
    ∃ entries listing inner, files.find (c.sourceDirectory root) = .ok (.directory entries) ∧
      (c.sourceRoot, .directory entries) ∈ tree.entries ∧
      (c.moduleContainer, .directory listing) ∈ entries ∧ (d.name, .directory inner) ∈ listing ∧
      files.find (c.containerDirectory root) = .ok (.directory listing) ∧
      d.path = root.descend [c.sourceRoot, c.moduleContainer, d.name] := by
  obtain ⟨listing, hfindContainer, hlisted⟩ := exists_listing hmodules hd
  obtain ⟨inner, hmodule, -, hpath⟩ := mem_modulesIn.1 hlisted
  obtain ⟨entries, hfind⟩ :=
    Files.find_of_find_child (Path.child_ne_nil root hroot) hcontainer hfindContainer
  exact ⟨entries, listing, inner, hfind, Files.mem_of_find_child htree hroot hfind,
    Files.mem_of_find_child hfind hcontainer hfindContainer, hmodule, hfindContainer, hpath⟩

/-- The production files of a module that the validators see are nodes, unless walks
skip the container or the module. -/
theorem nodes_of_module {modules : List ModuleDirectory}
    (hmodules : moduleDirectories files root c = .ok modules) {d : ModuleDirectory}
    (hd : d ∈ modules) :
    ∃ found, files.walk d.path = .ok found ∧ ∀ f ∈ found, IsProduction root f.path →
      ((∃ n ∈ g.nodes, n.id = f.path) ↔
        isSkippedDirectory c.moduleContainer = false ∧ isSkippedDirectory d.name = false) ∧
      ∀ n ∈ g.nodes, n.id = f.path → n.place.module? = some d.name := by
  obtain ⟨entries, listing, inner, hfind, hmem, hlisting, hmodule, hfindContainer, hpath⟩ :=
    exists_way htree hroot hcontainer hmodules hd
  have hentries := Files.wellNamed_of_find hwell hfind
  have hlistingWell := hentries.inner hlisting
  have hplainBelow := hplain.inner hmem
  have hplainListing := hplainBelow.inner hlisting
  have hfindModule : files.find d.path = .ok (.directory inner) := by
    rw [hpath]
    exact Files.find_child_of_mem hfindContainer hlistingWell (hplainListing.name hmodule) hmodule
  refine ⟨_, Files.walk_eq hfindModule, fun f hf hproduction => ?_⟩
  obtain ⟨names, hfound, hbelow⟩ := ((hlistingWell.inner hmodule).mem_walk d.path f).1 hf
  have hfile : f.path = root.descend (c.sourceRoot :: c.moduleContainer :: d.name :: names) := by
    rw [hbelow, hpath]
    rfl
  have hnames : AreNames (c.sourceRoot :: c.moduleContainer :: d.name :: names) := by
    simp only [AreNames, List.forall_mem_cons]
    exact ⟨hroot, hcontainer, hlistingWell.isName hmodule,
      hfound.areNames (hlistingWell.inner hmodule)⟩
  have hslashes : ∀ name ∈ c.sourceRoot :: c.moduleContainer :: d.name :: names,
      '\\' ∉ name.toList := by
    simp only [List.forall_mem_cons]
    exact ⟨(hplain.name hmem).noBackslash, (hplainBelow.name hlisting).noBackslash,
      (hplainListing.name hmodule).noBackslash, fun name hname =>
        (hfound.plain (hplainListing.inner hmodule) name hname).noBackslash⟩
  rw [hfile] at hproduction ⊢
  refine ⟨?_, fun n hn hid => ?_⟩
  · rw [exists_node_iff hwell hfind h hroot (List.forall_mem_cons.1 hnames).2 hproduction]
    -- from the source root the file is found through the container and the module
    have hthrough : ∀ text, Found entries (c.moduleContainer :: d.name :: names) text ↔
        isSkippedDirectory c.moduleContainer = false ∧ isSkippedDirectory d.name = false ∧
          Found inner names text := fun text =>
      (Found.cons_directory_iff hentries.nodup hlisting).trans
        (and_congr_right fun _ => Found.cons_directory_iff hlistingWell.nodup hmodule)
    constructor
    · rintro ⟨text, hfound'⟩
      obtain ⟨hcontainerEntered, hmoduleEntered, -⟩ := (hthrough text).1 hfound'
      exact ⟨hcontainerEntered, hmoduleEntered⟩
    · rintro ⟨hcontainerEntered, hmoduleEntered⟩
      exact ⟨f.text, (hthrough f.text).2 ⟨hcontainerEntered, hmoduleEntered, hfound⟩⟩
  · obtain ⟨hrelative, hplace⟩ := place_of_mem_nodes h hn
    rw [hplace, hrelative, hid, classify_relativeTo root hnames hslashes,
      Contract.module?_classifyInRoot_iff fun name hlast =>
        looksLikeFile_of_getLast? hnames hproduction.1 hlast]
    exact ⟨names, hfound.ne_nil, rfl⟩

end

/-- **Validators and the graph see the same modules.** For a valid contract whose two directory
names are names, the module of every node is one that the validators see. The directory of a
module that they see is walked, and the files found there that are production code are nodes
with this module, all of them when walks enter directories with the names of the container and
of the module, and none otherwise. Source: specification, sections 4.3 and 4.4. -/
theorem modules_agree (hwell : files.top.WellNamed) (htree : files.find root = .ok tree)
    (hplain : tree.Plain) (hvalid : c.validate = .ok ()) (hdot : c.sourceRoot ≠ ".")
    (hdots : c.sourceRoot ≠ "..") (hdot' : c.moduleContainer ≠ ".")
    (hdots' : c.moduleContainer ≠ "..") (h : ImportGraph.build files root c = .ok g) :
    (∀ n ∈ g.nodes, ∀ m, n.place.module? = some m →
      ∃ modules, moduleDirectories files root c = .ok modules ∧ ∃ d ∈ modules, d.name = m) ∧
    ∀ modules, moduleDirectories files root c = .ok modules → ∀ d ∈ modules,
      ∃ found, files.walk d.path = .ok found ∧ ∀ f ∈ found, IsProduction root f.path →
        ((∃ n ∈ g.nodes, n.id = f.path) ↔
          isSkippedDirectory c.moduleContainer = false ∧ isSkippedDirectory d.name = false) ∧
        ∀ n ∈ g.nodes, n.id = f.path → n.place.module? = some d.name := by
  obtain ⟨hrootName, hcontainerName⟩ := Contract.isSingleName_of_validate hvalid
  have hroot := Contract.isName_of_isSingleName hrootName hdot hdots
  have hcontainer := Contract.isName_of_isSingleName hcontainerName hdot' hdots'
  exact ⟨fun n hn m hm => exists_module_of_node hwell htree hplain hroot h hn hm,
    fun modules hmodules d hd =>
      nodes_of_module hwell htree hplain hroot h hcontainer hmodules hd⟩

/-- A project with one file, in a layer of a module of a container. -/
def moduleFile (container module : String) : Files where
  top :=
    .directory
      [("src", .directory
        [(container, .directory
          [(module, .directory [("service", .directory [("a.ts", .file (some ""))])])])])]
  workingDirectory := ⟨"/"⟩

theorem wellNamed_moduleFile {container module : String} (hcontainer : IsName container)
    (hmodule : IsName module) : (moduleFile container module).top.WellNamed :=
  .singleton (by decide) (.singleton hcontainer (.singleton hmodule
    (.singleton (by decide) (.singleton (by decide) (.file _)))))

theorem plain_moduleFile {container module : String} (hcontainer : IsPlainName container)
    (hmodule : IsPlainName module) : (moduleFile container module).top.Plain :=
  .singleton (by decide) (.singleton hcontainer (.singleton hmodule
    (.singleton (by decide) (.singleton (by decide) (.file _)))))

/-- The file of a module is a node with this module. -/
theorem modules_agree_user :
    ∃ g modules, ImportGraph.build (moduleFile "modules" "user") ⟨"/"⟩ .standard = .ok g ∧
      moduleDirectories (moduleFile "modules" "user") ⟨"/"⟩ .standard = .ok modules ∧
      ∃ d ∈ modules, d.name = "user" ∧
        ∃ n ∈ g.nodes, n.id = ⟨"/src/modules/user/service/a.ts"⟩ ∧
          n.place.module? = some "user" := by
  have hmodules : IsName "modules" := by decide
  have huser : IsName "user" := by decide
  obtain ⟨g, hbuild⟩ : ∃ g, ImportGraph.build (moduleFile "modules" "user") ⟨"/"⟩ .standard =
      .ok g := ⟨_, build_eq_assemble rfl rfl rfl⟩
  have hlisted : moduleDirectories (moduleFile "modules" "user") ⟨"/"⟩ .standard =
      .ok [⟨"user", ⟨"/src/modules/user"⟩⟩] := moduleDirectories_of_singleton rfl rfl
  have hagree := modules_agree (wellNamed_moduleFile hmodules huser) rfl
    (plain_moduleFile (by decide) (by decide))
    Contract.validate_standard (by decide) (by decide) (by decide) (by decide) hbuild
  obtain ⟨found, hfound, hfiles⟩ := hagree.2 _ hlisted _ List.mem_cons_self
  obtain rfl : [⟨⟨"/src/modules/user/service/a.ts"⟩, some ""⟩] = found := Except.ok.inj hfound
  obtain ⟨hnode, hplace⟩ := hfiles _ List.mem_cons_self (by unfold IsProduction; decide)
  obtain ⟨n, hn, hid⟩ := hnode.2 (by decide)
  exact ⟨g, _, hbuild, hlisted, _, List.mem_cons_self, rfl, n, hn, hid, hplace n hn hid⟩

/-- Where a walk from the source root finds no files there are no nodes. -/
theorem not_mem_nodes_of_walk (hwalk : files.walk (c.sourceDirectory root) = .ok [])
    (h : ImportGraph.build files root c = .ok g) (n : Graph.Node) : n ∉ g.nodes := by
  rcases build_cases h with ⟨-, rfl⟩ | ⟨entries, all, configs, hfind, -, -, rfl⟩
  · exact Array.not_mem_empty n
  · rw [Files.walk_eq hfind] at hwalk
    intro hn
    obtain ⟨s, hs, -⟩ := List.mem_map.1 (List.mem_toArray.1 hn)
    obtain ⟨f, hf, -⟩ := mem_selectProduction.1 hs
    rw [Except.ok.inj hwalk] at hf
    exact absurd (List.mem_mergeSort.1 hf) List.not_mem_nil

/-- **A module without nodes.** The validators see a module in whose directory there
is production code that the graph does not have: one with the name of a directory
that walks skip, and one in a container with such a name. -/
theorem module_without_nodes :
    (∃ g modules, ImportGraph.build (moduleFile "modules" "build") ⟨"/"⟩ .standard = .ok g ∧
      moduleDirectories (moduleFile "modules" "build") ⟨"/"⟩ .standard = .ok modules ∧
      ∃ d ∈ modules, ∃ found, (moduleFile "modules" "build").walk d.path = .ok found ∧
        ∃ f ∈ found, IsProduction ⟨"/"⟩ f.path ∧ ¬ ∃ n ∈ g.nodes, n.id = f.path) ∧
    ∃ c g modules, c.validate = .ok () ∧
      ImportGraph.build (moduleFile "build" "user") ⟨"/"⟩ c = .ok g ∧
      moduleDirectories (moduleFile "build" "user") ⟨"/"⟩ c = .ok modules ∧
      ∃ d ∈ modules, ∃ found, (moduleFile "build" "user").walk d.path = .ok found ∧
        ∃ f ∈ found, IsProduction ⟨"/"⟩ f.path ∧ ¬ ∃ n ∈ g.nodes, n.id = f.path := by
  -- a module with the name of a skipped directory, then a container with such a name
  constructor
  · obtain ⟨g, hbuild⟩ : ∃ g, ImportGraph.build (moduleFile "modules" "build") ⟨"/"⟩ .standard =
        .ok g := ⟨_, build_eq_assemble rfl rfl rfl⟩
    have hlisted : moduleDirectories (moduleFile "modules" "build") ⟨"/"⟩ .standard =
        .ok [⟨"build", ⟨"/src/modules/build"⟩⟩] := moduleDirectories_of_singleton rfl rfl
    exact ⟨g, _, hbuild, hlisted, _, List.mem_cons_self, _, rfl, _, List.mem_cons_self,
      by unfold IsProduction; decide, fun ⟨n, hn, _⟩ => not_mem_nodes_of_walk rfl hbuild n hn⟩
  · obtain ⟨g, hbuild⟩ : ∃ g, ImportGraph.build (moduleFile "build" "user") ⟨"/"⟩
        { Contract.standard with moduleContainer := "build" } = .ok g :=
      ⟨_, build_eq_assemble rfl rfl rfl⟩
    have hlisted : moduleDirectories (moduleFile "build" "user") ⟨"/"⟩
        { Contract.standard with moduleContainer := "build" } =
        .ok [⟨"user", ⟨"/src/build/user"⟩⟩] := moduleDirectories_of_singleton rfl rfl
    exact ⟨_, g, _, rfl, hbuild, hlisted, _, List.mem_cons_self, _, rfl, _, List.mem_cons_self,
      by unfold IsProduction; decide, fun ⟨n, hn, _⟩ => not_mem_nodes_of_walk rfl hbuild n hn⟩

end ImportGraph

end Strata
