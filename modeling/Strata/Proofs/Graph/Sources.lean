/-
# The sources of a graph

The nodes of a graph are the production files below its source root. Each is told
from the others by its path, by the normal form of the path, and, where all names
are plain, by its path as seen from the project root. An import of a node
is recorded once.
-/

import Strata.Proofs.Graph.Built
import Strata.Proofs.Lists
import Strata.Proofs.Tree.Found
import Strata.Proofs.Tree.Lookup

namespace Strata

/-! ### Production code -/

/-- Production code: code that is neither test nor declarations and lies in no
directory for tests. -/
def IsProduction (root path : Path) : Prop :=
  isCodeFile path = true ∧ isTestFile path = false ∧ isDeclarationFile path = false ∧
    isUnderTests (root.relativeTo path) = false

/-- A file as a source. -/
def SourceFile.ofFound (root : Path) (f : FoundFile) : SourceFile :=
  ⟨f.path, root.relativeTo f.path, f.text⟩

namespace SourceFile

@[simp] theorem path_ofFound (root : Path) (f : FoundFile) : (ofFound root f).path = f.path := rfl

@[simp] theorem relativePath_ofFound (root : Path) (f : FoundFile) :
    (ofFound root f).relativePath = root.relativeTo f.path := rfl

end SourceFile

/-- The source has an import statement with this specifier. -/
def SourceFile.Imports (s : SourceFile) (specifier : String) : Prop :=
  ∃ text, s.text = some text ∧ specifier ∈ Import.specifiers text

/-- The sources that are selected are those of the production files. -/
theorem mem_selectProduction {root : Path} {found : List FoundFile} {s : SourceFile} :
    s ∈ selectProduction root found ↔
      ∃ f ∈ found, IsProduction root f.path ∧ SourceFile.ofFound root f = s := by
  unfold selectProduction IsProduction
  simp only [List.mem_mergeSort, List.mem_filter, List.mem_map, Bool.and_eq_true,
    Bool.not_eq_true']
  constructor
  · rintro ⟨⟨f, ⟨hf, ⟨hcode, htest⟩, hdecl⟩, rfl⟩, hunder⟩
    exact ⟨f, hf, ⟨hcode, htest, hdecl, hunder⟩, rfl⟩
  · rintro ⟨f, hf, ⟨hcode, htest, hdecl, hunder⟩, rfl⟩
    exact ⟨⟨f, ⟨hf, ⟨hcode, htest⟩, hdecl⟩, rfl⟩, hunder⟩

/-- The production code among files that are in order, when it is in order as well. -/
theorem selectProduction_eq {root : Path} {found : List FoundFile} {sources : List SourceFile}
    (hfound : found.Pairwise fun a b => (a.path.order b.path).isLE)
    (hselected : ((found.filter fun f =>
        isCodeFile f.path && !isTestFile f.path && !isDeclarationFile f.path).map
          (SourceFile.ofFound root)).filter (fun s => !isUnderTests s.relativePath) = sources)
    (hsources : sources.Pairwise fun a b => (compare a.relativePath b.relativePath).isLE) :
    selectProduction root (sortByPath found) = sources := by
  have hsorted : sortByPath found = found := List.mergeSort_of_pairwise hfound
  rw [hsorted]
  refine Eq.trans ?_ (List.mergeSort_of_pairwise hsources)
  rw [← hselected]
  rfl

/-- No source is selected twice. -/
theorem nodup_selectProduction (root : Path) {found : List FoundFile} (h : Distinct found) :
    (selectProduction root found).Nodup := by
  have hcode : ((found.filter fun f =>
      isCodeFile f.path && !isTestFile f.path && !isDeclarationFile f.path).map
        (SourceFile.ofFound root)).Nodup := by
    refine List.Nodup.of_map (fun s => s.path.components) ?_
    rw [List.map_map]
    exact h.sublist (List.filter_sublist.map _)
  exact (List.mergeSort_perm _ _).nodup_iff.2 (hcode.sublist List.filter_sublist)

namespace Graph

section

variable (c : Contract) (s : SourceFile)

@[simp] theorem id_ofSource : (Node.ofSource c s).id = s.path := rfl

@[simp] theorem relativePath_ofSource : (Node.ofSource c s).relativePath = s.relativePath := rfl

@[simp] theorem place_ofSource : (Node.ofSource c s).place = c.classify s.relativePath := rfl

end

/-- The sources of a graph, in the order in which its nodes are numbered. -/
def sourcesBelow (root source : Path) (entries : List (String × Entry)) : List SourceFile :=
  selectProduction root (sortByPath (filesOfEntries source entries))

section

variable {root source : Path} {entries : List (String × Entry)}
  (h : (Entry.directory entries).WellNamed)
include h

/-- The sources below a directory are the production files that names lead to from there. -/
theorem mem_sourcesBelow {s : SourceFile} :
    s ∈ sourcesBelow root source entries ↔
      ∃ names text, Found entries names text ∧ IsProduction root (source.descend names) ∧
        SourceFile.ofFound root ⟨source.descend names, text⟩ = s := by
  rw [sourcesBelow, mem_selectProduction]
  simp only [sortByPath, List.mem_mergeSort]
  constructor
  · rintro ⟨f, hf, hproduction, rfl⟩
    obtain ⟨names, hfound, hpath⟩ := (h.mem_walk source f).1 hf
    exact ⟨names, f.text, hfound, hpath ▸ hproduction, by rw [← hpath]⟩
  · rintro ⟨names, text, hfound, hproduction, rfl⟩
    exact ⟨_, (h.mem_walk source ⟨_, text⟩).2 ⟨names, hfound, rfl⟩, hproduction, rfl⟩

variable (root source) in
/-- No source is listed twice. -/
theorem nodup_sourcesBelow : (sourcesBelow root source entries).Nodup := by
  have hperm : (sortByPath (filesOfEntries source entries)).Perm (filesOfEntries source entries) :=
    List.mergeSort_perm _ _
  exact nodup_selectProduction root ((hperm.map _).nodup_iff.2 (h.distinct source))

/-- Sources with the same names are the same. -/
theorem eq_of_descend {s s' : SourceFile} (hs : s ∈ sourcesBelow root source entries)
    (hs' : s' ∈ sourcesBelow root source entries) (hpath : s.path = s'.path) : s = s' := by
  rw [sourcesBelow, mem_selectProduction] at hs hs'
  simp only [sortByPath, List.mem_mergeSort] at hs hs'
  obtain ⟨f, hf, -, rfl⟩ := hs
  obtain ⟨f', hf', -, rfl⟩ := hs'
  have hcomponents : f.path.components = f'.path.components := congrArg Path.components hpath
  rw [(h.distinct source).eq_of_components hf hf' hcomponents]

variable (root source) in
/-- **The normal forms of their paths tell the sources apart.** -/
theorem nodup_normalize_sourcesBelow :
    ((sourcesBelow root source entries).map fun s => s.path.normalize).Nodup := by
  refine List.Nodup.map_on (fun s hs s' hs' heq => eq_of_descend h hs hs' ?_)
    (nodup_sourcesBelow root source h)
  obtain ⟨names, text, hfound, -, rfl⟩ := (mem_sourcesBelow h).1 hs
  obtain ⟨names', text', hfound', -, rfl⟩ := (mem_sourcesBelow h).1 hs'
  have hnames := Path.normalize_descend_inj source (hfound.areNames h) (hfound'.areNames h)
    hfound.ne_nil hfound'.ne_nil heq
  rw [SourceFile.ofFound, SourceFile.ofFound, hnames]

/-- **The paths seen from the project root tell the sources apart**, where all
names are plain. -/
theorem nodup_relativePath_sourcesBelow {sub : Path} (hsource : source = root.join sub)
    (hplain : (Entry.directory entries).Plain) :
    ((sourcesBelow root source entries).map SourceFile.relativePath).Nodup := by
  refine List.Nodup.map_on (fun s hs s' hs' heq => eq_of_descend h hs hs' ?_)
    (nodup_sourcesBelow root source h)
  obtain ⟨names, text, hfound, -, rfl⟩ := (mem_sourcesBelow h).1 hs
  obtain ⟨names', text', hfound', -, rfl⟩ := (mem_sourcesBelow h).1 hs'
  subst hsource
  have hnames := Path.relativeTo_descend_inj root sub (hfound.areNames h) (hfound'.areNames h)
    hfound.ne_nil hfound'.ne_nil (fun name hname => (hfound.plain hplain name hname).noBackslash)
    (fun name hname => (hfound'.plain hplain name hname).noBackslash) heq
  rw [SourceFile.ofFound, SourceFile.ofFound, hnames]

end

/-! ### Numbers -/

/-- The number of a path is that of the source with this normal form. -/
theorem get?_numbering {sources : List SourceFile}
    (h : (sources.map fun s => s.path.normalize).Nodup) {p : Path} {i : Nat} :
    (numbering sources).get? p.text = some i ↔
      ∃ s, sources[i]? = some s ∧ s.path.normalize = p := by
  have hkeys : ((sources.zipIdx.map fun s => (s.1.path.normalize.text, s.2)).map
      Prod.fst).Nodup := by
    have hfst : (sources.zipIdx.map fun s => (s.1.path.normalize.text, s.2)).map Prod.fst =
        ((sources.zipIdx.map Prod.fst).map fun s => s.path.normalize).map Path.text := by
      rw [List.map_map, List.map_map, List.map_map]
      rfl
    rw [hfst, List.zipIdx_map_fst]
    exact h.map fun _ _ => Path.eq_of_text
  rw [numbering, Std.TreeMap.get?_eq_getElem?, getElem?_ofList_iff hkeys, List.mem_map]
  constructor
  · rintro ⟨⟨s, j⟩, hs, heq⟩
    obtain ⟨htext, rfl⟩ := Prod.mk.inj heq
    exact ⟨s, List.mk_mem_zipIdx_iff_getElem?.1 hs, Path.eq_of_text htext⟩
  · rintro ⟨s, hs, rfl⟩
    exact ⟨(s, i), List.mk_mem_zipIdx_iff_getElem?.2 hs, rfl⟩

/-- A path is known when it is the normal form of a file's path. -/
theorem contains_knownPaths {all : List FoundFile} {p : Path} :
    (knownPaths all).contains p.text = true ↔ ∃ f ∈ all, f.path.normalize = p := by
  rw [knownPaths, Std.TreeSet.contains_ofList, List.contains_iff_mem, List.mem_map]
  constructor
  · rintro ⟨f, hf, heq⟩
    exact ⟨f, hf, Path.eq_of_text heq⟩
  · rintro ⟨f, hf, rfl⟩
    exact ⟨f, hf, rfl⟩

/-! ### Records -/

/-- The records of a graph are those of the imports that its sources state. -/
theorem mem_recordsOf {w : Surroundings} {sources : List SourceFile} {r : ImportRecord} :
    r ∈ recordsOf w sources ↔
      ∃ s, sources[r.importer]? = some s ∧ s.Imports r.specifier ∧
        r.outcome = w.outcome s.path r.specifier := by
  rw [recordsOf, List.mem_flatMap]
  constructor
  · rintro ⟨⟨s, i⟩, hs, hr⟩
    unfold Surroundings.importsOf at hr
    split at hr
    · exact absurd hr List.not_mem_nil
    · rename_i text htext
      obtain ⟨specifier, hspecifier, rfl⟩ := List.mem_map.1 hr
      exact ⟨s, List.mk_mem_zipIdx_iff_getElem?.1 hs, ⟨text, htext, hspecifier⟩, rfl⟩
  · rintro ⟨s, hs, ⟨text, htext, hspecifier⟩, houtcome⟩
    refine ⟨(s, r.importer), List.mk_mem_zipIdx_iff_getElem?.2 hs, ?_⟩
    simp only [Surroundings.importsOf, htext]
    refine List.mem_map.2 ⟨r.specifier, hspecifier, ?_⟩
    rw [← houtcome]

/-- **No import is recorded twice.** -/
theorem nodup_recordsOf (w : Surroundings) (sources : List SourceFile) :
    ((recordsOf w sources).map fun r => (r.importer, r.specifier)).Nodup := by
  rw [recordsOf, List.map_flatMap]
  have himporter : ∀ s : SourceFile × Nat, ∀ k ∈ (w.importsOf s.2 s.1).map
      (fun r => (r.importer, r.specifier)), k.1 = s.2 := by
    intro s k hk
    obtain ⟨r, hr, rfl⟩ := List.mem_map.1 hk
    unfold Surroundings.importsOf at hr
    split at hr
    · exact absurd hr List.not_mem_nil
    · obtain ⟨specifier, -, rfl⟩ := List.mem_map.1 hr
      rfl
  refine List.nodup_flatMap.2 ⟨fun s _ => ?_, ?_⟩
  · unfold Surroundings.importsOf
    split
    · exact .nil
    · rename_i text _
      rw [List.map_map]
      exact (nodup_eraseDups _).map fun a b heq => (Prod.mk.inj heq).2
  · have hnumbers : (sources.zipIdx.map Prod.snd).Nodup := by
      rw [List.zipIdx_map_snd]
      exact List.nodup_range'
    refine (List.pairwise_map.1 hnumbers).imp fun {s s'} hne k hk hk' => hne ?_
    rw [← himporter s k hk, himporter s' k hk']

end Graph

/-- The graph of a project with a directory for its sources. -/
theorem ImportGraph.build_eq_assemble {files : Files} {root : Path} {c : Contract}
    {entries : List (String × Entry)} {all : List FoundFile} {configs : List Graph.AliasConfig}
    (hfind : files.find (c.sourceDirectory root) = .ok (.directory entries))
    (hall : files.walk root = .ok all)
    (hconfigs : Graph.AliasConfig.readAll files root = .ok configs) :
    ImportGraph.build files root c = .ok
      (Graph.assemble c root (filesOfEntries (c.sourceDirectory root) entries) all configs) := by
  rw [ImportGraph.build, if_pos (Files.isDirectory_iff.2 ⟨entries, hfind⟩), Files.walk_eq hfind,
    hall, hconfigs]
  rfl

/-- A graph that is built is empty, or that of the sources below the directory of
the source root. -/
theorem ImportGraph.build_cases {files : Files} {root : Path} {c : Contract} {g : ImportGraph}
    (h : ImportGraph.build files root c = .ok g) :
    (files.isDirectory (c.sourceDirectory root) = false ∧ g = .empty) ∨
      ∃ entries all configs, files.find (c.sourceDirectory root) = .ok (.directory entries) ∧
        files.walk root = .ok all ∧ Graph.AliasConfig.readAll files root = .ok configs ∧
        g = Graph.assemble c root (filesOfEntries (c.sourceDirectory root) entries) all
          configs := by
  unfold ImportGraph.build at h
  split at h
  · rename_i hdirectory
    obtain ⟨entries, hfind⟩ := Files.isDirectory_iff.1 hdirectory
    obtain ⟨below, hbelow, h⟩ := bind_eq_ok h
    obtain ⟨all, hall, h⟩ := bind_eq_ok h
    obtain ⟨configs, hconfigs, h⟩ := bind_eq_ok h
    rw [Files.walk_eq hfind] at hbelow
    obtain rfl := Except.ok.inj hbelow
    exact .inr ⟨entries, all, configs, hfind, hall, hconfigs, (Except.ok.inj h).symm⟩
  · rename_i hdirectory
    exact .inl ⟨Bool.eq_false_iff.2 hdirectory, (Except.ok.inj h).symm⟩

end Strata
