/-
# The graph of the same tree

Specification, section 4.4: two runs give the same report.

The import graph of a project does not depend on the order in which directories
list their entries: what is built from a walk is built from the files sorted by
path, or from the set of their paths or names (`build_eq_of_sameTree`).
-/

import Strata.Graph.Build
import Strata.Proofs.Tree.Walk

namespace Strata

/-- The set of some texts does not depend on their order. -/
theorem Text.ordered_eq_of_perm {texts texts' : List String} (h : texts.Perm texts') :
    Text.ordered texts = Text.ordered texts' := by
  refine eq_of_increasing (fun a b => String.lt_asymm) (Text.pairwise_ordered texts)
    (Text.pairwise_ordered texts') fun t => ?_
  rw [Text.mem_ordered, Text.mem_ordered, h.mem_iff]

namespace Graph

/-- Which paths are known does not depend on the order of the files. -/
theorem contains_knownPaths_eq {all all' : List FoundFile} (h : all.Perm all') (path : String) :
    (knownPaths all).contains path = (knownPaths all').contains path := by
  rw [knownPaths, knownPaths, Std.TreeSet.contains_ofList, Std.TreeSet.contains_ofList]
  exact (h.map _).contains_eq

/-- The directories in the source root do not depend on the order of the files. -/
theorem sourceDirectories_eq (source : Path) {below below' : List FoundFile}
    (h : below.Perm below') : sourceDirectories source below = sourceDirectories source below' :=
  Text.ordered_eq_of_perm (h.filterMap _)

/-- What an import is judged by does not depend on the order of the files. -/
theorem surroundingsOf_eq (c : Contract) (root : Path) {below below' all all' : List FoundFile}
    (hbelow : below.Perm below') (hall : all.Perm all') (configs : List AliasConfig)
    (sources : List SourceFile) :
    surroundingsOf c root below all configs sources =
      surroundingsOf c root below' all' configs sources := by
  unfold surroundingsOf
  simp only [contains_knownPaths_eq hall, sourceDirectories_eq _ hbelow]

/-- The graph of a walk does not depend on the order of the files. -/
theorem assemble_eq (c : Contract) (root : Path) {below below' all all' : List FoundFile}
    (hbelow : below.Perm below') (hdistinct : Distinct below) (hall : all.Perm all')
    (configs : List AliasConfig) :
    assemble c root below all configs = assemble c root below' all' configs := by
  unfold assemble
  rw [sortByPath_eq hbelow hdistinct]
  simp only [surroundingsOf_eq c root hbelow hall]

end Graph

variable {files files' : Files} (h : files.SameTree files')
include h

/-- The same tree has the same configurations. -/
theorem Graph.AliasConfig.readAll_eq (root : Path) :
    readAll files root = readAll files' root := by
  have hread : read files root = read files' root := by
    funext file
    rw [read, read, h.readText]
  rw [readAll, readAll, hread]

/-- **The graph of a project is the same in every order of the listings.** -/
theorem ImportGraph.build_eq_of_sameTree (root : Path) (c : Contract) :
    ImportGraph.build files root c = ImportGraph.build files' root c := by
  unfold ImportGraph.build
  rw [h.isDirectory]
  split
  · refine Matches.eq ?_
    refine (h.walk (c.sourceDirectory root)).bind fun below below' ⟨hbelow, hdistinct⟩ => ?_
    refine (h.walk root).bind fun all all' ⟨hall, _⟩ => ?_
    rw [Graph.AliasConfig.readAll_eq h]
    refine (Matches.refl _).bind fun configs configs' hconfigs => ?_
    subst hconfigs
    exact .ok (Graph.assemble_eq c root hbelow hdistinct hall configs)
  · rfl

end Strata
