/-
# Scans of the same tree

Specification, section 4.4: two runs give the same report.

What a registered validator reports does not depend on the order in which
directories list their entries, but for the order of the violations
(`Validator.scan_matches`). The structure is scanned module by module, and the
modules are sorted by name; the other scans go over files of a walk.
-/

import Strata.Proofs.Tree.Walk
import Strata.Validator.Union

namespace Strata

/-- The names of a listing, and which of them are directories. -/
def namesAndKinds (entries : List (String × Entry)) : List (String × Bool) :=
  entries.map fun e => (e.1, e.2.isDirectory)

/-- **A directory lists the same names in another order.** -/
theorem Entry.Relisted.namesAndKinds_perm {a b : Entry} (h : a.Relisted b) :
    (namesAndKinds a.entries).Perm (namesAndKinds b.entries) := by
  induction h with
  | refl => exact .refl _
  | trans _ _ ih ih' => exact ih.trans ih'
  | permute hperm => exact hperm.map _
  | inside hab => simp [namesAndKinds, entries, hab.isDirectory]

/-! ### Modules -/

/-- The modules that a listing of the container holds. -/
def modulesIn (container : Path) (entries : List (String × Entry)) : List ModuleDirectory :=
  (entries.filter fun e => e.2.isDirectory && !Text.startsWith "." e.1).map fun e =>
    ⟨e.1, container.child e.1⟩

/-- The modules of a directory depend on the names and kinds of its entries alone. -/
theorem modulesIn_eq (container : Path) (entries : List (String × Entry)) :
    modulesIn container entries =
      ((namesAndKinds entries).filter fun e => e.2 && !Text.startsWith "." e.1).map fun e =>
        ⟨e.1, container.child e.1⟩ := by
  rw [modulesIn, namesAndKinds, List.filter_map, List.map_map]
  rfl

instance : Std.TransCmp ModuleDirectory.order :=
  have : Std.TransCmp fun a b : ModuleDirectory => a.path.order b.path :=
    transCmp_on ModuleDirectory.path
  inferInstanceAs (Std.TransCmp (compareLex (compareOn ModuleDirectory.name)
    fun a b => a.path.order b.path))

/-- Sorted, they do not depend on the order of the entries. -/
theorem sort_modulesIn_eq (container : Path) {entries entries' : List (String × Entry)}
    (h : Files.SameListing entries entries') :
    (modulesIn container entries).mergeSort (fun a b => (a.order b).isLE) =
      (modulesIn container entries').mergeSort (fun a b => (a.order b).isLE) := by
  have hperm : (modulesIn container entries).Perm (modulesIn container entries') := by
    rw [modulesIn_eq, modulesIn_eq]
    exact ((h.relisted.namesAndKinds_perm).filter _).map _
  have hpath : ∀ m ∈ modulesIn container entries, m.path = container.child m.name := by
    intro m hm
    obtain ⟨e, -, rfl⟩ := List.mem_map.1 hm
    rfl
  refine mergeSort_eq_of_perm hperm fun m hm m' hm' heq => ?_
  have hname : m.name = m'.name := Std.LawfulEqOrd.eq_of_compare (Ordering.then_eq_eq.1 heq).1
  have hsame : m.path = m'.path := by rw [hpath m hm, hpath m' hm', hname]
  cases m
  cases m'
  simp_all

variable {files files' : Files} (h : files.SameTree files')
include h

/-- The modules of a project are the same, in the same order. -/
theorem moduleDirectories_eq (root : Path) (c : Contract) :
    moduleDirectories files root c = moduleDirectories files' root c := by
  refine Matches.eq ?_
  refine (h.list? (c.containerDirectory root)).bind fun x y hxy => ?_
  refine .ok (sort_modulesIn_eq _ (?_ : Files.SameListing (x.getD []) (y.getD [])))
  cases hxy with
  | none => exact .nil
  | some hlisting => exact hlisting

namespace Structure

/-- The layout of a module is looked up by names, so its findings are the same. -/
theorem scanModule_eq (c : Contract) (m : ModuleDirectory) :
    scanModule files c m = scanModule files' c m := by
  have hmissing : missingLayers files c m.path = missingLayers files' c m.path := by
    rw [missingLayers, missingLayers]
    simp only [h.isDirectory]
  unfold scanModule
  rw [hmissing]
  refine Matches.eq ((h.walk m.path).bind fun found found' ⟨hfound, _⟩ => ?_)
  rw [hfound.any_eq]
  exact .refl _

/-- The findings about the layout are the same, in the same order. -/
theorem scan_eq (root : Path) (c : Contract) : scan files root c = scan files' root c := by
  have hscan : scanModule files c = scanModule files' c := funext (scanModule_eq h c)
  unfold scan
  rw [h.isDirectory, moduleDirectories_eq h, hscan]

end Structure

omit h in
/-- The sources are the same in some order. -/
theorem selectProduction_perm (root : Path) {found found' : List FoundFile}
    (hperm : found.Perm found') :
    (selectProduction root found).Perm (selectProduction root found') := by
  unfold selectProduction
  refine (List.mergeSort_perm _ _).trans (.trans ?_ (List.mergeSort_perm _ _).symm)
  exact ((hperm.filter _).map _).filter _

omit h in
/-- Sorting by path keeps all files that were found. -/
theorem sortByPath_perm {found found' : List FoundFile} (hperm : found.Perm found') :
    (sortByPath found).Perm (sortByPath found') :=
  (List.mergeSort_perm _ _).trans (hperm.trans (List.mergeSort_perm _ _).symm)

/-- The findings about the sources are the same in some order. -/
theorem Coupling.scan_matches (root : Path) (c : Contract) :
    Matches List.Perm (scan files root c) (scan files' root c) := by
  refine Matches.bind (R := List.Perm) ?_ fun sources sources' hsources => ?_
  · exact (h.walk _).bind fun found found' ⟨hfound, _⟩ => .ok (selectProduction_perm root hfound)
  · exact .ok (hsources.flatMap_right _)

/-- The findings about security are the same in some order. -/
theorem Security.scan_matches (root : Path) (c : Contract) :
    Matches List.Perm (scan files root c) (scan files' root c) := by
  have henv : scanEnv files root = scanEnv files' root := by
    unfold scanEnv
    rw [h.isFile, h.readSource]
  refine (h.walk _).bind fun found found' ⟨hfound, _⟩ => ?_
  rw [henv]
  refine (Matches.refl _).bind fun env env' heq => ?_
  subst heq
  exact .ok (((sortByPath_perm (hfound.filter _)).flatMap_right _).append (.refl _))

namespace Tests

/-- The tests of a module are the same in some order. -/
theorem testFilesIn_matches (dir : Path) :
    Matches List.Perm (testFilesIn files dir) (testFilesIn files' dir) :=
  (h.walk dir).bind fun _ _ ⟨hfound, _⟩ => .ok (sortByPath_perm (hfound.filter _))

/-- The findings about the tests of a module are the same in some order. -/
theorem scanModule_matches (root : Path) (c : Contract) (m : ModuleDirectory) :
    Matches List.Perm (scanModule files root c m) (scanModule files' root c m) := by
  have htests : Matches List.Perm (testFilesOf files root m) (testFilesOf files' root m) := by
    refine (testFilesIn_matches h m.path).bind fun _ _ hinside => ?_
    refine (testFilesIn_matches h _).bind fun _ _ hbeside => ?_
    exact .ok (hinside.append hbeside)
  refine htests.bind fun tests tests' hperm => ?_
  cases tests with
  | nil =>
    obtain rfl := hperm.nil_eq
    exact .ok (.refl _)
  | cons f rest =>
    cases tests' with
    | nil => exact absurd hperm.eq_nil (by simp)
    | cons f' rest' => exact .ok (hperm.filterMap _)

/-- The findings about all tests are the same in some order. -/
theorem scan_matches (root : Path) (c : Contract) :
    Matches List.Perm (scan files root c) (scan files' root c) := by
  unfold scan
  rw [moduleDirectories_eq h]
  refine (Matches.refl _).bind fun modules modules' heq => ?_
  subst heq
  refine (Matches.mapM fun m _ => scanModule_matches h root c m).bind fun vss vss' hvss => ?_
  exact .ok (flatten_perm hvss)

end Tests

/-- **A registered validator reports the same in every order of the listings.** -/
theorem Validator.scan_matches {v : Validator} (hv : v ∈ registered) (root : Path)
    (c : Contract) : Matches List.Perm (v.scan files root c) (v.scan files' root c) := by
  simp only [registered, List.mem_cons, List.not_mem_nil, or_false] at hv
  rcases hv with rfl | rfl | rfl | rfl
  · dsimp only
    rw [Structure.scan_eq h]
    exact (Matches.refl _).mono fun _ _ heq => .of_eq heq
  · exact Coupling.scan_matches h root c
  · exact Security.scan_matches h root c
  · exact Tests.scan_matches h root c

end Strata
