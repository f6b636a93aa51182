/-
# Walks of the same tree

A walk finds the same files in whatever order the directories list their entries
(`Relisted.walk_perm`), and no two of them with the same steps
(`WellNamed.distinct`). So the files are the same once they are sorted by path
(`sortByPath_eq`).
-/

import Mathlib.Data.List.Nodup
import Strata.Proofs.Tree.Relisting
import Strata.Tree.Walk

namespace Strata

/-- The files of a directory are those of its entries, one entry after the other. -/
theorem filesOfEntries_eq (dir : Path) (entries : List (String × Entry)) :
    filesOfEntries dir entries = entries.flatMap fun e => filesOfEntry dir e.1 e.2 := by
  induction entries with
  | nil => rfl
  | cons e rest ih =>
    obtain ⟨name, entry⟩ := e
    rw [filesOfEntries, ih, List.flatMap_cons]

/-- A directory is entered unless its name is skipped. -/
theorem filesOfEntry_directory (dir : Path) (name : String) (entries : List (String × Entry)) :
    filesOfEntry dir name (.directory entries) =
      if isSkippedDirectory name then [] else filesOfEntries (dir.child name) entries := by
  rw [filesOfEntry]

/-- No two of the files have the same steps. -/
def Distinct (found : List FoundFile) : Prop := (found.map fun f => f.path.components).Nodup

/-- Files with the same steps are the same file. -/
theorem Distinct.eq_of_components {found : List FoundFile} (h : Distinct found) {f f' : FoundFile}
    (hf : f ∈ found) (hf' : f' ∈ found) (heq : f.path.components = f'.path.components) : f = f' :=
  List.inj_on_of_nodup_map h hf hf' heq

instance : Std.TransCmp fun f f' : FoundFile => f.path.order f'.path := transCmp_on FoundFile.path

/-- **Sorting by path forgets the order of a walk.** -/
theorem sortByPath_eq {found found' : List FoundFile} (h : found.Perm found')
    (hdistinct : Distinct found) : sortByPath found = sortByPath found' :=
  mergeSort_eq_of_perm h fun _ hf _ hf' heq =>
    hdistinct.eq_of_components hf hf' (Path.components_eq_of_order_eq heq)

namespace Entry

/-- **A walk finds the same files in another order.** -/
theorem Relisted.walk_perm {a b : Entry} (h : a.Relisted b) :
    ∀ dir, (filesOfEntries dir a.entries).Perm (filesOfEntries dir b.entries) := by
  induction h with
  | refl a => exact fun _ => .refl _
  | trans _ _ ih ih' => exact fun dir => (ih dir).trans (ih' dir)
  | permute hperm =>
    intro dir
    rw [filesOfEntries_eq, filesOfEntries_eq]
    exact hperm.flatMap_right _
  | @inside before after name a b hab ih =>
    intro dir
    have hinner : (filesOfEntry dir name a).Perm (filesOfEntry dir name b) := by
      rcases hab.cases with ⟨text, rfl, rfl⟩ | ⟨entries, entries', rfl, rfl⟩
      · exact .refl _
      · rw [filesOfEntry_directory, filesOfEntry_directory]
        split
        · exact .refl _
        · exact ih (dir.child name)
    rw [filesOfEntries_eq, filesOfEntries_eq]
    simp only [entries, List.flatMap_append, List.flatMap_cons]
    exact (List.Perm.refl _).append (hinner.append (.refl _))

/-- What a walk finds lies below one of the names of the listing. -/
theorem WellNamed.found_below {a : Entry} (h : a.WellNamed) :
    ∀ dir, ∀ e ∈ a.entries, ∀ f ∈ filesOfEntry dir e.1 e.2,
      dir.components ++ [.name e.1] <+: f.path.components := by
  induction h with
  | file => exact fun _ _ he => absurd he List.not_mem_nil
  | @directory entries hnodup hname hinner ih =>
    intro dir e he f hf
    obtain ⟨name, entry⟩ := e
    have hchild := Path.components_child dir (hname _ he)
    cases entry with
    | file text =>
      rw [filesOfEntry] at hf
      rw [List.mem_singleton.1 hf]
      exact hchild ▸ List.prefix_refl _
    | directory inner =>
      rw [filesOfEntry_directory] at hf
      split at hf
      · exact absurd hf List.not_mem_nil
      · rw [filesOfEntries_eq] at hf
        obtain ⟨e', he', hf⟩ := List.mem_flatMap.1 hf
        have hprefix := ih _ he (dir.child name) e' he' f hf
        rw [hchild] at hprefix
        exact (List.prefix_append _ _).trans hprefix

/-- **A walk finds no two files with the same steps.** -/
theorem WellNamed.distinct {a : Entry} (h : a.WellNamed) :
    ∀ dir, Distinct (filesOfEntries dir a.entries) := by
  induction h with
  | file => exact fun _ => .nil
  | @directory entries hnodup hname hinner ih =>
    intro dir
    have hprefix := (WellNamed.directory hnodup hname hinner).found_below dir
    have hnames : entries.Pairwise fun e e' => e.1 ≠ e'.1 := List.pairwise_map.1 hnodup
    unfold Distinct
    rw [filesOfEntries_eq, List.map_flatMap]
    refine List.nodup_flatMap.2 ⟨fun e he => ?_, hnames.imp_of_mem fun {e e'} he he' hne => ?_⟩
    · -- the files below one entry, by induction on the tree
      obtain ⟨name, entry⟩ := e
      cases entry with
      | file text =>
        rw [filesOfEntry]
        exact List.nodup_singleton _
      | directory inner =>
        rw [filesOfEntry_directory]
        split
        · exact .nil
        · exact ih _ he (dir.child name)
    · -- steps behind different names differ where the names stand
      intro steps hsteps hsteps'
      obtain ⟨f, hf, rfl⟩ := List.mem_map.1 hsteps
      obtain ⟨f', hf', heq⟩ := List.mem_map.1 hsteps'
      have h1 := hprefix e he f hf
      have h2 := hprefix e' he' f' hf'
      rw [heq] at h2
      have hlen : (dir.components ++ [Component.name e.1]).length =
          (dir.components ++ [Component.name e'.1]).length := by simp
      have hsame := (List.prefix_of_prefix_length_le h1 h2 (Nat.le_of_eq hlen)).eq_of_length hlen
      have hlast := List.append_cancel_left hsame
      exact hne (Component.name.inj (List.head_eq_of_cons_eq hlast))

end Entry

namespace Files

/-- The same tree has the same files below a path, in some order. -/
theorem SameTree.walk {files files' : Files} (h : files.SameTree files') (dir : Path) :
    Matches (fun found found' => found.Perm found' ∧ Distinct found) (files.walk dir)
      (files'.walk dir) := by
  refine (h.list? dir).bind fun x y hxy => ?_
  cases hxy with
  | none => exact .ok ⟨.nil, .nil⟩
  | some hlisting =>
    exact .ok ⟨hlisting.relisted.walk_perm dir, hlisting.wellNamed.distinct dir⟩

end Files

end Strata
