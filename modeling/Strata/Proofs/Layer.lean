/-
# The class of a file

Specification, section 4.1: classes that files can have.

The segments of the path of a file, seen from the project root, are the names that
lead there (`pathSegments_join`). Below the source root, only the module container
has files that are out of scope (`classifyInRoot_eq_outOfScope_iff`), and a file has a
module exactly when it lies deeper in the container (`module?_classifyInRoot_iff`).
-/

import Mathlib.Data.List.TakeWhile
import Strata.Layer
import Strata.Proofs.Path.Descent
import Strata.Source

namespace Strata

open Text

/-- **The segments of names with slashes between them are the names.** -/
theorem pathSegments_join {names : List String} (h : AreNames names)
    (hplain : ∀ name ∈ names, '\\' ∉ name.toList) : pathSegments (join "/" names) = names := by
  by_cases hnil : names = []
  · subst hnil
    rfl
  · have hsplit : splitOn '/' (forwardSlashes (join "/" names).toList) = partsOfNames names := by
      have htext : (join "/" names).toList = joinChars ['/'] (partsOfNames names) :=
        String.toList_ofList
      rw [htext, forwardSlashes_joinChars, Path.map_forwardSlashes_partsOfNames hplain]
      refine splitOn_joinChars (by simpa [partsOfNames] using hnil) fun part hpart => ?_
      obtain ⟨name, hname, rfl⟩ := List.mem_map.1 hpart
      exact (h name hname).2.2.2
    have hkeep : (partsOfNames names).filter (fun s => s ≠ [] ∧ s ≠ ['.']) =
        partsOfNames names := by
      refine List.filter_eq_self.2 fun part hpart => ?_
      obtain ⟨name, hname, rfl⟩ := List.mem_map.1 hpart
      have hdot : name.toList ≠ ['.'] := fun heq => (h name hname).2.1 (String.toList_inj.1 heq)
      simpa using ⟨(h name hname).1, hdot⟩
    rw [pathSegments, hsplit, hkeep, partsOfNames, List.map_map]
    simp [Function.comp_def]

/-- A name with an extension looks like a file. -/
theorem looksLikeFile_of_cutExtension {name : List Char} {e : List Char}
    (h : (Path.cutExtension name).2 = some e) : '.' ∈ name := by
  by_contra hdot
  have htail : name.reverse.takeWhile (· != '.') = name.reverse := by
    rw [List.takeWhile_eq_self_iff]
    intro c hc
    have hne : c ≠ '.' := fun heq => hdot (heq ▸ List.mem_reverse.1 hc)
    simpa using hne
  rw [Path.cutExtension, htail] at h
  simp at h

/-- The name of a code file looks like a file. -/
theorem looksLikeFile_of_isCodeFile {dir : Path} {inner : List String} {name : String}
    (hnames : AreNames (inner ++ [name])) (h : isCodeFile (dir.descend (inner ++ [name])) = true) :
    looksLikeFile name = true := by
  have hfile : (dir.descend (inner ++ [name])).fileName? = some name := by
    rw [Path.fileName?, Path.components_descend dir hnames]
    simp
  rw [isCodeFile, Path.extension?, hfile] at h
  cases hcut : (Path.cutExtension name.toList).2 with
  | none => simp [hcut] at h
  | some e => exact List.contains_iff_mem.2 (looksLikeFile_of_cutExtension hcut)

namespace Contract

variable {c : Contract} {rest : List String}

/-- Behind a module a path is never out of scope. -/
theorem classifyInModule_ne_outOfScope (module : String) (segments : List String) :
    c.classifyInModule module segments ≠ .outOfScope := by
  unfold classifyInModule
  split
  · exact PathClass.noConfusion
  · split
    · exact PathClass.noConfusion
    · split <;> exact PathClass.noConfusion
  · split <;> exact PathClass.noConfusion

theorem module?_classifyInModule (module : String) (segments : List String) :
    (c.classifyInModule module segments).module? = some module := by
  unfold classifyInModule
  split
  · rfl
  · split
    · rfl
    · split <;> rfl
  · split <;> rfl

/-- Beside the module container nothing is out of scope, and nothing has a module. -/
theorem classifyInRoot_beside {first : String} (h : first ≠ c.moduleContainer)
    (inner : List String) :
    c.classifyInRoot (first :: inner) ≠ .outOfScope ∧
      (c.classifyInRoot (first :: inner)).module? = none := by
  rw [classifyInRoot, if_neg h]
  split
  · exact ⟨PathClass.noConfusion, rfl⟩
  · split <;> exact ⟨PathClass.noConfusion, rfl⟩

/-- **What is out of scope in the source root.** A file is when it lies directly in
the module container, or has its name. -/
theorem classifyInRoot_eq_outOfScope_iff (hne : rest ≠ [])
    (hfile : ∀ name, rest.getLast? = some name → looksLikeFile name = true) :
    c.classifyInRoot rest = .outOfScope ↔
      rest = [c.moduleContainer] ∨ ∃ name, rest = [c.moduleContainer, name] := by
  obtain ⟨first, inner, rfl⟩ := List.exists_cons_of_ne_nil hne
  by_cases hfirst : first = c.moduleContainer
  · subst hfirst
    match inner, hfile with
    | [], _ => simp [classifyInRoot, classifyInContainer]
    | [name], hfile => simp [classifyInRoot, classifyInContainer, hfile name rfl]
    | name :: segment :: more, _ =>
      simpa [classifyInRoot, classifyInContainer] using
        classifyInModule_ne_outOfScope name (segment :: more)
  · exact iff_of_false (classifyInRoot_beside hfirst inner).1 (by simp [hfirst])

/-- **Which module a file in the source root has.** It lies in the directory of the
module in the container, directly or deeper. -/
theorem module?_classifyInRoot_iff {module : String}
    (hfile : ∀ name, rest.getLast? = some name → looksLikeFile name = true) :
    (c.classifyInRoot rest).module? = some module ↔
      ∃ more, more ≠ [] ∧ rest = c.moduleContainer :: module :: more := by
  cases rest with
  | nil => simp [classifyInRoot, PathClass.module?]
  | cons first inner =>
    by_cases hfirst : first = c.moduleContainer
    · subst hfirst
      match inner, hfile with
      | [], _ => simp [classifyInRoot, classifyInContainer, PathClass.module?]
      | [name], hfile =>
        simp [classifyInRoot, classifyInContainer, hfile name rfl, PathClass.module?]
      | name :: segment :: more, _ =>
        simp [classifyInRoot, classifyInContainer, module?_classifyInModule]
    · rw [(classifyInRoot_beside hfirst inner).2]
      exact iff_of_false (by simp) (by simp [hfirst])

end Contract

end Strata
