/-
# What the scans of modules find

A scan of the layout reports a missing layer for each module and each required
layer that the module lacks (`Structure.missing_iff`); the scan of the tests reports
what the scans of the modules report, under their names (`Tests.mem_scan_iff`).
-/

import Strata.Failure.Diagnosis
import Strata.Proofs.Validator.Modules
import Strata.Proofs.Validator.Regular

namespace Strata

open Text

variable {files : Files} {root : Path} {c : Contract} {vs : List Violation}

/-- A module that the validators see. -/
def IsModule (files : Files) (root : Path) (c : Contract) (d : ModuleDirectory) : Prop :=
  ∃ modules, moduleDirectories files root c = .ok modules ∧ d ∈ modules

/-- The modules of a project are those that are listed. -/
theorem isModule_iff {modules : List ModuleDirectory}
    (h : moduleDirectories files root c = .ok modules) {d : ModuleDirectory} :
    IsModule files root c d ↔ d ∈ modules := by
  constructor
  · rintro ⟨modules', h', hd⟩
    rwa [Except.ok.inj (h.symm.trans h')]
  · exact fun hd => ⟨modules, h, hd⟩

namespace IsModule

variable {d : ModuleDirectory}

/-- A module has the name of an entry. -/
theorem isName (hwell : files.top.WellNamed) (h : IsModule files root c d) : IsName d.name := by
  obtain ⟨modules, hmodules, hd⟩ := h
  obtain ⟨listing, hfind, hlisted⟩ := exists_listing hmodules hd
  obtain ⟨inner, hmem, -, -⟩ := mem_modulesIn.1 hlisted
  exact (Files.wellNamed_of_find hwell hfind).isName hmem

/-- A module that can be walked is a directory. -/
theorem isDirectory (hwell : files.top.WellNamed) (h : IsModule files root c d)
    {found : List FoundFile} (hwalk : files.walk d.path = .ok found) :
    ∃ entries, files.find d.path = .ok (.directory entries) := by
  obtain ⟨modules, hmodules, hd⟩ := h
  obtain ⟨listing, hfind, hlisted⟩ := exists_listing hmodules hd
  obtain ⟨inner, hmem, -, hpath⟩ := mem_modulesIn.1 hlisted
  have hlisting := Files.wellNamed_of_find hwell hfind
  rw [hpath] at hwalk ⊢
  exact ⟨inner, Files.find_child_of_walk hfind hlisting hmem hwalk⟩

end IsModule

/-! ### The layout -/

/-- A module lacks a layer that every module has to have. -/
structure Lacks (files : Files) (root : Path) (c : Contract) (d : ModuleDirectory)
    (layer : String) : Prop where
  source : files.isDirectory (c.sourceDirectory root) = true
  isModule : IsModule files root c d
  required : layer ∈ c.requiredModuleLayers
  missing : files.isDirectory (d.path.join ⟨layer⟩) = false

namespace Structure

/-- The missing layers that a scan of one module reports are the required ones that are no
directories in it. -/
theorem missing_scanModule_iff {d : ModuleDirectory} (h : scanModule files c d = .ok vs)
    {v : Violation} :
    v ∈ vs ∧ v.ruleId = Rule.moduleMissingLayer.id ↔
      ∃ layer ∈ c.requiredModuleLayers, files.isDirectory (d.path.join ⟨layer⟩) = false ∧
        v = missingLayer c d.name layer := by
  have hmissing : v ∈ (missingLayers files c d.path).map (missingLayer c d.name) ↔
      ∃ layer ∈ c.requiredModuleLayers, files.isDirectory (d.path.join ⟨layer⟩) = false ∧
        v = missingLayer c d.name layer := by
    simp [missingLayers, and_assoc, eq_comm (a := v)]
  have hrule : ∀ layer, v = missingLayer c d.name layer →
      v.ruleId = Rule.moduleMissingLayer.id := by
    rintro layer rfl
    rfl
  have hempty : v = moduleEmpty c d.name → v.ruleId ≠ Rule.moduleMissingLayer.id := by
    rintro rfl
    have hne : Rule.moduleEmpty ≠ .moduleMissingLayer := by decide
    exact Rule.id_ne hne
  obtain ⟨found, -, h⟩ := bind_eq_ok h
  rw [← hmissing]
  -- with source files only missing layers are reported; without them the module is empty as well,
  -- which is another rule
  split at h
  · obtain rfl := Except.ok.inj h
    refine and_iff_left_of_imp fun hv => ?_
    obtain ⟨layer, -, -, heq⟩ := hmissing.1 hv
    exact hrule layer heq
  · obtain rfl := Except.ok.inj h
    rw [List.mem_append, List.mem_singleton]
    constructor
    · rintro ⟨hv | hv, hid⟩
      · exact hv
      · exact absurd hid (hempty hv)
    · intro hv
      obtain ⟨layer, -, -, heq⟩ := hmissing.1 hv
      exact ⟨.inl hv, hrule layer heq⟩

/-- **The missing layers that a scan of the layout reports** are those that modules
lack. -/
theorem missing_iff (h : scan files root c = .ok vs) {v : Violation} :
    v ∈ vs ∧ v.ruleId = Rule.moduleMissingLayer.id ↔
      ∃ d layer, Lacks files root c d layer ∧ v = missingLayer c d.name layer := by
  unfold scan at h
  -- without a source root there is no module that could lack a layer
  split at h
  · rename_i hsource
    obtain ⟨modules, hmodules, h⟩ := bind_eq_ok h
    obtain ⟨vss, hvss, h⟩ := bind_eq_ok h
    obtain rfl := Except.ok.inj h
    rw [mem_flatten_of_mapM hvss]
    constructor
    · rintro ⟨⟨d, hd, ys, hys, hv⟩, hid⟩
      obtain ⟨layer, hrequired, hmissing, rfl⟩ := (missing_scanModule_iff hys).1 ⟨hv, hid⟩
      exact ⟨d, layer, ⟨hsource, ⟨modules, hmodules, hd⟩, hrequired, hmissing⟩, rfl⟩
    · rintro ⟨d, layer, hlacks, rfl⟩
      have hd := (isModule_iff hmodules).1 hlacks.isModule
      obtain ⟨ys, hys⟩ := exists_of_mapM hvss hd
      obtain ⟨hv, hid⟩ := (missing_scanModule_iff hys).2
        ⟨layer, hlacks.required, hlacks.missing, rfl⟩
      exact ⟨⟨d, hd, ys, hys, hv⟩, hid⟩
  · rename_i hsource
    obtain rfl := Except.ok.inj h
    constructor
    · rintro ⟨hv, hid⟩
      rw [List.mem_singleton.1 hv] at hid
      have hne : Rule.sourceRootMissing ≠ .moduleMissingLayer := by decide
      exact absurd hid (Rule.id_ne hne)
    · rintro ⟨d, layer, hlacks, -⟩
      exact absurd hlacks.source hsource

/-- No module lacks the layer without a name: its directory is that of the module. -/
theorem layer_ne_empty_of_lacks (hwell : files.top.WellNamed) (h : scan files root c = .ok vs)
    {d : ModuleDirectory} {layer : String} (hlacks : Lacks files root c d layer) :
    layer ≠ "" := by
  rintro rfl
  unfold scan at h
  rw [if_pos hlacks.source] at h
  obtain ⟨modules, hmodules, h⟩ := bind_eq_ok h
  obtain ⟨vss, hvss, -⟩ := bind_eq_ok h
  obtain ⟨ys, hys⟩ := exists_of_mapM hvss ((isModule_iff hmodules).1 hlacks.isModule)
  obtain ⟨found, hwalk, -⟩ := bind_eq_ok hys
  obtain ⟨entries, hfind⟩ := hlacks.isModule.isDirectory hwell hwalk
  have hdirectory := Files.isDirectory_iff.2 ⟨entries, Files.find_join_empty hfind⟩
  rw [hlacks.missing] at hdirectory
  cases hdirectory

end Structure

/-! ### Tests -/

namespace Tests

/-- Every violation about tests has its module as the target. -/
theorem target_of_mem_scanModule {d : ModuleDirectory} (h : scanModule files root c d = .ok vs)
    {v : Violation} (hv : v ∈ vs) : v.target = some d.name := by
  rcases scanModule_cases h hv with rfl | ⟨file, rfl⟩ <;> rfl

/-- **What a scan of the tests reports** is what is wrong with the tests of each
module. -/
theorem mem_scan_iff (h : scan files root c = .ok vs) {v : Violation} :
    v ∈ vs ↔ ∃ d, IsModule files root c d ∧ ∃ found, scanModule files root c d = .ok found ∧
      v ∈ found := by
  obtain ⟨modules, hmodules, h⟩ := bind_eq_ok h
  obtain ⟨vss, hvss, h⟩ := bind_eq_ok h
  obtain rfl := Except.ok.inj h
  rw [mem_flatten_of_mapM hvss]
  exact exists_congr fun d => and_congr_left' (isModule_iff hmodules).symm

end Tests

/-! ### Names in paths -/

/-- The path of a module ends with its name. -/
theorem lastSegment_modulePath {m : String} (h : IsName m) :
    Diagnosis.lastSegment (c.modulePath m) = m := by
  have hpath : (c.modulePath m).toList =
      (c.sourceRoot ++ "/" ++ c.moduleContainer).toList ++ '/' :: m.toList := by
    simp [Contract.modulePath, toString]
  have hlast : dropTrailing (· == '/') (c.modulePath m).toList = (c.modulePath m).toList := by
    refine dropTrailing_eq_self fun x hx => ?_
    rw [hpath, List.getLast?_append_cons, List.getLast?_cons_of_ne_nil h.toList_ne_nil] at hx
    have hne : x ≠ '/' := fun heq => h.2.2.2 (heq ▸ List.mem_of_getLast? hx)
    simpa using hne
  rw [Diagnosis.lastSegment, hlast, hpath, splitOn, splitWhere_append_cons (by simp)]
  have hname : splitWhere (· == '/') m.toList = [m.toList] := Path.splitOn_name h
  rw [hname]
  simp

end Strata
