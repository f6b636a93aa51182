/-
# What a correction may repair

Specification, section 4.6 (a): the prefixes of `architecture_violation` and
`security_baseline`.

A report that is not ok has an intent, and the intent a constraint on the paths that a
correction may touch (`Report.repair`). Under the built-in contract that constraint covers
the files that the report blames:

| blamed by a violation that blocks | may be touched |
| --- | --- |
| a file below `src` | yes, by the prefix `src/`, whatever the intent is about |
| a compiler configuration, for its aliases | no |
| `src`, when it is no directory | it is no file either |

So the only files that a correction is told to repair and may not touch are compiler
configurations (`Report.repair_covers`).
-/

import Strata.Proofs.Correction.Scope
import Strata.Proofs.Failure.Blame
import Strata.Proofs.Failure.Diagnosis
import Strata.Correction.Budget

namespace Strata

open Text Correction

namespace Report

variable {files : Files} {root : Path} {c : Contract} {r : Report}

/-- The constraint on a correction of what a report finds. -/
def repair (c : Contract) (caps : Caps) (r : Report) : Constraint :=
  .derive (.infer (Profile.ofChecks c [r.toCheck]) [r.toCheck]) caps

/-- The intent of a report that is not ok is about security when all that blocks is, and about
architecture otherwise. -/
theorem infer_toCheck (hok : r.ok = false) :
    Intent.infer (Profile.ofChecks c [r.toCheck]) [r.toCheck] =
      if Intent.onlySecurityBlocks r.violations then .securityBaseline
      else .architectureViolation := by
  have hfirst : Check.firstFailed? [r.toCheck] Check.architecture = some r.toCheck :=
    congrArg Diagnosis.Failures.architecture (Diagnosis.failures_toCheck hok)
  rw [Diagnosis.ofChecks_toCheck hok, Intent.infer]
  simp only [Diagnosis.Failures.profile, hfirst, Option.map_some, Option.getD_some, true_and]
  rfl

/-- The prefixes of the constraint of a report. -/
theorem prefixes_repair (hok : r.ok = false) (caps : Caps) :
    (r.repair c caps).allowedPathPrefixes =
      if Intent.onlySecurityBlocks r.violations then ["src/", ".gitignore", ".env.example"]
      else ["src/"] := by
  have hderive : ∀ intent, (Constraint.derive intent caps).allowedPathPrefixes =
      normalizePrefixes (Constraint.budget intent).allowedPathPrefixes := fun _ => rfl
  rw [repair, infer_toCheck hok, hderive]
  split <;> decide +kernel

/-- A violation of another family that blocks is not about security. -/
theorem onlySecurityBlocks_eq_false {v : Violation} (hv : v ∈ r.violations)
    (hblocks : v.isBlocking = true) (hfamily : startsWith Rule.securityFamily v.ruleId = false) :
    Intent.onlySecurityBlocks r.violations = false := by
  have hall : ¬ ((r.violations.filter Violation.isBlocking).all fun v =>
      startsWith Rule.securityFamily v.ruleId) = true := by
    intro hall
    have hsecurity := List.all_eq_true.1 hall v (List.mem_filter.2 ⟨hv, hblocks⟩)
    rw [hfamily] at hsecurity
    cases hsecurity
  simp only [Intent.onlySecurityBlocks, Bool.eq_false_iff.2 hall, Bool.and_false]

/-- Where the aliases of a configuration block, the sources alone may be touched. -/
theorem prefixes_repair_of_config {v : Violation} (hv : v ∈ r.violations)
    (hblocks : v.isBlocking = true) (hrule : v.ruleId = Rule.pathAliasConfig.id)
    (hok : r.ok = false) (caps : Caps) : (r.repair c caps).allowedPathPrefixes = ["src/"] := by
  have hfamily : startsWith Rule.securityFamily v.ruleId = false := by
    rw [hrule]
    decide
  rw [prefixes_repair hok, onlySecurityBlocks_eq_false hv hblocks hfamily]
  rfl

theorem not_pathWithinPrefix_config :
    ∀ file ∈ Graph.aliasConfigFiles, pathWithinPrefix file "src/" = false := by
  decide +kernel

/-- **A correction may touch what it is told to repair.** Under the built-in contract the
constraint of a report covers each file that a violation blames which blocks, but for a compiler
configuration that is blamed for its aliases: that is covered by no prefix. Source:
specification, section 4.6 (a), the prefixes of an intent. -/
theorem repair_covers (hwell : files.top.WellNamed)
    (h : Report.validate files root .standard = .ok r) (caps : Caps) :
    ∀ v ∈ r.violations, v.isBlocking = true → files.isFile (root.join ⟨v.file⟩) = true →
      ((∃ q ∈ (r.repair .standard caps).allowedPathPrefixes, pathWithinPrefix v.file q = true) ↔
        v.ruleId ≠ Rule.pathAliasConfig.id) := by
  intro v hv hblocks hfile
  have hroot : IsName Contract.standard.sourceRoot := by decide
  have hslash : '\\' ∉ Contract.standard.sourceRoot.toList := by decide
  obtain ⟨g, layout, tests, others, hp⟩ := exists_parts h
  have hok := hp.ok_eq_false_of_mem hv hblocks
  cases blames hwell hroot hslash h hv hblocks with
  | config hrule hconfig =>
    refine iff_of_false ?_ (not_not.2 hrule)
    rintro ⟨q, hq, hmatch⟩
    rw [prefixes_repair_of_config hv hblocks hrule hok, List.mem_singleton] at hq
    rw [hq, not_pathWithinPrefix_config _ hconfig] at hmatch
    cases hmatch
  | sourceRoot hrule hname hmissing =>
    -- nothing that stands at the source root is a file
    rw [hname] at hfile
    exact absurd (hfile.symm.trans (isFile_sourceDirectory h)) (by decide)
  | source hrule hcovers =>
    have hmatch : pathWithinPrefix v.file ("src" ++ "/") = true :=
      pathWithinPrefix_name hroot hslash (by rintro _ ⟨⟩; rfl) hcovers
    refine iff_of_true ⟨"src/", ?_, hmatch⟩ hrule
    rw [prefixes_repair hok]
    split <;> decide

/-- A project with a file in a directory that is no layer, and with a configuration that
declares a base directory. -/
def baseUrlFiles : Files where
  top :=
    .directory
      [("src", .directory [("pages", .directory [("home.ts", .file (some ""))])]),
       ("tsconfig.json", .file (some r#"{"compilerOptions":{"baseUrl":"./src"}}"#))]
  workingDirectory := ⟨"/"⟩

theorem wellNamed_baseUrlFiles : baseUrlFiles.top.WellNamed := by
  refine .directory (by decide) (by decide) ?_
  simp only [List.forall_mem_cons, List.not_mem_nil, false_imp_iff, implies_true, and_true]
  exact ⟨.singleton (by decide) (.singleton (by decide) (.file _)), .file _⟩

/-- The configuration of the project. -/
def baseUrlConfig : Graph.AliasConfig := ⟨"tsconfig.json", some "./src", []⟩

theorem readAll_baseUrlFiles :
    Graph.AliasConfig.readAll baseUrlFiles ⟨"/"⟩ = .ok [baseUrlConfig] := by
  decide +kernel

/-- The node of the file. -/
def homeNode : Graph.Node :=
  ⟨⟨"/src/pages/home.ts"⟩, "src/pages/home.ts", .unknownTopLevel "pages"⟩

/-- The report on the project is about the file and about the configuration. -/
theorem exists_validate_baseUrlFiles :
    ∃ r, Report.validate baseUrlFiles ⟨"/"⟩ .standard = .ok r ∧
      (∃ v ∈ r.violations, v.isBlocking = true ∧ v.file = "src/pages/home.ts" ∧
        v.ruleId = Rule.unknownTopLevel.id) ∧
      ∃ v ∈ r.violations, v.isBlocking = true ∧ v.file = "tsconfig.json" ∧
        v.ruleId = Rule.pathAliasConfig.id := by
  have hfind : baseUrlFiles.find (Contract.standard.sourceDirectory ⟨"/"⟩) =
      .ok (.directory [("pages", .directory [("home.ts", .file (some ""))])]) := rfl
  have hbuild := ImportGraph.build_eq_assemble hfind rfl readAll_baseUrlFiles
  have hmodules : moduleDirectories baseUrlFiles ⟨"/"⟩ .standard = .ok [] :=
    congrArg Except.ok List.mergeSort_nil
  obtain ⟨found, hfound⟩ := exists_scan_of_no_modules hmodules ⟨_, rfl⟩ ⟨_, rfl⟩
  refine ⟨_, validateWith_eq hbuild hfound, ?_, ?_⟩
  · have hproduction : IsProduction ⟨"/"⟩ (Path.descend ⟨"/"⟩ ["src", "pages", "home.ts"]) := by
      unfold IsProduction
      decide
    have hnode : homeNode ∈ _ := (ImportGraph.mem_nodes_iff wellNamed_baseUrlFiles hfind hbuild).2
      ⟨["pages", "home.ts"], some "", .inside List.mem_cons_self rfl (.here List.mem_cons_self),
        hproduction, by decide +kernel⟩
    obtain ⟨rule, -, hv⟩ := (ImportGraph.place_violations_iff hbuild).2 ⟨homeNode, hnode, rfl⟩
    exact ⟨_, mem_violations_assemble.2 (.inl (Diagnosis.mem_ofRule.1 hv).1), rfl, rfl, rfl⟩
  · obtain ⟨v, hv⟩ : ∃ v, Graph.aliasConfigViolation? baseUrlConfig = some v :=
      Option.isSome_iff_exists.1 (by decide +kernel)
    obtain ⟨file, message, heq⟩ := Graph.aliasConfigViolation_eq hv
    refine ⟨v, mem_violations_assemble.2 (.inl ?_), heq ▸ rfl,
      Graph.file_of_aliasConfigViolation hv, heq ▸ rfl⟩
    refine Graph.assembled_ofRecords.perm.mem_iff.2 (List.mem_append_left _ ?_)
    exact List.mem_filterMap.2 ⟨_, List.mem_cons_self, hv⟩

/-- The file may be touched. -/
theorem repair_covers_home :
    ∃ r, Report.validate baseUrlFiles ⟨"/"⟩ .standard = .ok r ∧
      ∃ v ∈ r.violations, v.isBlocking = true ∧ v.file = "src/pages/home.ts" ∧
        ∃ q ∈ (r.repair .standard .standard).allowedPathPrefixes,
          pathWithinPrefix v.file q = true := by
  obtain ⟨r, hvalidate, ⟨v, hv, hblocks, hfile, hrule⟩, -⟩ := exists_validate_baseUrlFiles
  have hexists : baseUrlFiles.isFile (Path.join ⟨"/"⟩ ⟨v.file⟩) = true := by
    rw [hfile]
    decide +kernel
  have hne : Rule.unknownTopLevel ≠ .pathAliasConfig := by decide
  exact ⟨r, hvalidate, v, hv, hblocks, hfile,
    (repair_covers wellNamed_baseUrlFiles hvalidate .standard v hv hblocks hexists).2
      (hrule ▸ Rule.id_ne hne)⟩

/-- **A correction may be told to repair what it may not touch**: the configuration blocks, and
no prefix matches it. -/
theorem repair_misses_config :
    ∃ r, Report.validate baseUrlFiles ⟨"/"⟩ .standard = .ok r ∧ r.ok = false ∧
      ∃ v ∈ r.violations, v.isBlocking = true ∧
        baseUrlFiles.isFile (Path.join ⟨"/"⟩ ⟨v.file⟩) = true ∧
        ∀ q ∈ (r.repair .standard .standard).allowedPathPrefixes,
          pathWithinPrefix v.file q = false := by
  obtain ⟨r, hvalidate, -, v, hv, hblocks, hfile, hrule⟩ := exists_validate_baseUrlFiles
  obtain ⟨g, layout, tests, others, hp⟩ := exists_parts hvalidate
  have hok := hp.ok_eq_false_of_mem hv hblocks
  refine ⟨r, hvalidate, hok, v, hv, hblocks, ?_, ?_⟩
  · rw [hfile]
    decide +kernel
  · rw [prefixes_repair_of_config hv hblocks hrule hok, hfile, List.forall_mem_singleton]
    decide +kernel

end Report

end Strata
