/-
# What validators report

Specification, section 4.4: the rules of the validators.

What a registered validator can report, one case for each rule:

| scan of | can report | errors about | warnings about |
| --- | --- | --- | --- |
| the layout | `Structure.scan_cases` | missing directories | modules without code |
| a source, for couplings | `Coupling.scanSource_cases` | persistence | HTTP, logging |
| a source, for security | `Security.scanSource_cases` | secrets, evaluated code | |
| the environment file | `Security.scanEnv_eq` | | the file |
| the tests of a module | `Tests.scanModule_cases` | missing tests | empty tests |

So every violation of a validator is made by one of the rules, with a target when the rule
says so (`Validator.regular_of_mem_registered`).
-/

import Strata.Proofs.Outcome
import Strata.Proofs.Violation
import Strata.Validator.Union

namespace Strata

open Violation

variable {files : Files} {root : Path} {c : Contract} {vs : List Violation} {v : Violation}

/-! ### The layout of modules -/

namespace Structure

/-- A module is reported for a layer that it lacks, or because it has no source file. -/
theorem scanModule_cases {m : ModuleDirectory} (h : scanModule files c m = .ok vs) (hv : v ∈ vs) :
    (∃ layer, v = missingLayer c m.name layer) ∨ v = moduleEmpty c m.name := by
  have hmissing : v ∈ (missingLayers files c m.path).map (missingLayer c m.name) →
      ∃ layer, v = missingLayer c m.name layer := by
    intro hv
    obtain ⟨layer, -, rfl⟩ := List.mem_map.1 hv
    exact ⟨layer, rfl⟩
  obtain ⟨found, -, h⟩ := bind_eq_ok h
  split at h
  · obtain rfl := Except.ok.inj h
    exact .inl (hmissing hv)
  · obtain rfl := Except.ok.inj h
    exact (List.mem_append.1 hv).imp hmissing List.mem_singleton.1

/-- **A scan of the layout** reports the source root when it is no directory, or else what is
wrong with modules. -/
theorem scan_cases (h : scan files root c = .ok vs) (hv : v ∈ vs) :
    (v = sourceRootMissing c ∧ files.isDirectory (c.sourceDirectory root) = false) ∨
      ∃ module, (∃ layer, v = missingLayer c module layer) ∨ v = moduleEmpty c module := by
  unfold scan at h
  split at h
  · obtain ⟨modules, -, h⟩ := bind_eq_ok h
    obtain ⟨vss, hvss, h⟩ := bind_eq_ok h
    obtain rfl := Except.ok.inj h
    obtain ⟨m, -, found, hfound, hv⟩ := (mem_flatten_of_mapM hvss).1 hv
    exact .inr ⟨m.name, scanModule_cases hfound hv⟩
  · rename_i hsource
    obtain rfl := Except.ok.inj h
    exact .inl ⟨List.mem_singleton.1 hv, Bool.eq_false_iff.2 hsource⟩

/-- The rules about the layout. -/
def rules : List Rule := [.sourceRootMissing, .moduleMissingLayer, .moduleEmpty]

/-- What a scan of the layout reports is made by the rules about the layout. -/
theorem madeBy_scan (h : scan files root c = .ok vs) : AllMadeBy rules vs := by
  intro v hv
  rcases scan_cases h hv with ⟨rfl, -⟩ | ⟨module, ⟨layer, rfl⟩ | rfl⟩
  · exact madeBy_error (by decide) rfl _ _
  · exact madeBy_error (by decide) rfl _ _
  · exact madeBy_warning (by decide) rfl _ _

end Structure

/-! ### Couplings -/

namespace Coupling

/-- An import of a persistence package is an error with the package as its target. -/
theorem persistenceViolation_eq {file layer : String} {imports : List String}
    (h : v ∈ persistenceViolation? c file layer imports) :
    ∃ message package, v = .error .persistenceInLayer file message (some package) := by
  unfold persistenceViolation? at h
  split at h
  · obtain ⟨package, -, rfl⟩ := Option.map_eq_some_iff.1 h
    exact ⟨_, _, rfl⟩
  · cases h

/-- A trace of the transport in a service is a warning with the trace as its target. -/
theorem httpViolation_eq {file layer source : String} {imports : List String}
    (h : v ∈ httpViolation? file layer source imports) :
    ∃ message evidence, v = .warning .httpInService file message (some evidence) := by
  unfold httpViolation? at h
  split at h
  · obtain ⟨evidence, -, rfl⟩ := Option.map_eq_some_iff.1 h
    exact ⟨_, _, rfl⟩
  · cases h

/-- A call of the console is a warning without a target. -/
theorem consoleViolation_eq {file source : String} (h : v ∈ consoleViolation? file source) :
    ∃ message, v = .warning .consoleLog file message none := by
  unfold consoleViolation? at h
  split at h
  · cases h
  · exact ⟨_, (Option.some.inj h).symm⟩

/-- **A scan of a source for couplings** reports an error or warnings about its file. -/
theorem scanSource_cases {s : SourceFile} (h : v ∈ scanSource c s) :
    (∃ message package,
      v = .error .persistenceInLayer s.relativePath message (some package)) ∨
    (∃ message evidence, v = .warning .httpInService s.relativePath message (some evidence)) ∨
    ∃ message, v = .warning .consoleLog s.relativePath message none := by
  unfold scanSource at h
  split at h
  · exact absurd h List.not_mem_nil
  · rcases List.mem_append.1 h with h | h
    · split at h
      · rcases List.mem_append.1 h with h | h
        · exact .inl (persistenceViolation_eq (Option.mem_toList.1 h))
        · exact .inr (.inl (httpViolation_eq (Option.mem_toList.1 h)))
      · exact absurd h List.not_mem_nil
    · exact .inr (.inr (consoleViolation_eq (Option.mem_toList.1 h)))

/-- The rules about couplings. -/
def rules : List Rule := [.persistenceInLayer, .httpInService, .consoleLog]

/-- What a scan for couplings reports is made by the rules about couplings. -/
theorem madeBy_scan (h : scan files root c = .ok vs) : AllMadeBy rules vs := by
  obtain ⟨sources, -, h⟩ := bind_eq_ok h
  obtain rfl := Except.ok.inj h
  refine .flatMap fun s _ v hv => ?_
  rcases scanSource_cases hv with ⟨message, package, rfl⟩ | ⟨message, evidence, rfl⟩ |
    ⟨message, rfl⟩
  · exact madeBy_error (by decide) rfl _ _
  · exact madeBy_warning (by decide) rfl _ _
  · exact madeBy_warning (by decide) rfl _ _

end Coupling

/-! ### Security -/

namespace Security

/-- **A scan of a source for security** reports errors about its file. -/
theorem scanSource_cases {file source : String} (h : v ∈ scanSource file source) :
    (∃ message kind, v = .error .hardcodedSecret file message (some kind)) ∨
    ∃ message, v = .error .dynamicEval file message none := by
  refine (List.mem_append.1 h).imp (fun h => ?_) fun h => ?_
  · have h := Option.mem_toList.1 h
    unfold secretViolation? at h
    dsimp only at h
    split at h
    · cases h
    · exact ⟨_, _, (Option.some.inj h).symm⟩
  · have h := Option.mem_toList.1 h
    unfold evalViolation? at h
    split at h
    · cases h
    · exact ⟨_, (Option.some.inj h).symm⟩

/-- **A scan of the environment file** reports a warning. -/
theorem scanEnv_eq (h : scanEnv files root = .ok vs) (hv : v ∈ vs) :
    ∃ file message, v = .warning .envNotIgnored file message none := by
  unfold scanEnv at h
  split at h
  · obtain ⟨gitignore, -, h⟩ := bind_eq_ok h
    dsimp only at h
    split at h
    · obtain rfl := Except.ok.inj h
      exact absurd hv List.not_mem_nil
    · obtain rfl := Except.ok.inj h
      exact ⟨_, _, List.mem_singleton.1 hv⟩
  · obtain rfl := Except.ok.inj h
    exact absurd hv List.not_mem_nil

/-- The rules about security. -/
def rules : List Rule := [.hardcodedSecret, .dynamicEval, .envNotIgnored]

/-- What a source is reported for is made by the rules about security. -/
theorem madeBy_scanSource (file source : String) : AllMadeBy rules (scanSource file source) := by
  intro v hv
  rcases scanSource_cases hv with ⟨message, kind, rfl⟩ | ⟨message, rfl⟩
  · exact madeBy_error (by decide) rfl _ _
  · exact madeBy_error (by decide) rfl _ _

/-- The environment file is reported by a rule about security. -/
theorem madeBy_scanEnv (h : scanEnv files root = .ok vs) : AllMadeBy rules vs := by
  intro v hv
  obtain ⟨file, message, rfl⟩ := scanEnv_eq h hv
  exact madeBy_warning (by decide) rfl _ _

/-- What a scan for security reports is made by the rules about security. -/
theorem madeBy_scan (h : scan files root c = .ok vs) : AllMadeBy rules vs := by
  obtain ⟨found, -, h⟩ := bind_eq_ok h
  obtain ⟨env, henv, h⟩ := bind_eq_ok h
  refine Except.ok.inj h ▸ .append (.flatMap fun f _ => ?_) (madeBy_scanEnv henv)
  split
  · exact madeBy_scanSource _ _
  · exact .nil

end Security

/-! ### Tests -/

namespace Tests

/-- **A scan of the tests of a module** reports an error without test files, or else warnings
about test files. -/
theorem scanModule_cases {m : ModuleDirectory} (h : scanModule files root c m = .ok vs)
    (hv : v ∈ vs) : v = testsMissing c m.name ∨ ∃ file, v = testsEmpty m.name file := by
  obtain ⟨tests, -, h⟩ := bind_eq_ok h
  split at h
  · obtain rfl := Except.ok.inj h
    exact .inl (List.mem_singleton.1 hv)
  · obtain rfl := Except.ok.inj h
    obtain ⟨f, -, hf⟩ := List.mem_filterMap.1 hv
    split at hf
    · split at hf
      · cases hf
      · exact .inr ⟨_, (Option.some.inj hf).symm⟩
    · cases hf

/-- A scan of the tests reports modules without tests and test files without test cases. -/
theorem scan_cases (h : scan files root c = .ok vs) (hv : v ∈ vs) :
    ∃ module, v = testsMissing c module ∨ ∃ file, v = testsEmpty module file := by
  obtain ⟨modules, -, h⟩ := bind_eq_ok h
  obtain ⟨vss, hvss, h⟩ := bind_eq_ok h
  obtain rfl := Except.ok.inj h
  obtain ⟨m, -, found, hfound, hv⟩ := (mem_flatten_of_mapM hvss).1 hv
  exact ⟨m.name, scanModule_cases hfound hv⟩

/-- The rules about tests. -/
def rules : List Rule := [.testsMissing, .testsEmpty]

/-- What a scan of the tests reports is made by the rules about tests. -/
theorem madeBy_scan (h : scan files root c = .ok vs) : AllMadeBy rules vs := by
  intro v hv
  obtain ⟨module, rfl | ⟨file, rfl⟩⟩ := scan_cases h hv
  · exact madeBy_error (by decide) rfl _ _
  · exact madeBy_warning (by decide) rfl _ _

end Tests

/-- The rules of the registered validators. -/
def Validator.rules : List Rule :=
  Structure.rules ++ Coupling.rules ++ Security.rules ++ Tests.rules

/-- **Every violation of a registered validator is made by one of the rules of
validators.** -/
theorem Validator.madeBy_of_mem_registered {v : Validator} (hv : v ∈ registered) {files : Files}
    {root : Path} {c : Contract} {vs : List Violation} (h : v.scan files root c = .ok vs) :
    AllMadeBy Validator.rules vs := by
  simp only [registered, List.mem_cons, List.not_mem_nil, or_false] at hv
  rcases hv with rfl | rfl | rfl | rfl
  · exact (Structure.madeBy_scan h).mono (by decide)
  · exact (Coupling.madeBy_scan h).mono (by decide)
  · exact (Security.madeBy_scan h).mono (by decide)
  · exact (Tests.madeBy_scan h).mono (by decide)

/-- Every violation of a registered validator has a target exactly when its rule has one. -/
theorem Validator.regular_of_mem_registered {v : Validator} (hv : v ∈ registered) {files : Files}
    {root : Path} {c : Contract} {vs : List Violation} (h : v.scan files root c = .ok vs) :
    AllRegular vs := (madeBy_of_mem_registered hv h).regular

end Strata
