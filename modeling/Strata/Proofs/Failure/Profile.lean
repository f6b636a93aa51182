/-
# Profiles are well formed

Specification, sections 3 and 4.5: `FailureClassificationProfile`.

Whatever checks a profile is made from, its parts fit together (`Profile.WellFormed`):

| part | what is known of it |
| --- | --- |
| clusters | each kind at most once, in the order of `Cluster.kinds` |
| texts of a cluster | in increasing order; cycles each once |
| reason | there exactly when a correction makes sense; without it there are no clusters |
| modules of the architecture | those of the cluster about the architecture, if it is there |
| type check, build, tests | given a reason, there exactly when a check of that name failed |

Each place of a profile is for one kind of cluster (`filed_places`). So the clusters stand in
the order of their kinds (`sublist_kinds`), and a cluster is there exactly when it stands in
the place of its kind (`mem_shown_iff`).
-/

import Strata.Failure.Diagnosis
import Strata.Proofs.Lists

namespace Strata

open Text

namespace Cluster

/-- The kinds of clusters, in the order in which a profile lists them. -/
def kinds : List String :=
  ["architecture_contract", "layer_boundary_violation", "import_resolution_error",
   "dependency_cycle", "runtime_middleware_api", "test_contract_gap", "typecheck_failure",
   "build_failure", "test_failure"]

/-- The modules, layers, files and imports of a cluster are in increasing order, and its
cycles are distinct. -/
def Listed : Cluster → Prop
  | architectureContract modules missing files =>
    modules.Pairwise (· < ·) ∧ missing.Pairwise (· < ·) ∧ files.Pairwise (· < ·)
  | layerBoundaryViolation files _ => files.Pairwise (· < ·)
  | importResolutionError files imports => files.Pairwise (· < ·) ∧ imports.Pairwise (· < ·)
  | dependencyCycle cycles => cycles.Nodup
  | testContractGap modules => modules.Pairwise (· < ·)
  | runtimeMiddlewareApi _ | typecheckFailure | buildFailure | testFailure => True

end Cluster

/-- Some check of this name failed. -/
def Check.HasFailed (checks : List Check) (id : String) : Prop :=
  ∃ check ∈ checks, check.id = id ∧ check.status = .fail

/-- The parts of a profile that is made from some checks fit together. -/
structure Profile.WellFormed (checks : List Check) (p : Profile) : Prop where
  inOrder : (p.clusters.map Cluster.kind).Sublist Cluster.kinds
  once : (p.clusters.map Cluster.kind).Nodup
  listed : ∀ cluster ∈ p.clusters, cluster.Listed
  shouldAutoCorrect : p.shouldAutoCorrect = true ↔ p.reason.isSome
  withoutReason : p.reason = none → p.clusters = [] ∧ p.architectureCollapse = false
  modules : ∀ modules, p.architectureModules = some modules ↔
    ∃ missing files, .architectureContract modules missing files ∈ p.clusters
  collapse : p.architectureCollapse = true →
    ∃ modules missing files, .architectureContract modules missing files ∈ p.clusters
  typecheck : p.reason.isSome →
    (.typecheckFailure ∈ p.clusters ↔ Check.HasFailed checks Check.typecheck)
  build : p.reason.isSome → (.buildFailure ∈ p.clusters ↔ Check.HasFailed checks Check.build)
  tests : p.reason.isSome → (.testFailure ∈ p.clusters ↔ Check.HasFailed checks Check.tests)

namespace Diagnosis

/-! ### One place for each kind -/

/-- A cluster in the place of this kind is of this kind, and its texts are as they should
be. -/
def Filed (kind : String) (place : Option Cluster) : Prop :=
  ∀ cluster ∈ place, cluster.kind = kind ∧ cluster.Listed

/-- The clusters that stand in some places. -/
def shown (places : List (String × Option Cluster)) : List Cluster :=
  places.flatMap fun p => p.2.toList

section Places

variable {places : List (String × Option Cluster)} (hfiled : ∀ p ∈ places, Filed p.1 p.2)
include hfiled

/-- The clusters that are shown stand in the order of their places. -/
theorem sublist_kinds : ((shown places).map Cluster.kind).Sublist (places.map Prod.fst) := by
  induction places with
  | nil => exact .refl _
  | cons p places ih =>
    obtain ⟨kind, place⟩ := p
    obtain ⟨hplace, hplaces⟩ := List.forall_mem_cons.1 hfiled
    cases place with
    | none => exact (ih hplaces).cons kind
    | some cluster =>
      have hkind : cluster.kind = kind := (hplace cluster rfl).1
      exact hkind ▸ (ih hplaces).cons_cons cluster.kind

/-- Whatever is shown lists something. -/
theorem listed_of_mem_shown {cluster : Cluster} (h : cluster ∈ shown places) : cluster.Listed := by
  obtain ⟨p, hp, hcluster⟩ := List.mem_flatMap.1 h
  exact (hfiled p hp cluster (Option.mem_toList.1 hcluster)).2

/-- **A cluster is shown exactly when it stands in the place of its kind.** -/
theorem mem_shown_iff (hkinds : (places.map Prod.fst).Nodup) {cluster : Cluster}
    {place : Option Cluster} (hplace : (cluster.kind, place) ∈ places) :
    cluster ∈ shown places ↔ place = some cluster := by
  constructor
  · intro h
    obtain ⟨p, hp, hcluster⟩ := List.mem_flatMap.1 h
    have hkind : cluster.kind = p.1 := (hfiled p hp cluster (Option.mem_toList.1 hcluster)).1
    have heq : (cluster.kind, place) = p := List.inj_on_of_nodup_map hkinds hplace hp hkind
    rw [← heq] at hcluster
    exact Option.mem_toList.1 hcluster
  · rintro rfl
    exact List.mem_flatMap.2 ⟨_, hplace, List.mem_singleton_self cluster⟩

end Places

/-! ### What stands in each place -/

variable (c : Contract) (vs : List Violation)

/-- A cluster of damage lists the modules, layers or files that show it. -/
theorem filed_architecture :
    Filed "architecture_contract" (Evidence.ofViolations c vs).cluster? := by
  unfold Evidence.cluster?
  split
  · exact fun _ h => nomatch h
  · rintro _ ⟨⟩
    exact ⟨rfl, pairwise_ordered _, pairwise_ordered _, pairwise_ordered _⟩

/-- A cluster of layer boundaries has an import. -/
theorem filed_layerBoundary : Filed "layer_boundary_violation" (layerBoundary? c vs) := by
  unfold layerBoundary?
  split
  · exact fun _ h => nomatch h
  · rintro _ ⟨⟩
    exact ⟨rfl, pairwise_ordered _⟩

/-- A cluster of imports without a target has a file or an import. -/
theorem filed_importResolution (outputs : List String) :
    Filed "import_resolution_error" (importResolution? vs outputs) := by
  unfold importResolution?
  dsimp only
  split
  · exact fun _ h => nomatch h
  · rintro _ ⟨⟩
    exact ⟨rfl, pairwise_ordered _, pairwise_ordered _⟩

/-- A cluster of cycles has a cycle. -/
theorem filed_dependencyCycle : Filed "dependency_cycle" (dependencyCycle? vs) := by
  unfold dependencyCycle?
  split
  · exact fun _ h => nomatch h
  · rintro _ ⟨⟩
    exact ⟨rfl, nodup_eraseDups _⟩

/-- A middleware error is its own evidence. -/
theorem filed_middleware (outputs : List String) :
    Filed "runtime_middleware_api" (middleware? outputs) := by
  intro cluster h
  obtain ⟨message, -, rfl⟩ := Option.map_eq_some_iff.1 h
  exact ⟨rfl, trivial⟩

/-- A cluster of tests has a module. -/
theorem filed_testGap : Filed "test_contract_gap" (testGap? vs) := by
  unfold testGap?
  split
  · exact fun _ h => nomatch h
  · rintro _ ⟨⟩
    exact ⟨rfl, pairwise_ordered _⟩

/-- A failed check is its own evidence. -/
theorem filed_ofFailed (check : Option Check) {cluster : Cluster} (h : cluster.Listed) :
    Filed cluster.kind (ofFailed? check cluster) := by
  intro shown hshown
  obtain ⟨-, -, rfl⟩ := Option.map_eq_some_iff.1 hshown
  exact ⟨rfl, h⟩

namespace Failures

variable (f : Failures)

/-- The places of a profile, each with its kind. -/
def places : List (String × Option Cluster) :=
  [("architecture_contract", (Evidence.ofViolations c f.violations).cluster?),
   ("layer_boundary_violation", layerBoundary? c f.violations),
   ("import_resolution_error",
     importResolution? f.violations (outputs [f.build, f.tests, f.boot])),
   ("dependency_cycle", dependencyCycle? f.violations),
   ("runtime_middleware_api", middleware? (outputs [f.tests, f.boot])),
   ("test_contract_gap", testGap? f.violations),
   ("typecheck_failure", ofFailed? f.typecheck .typecheckFailure),
   ("build_failure", ofFailed? f.build .buildFailure),
   ("test_failure", ofFailed? f.tests .testFailure)]

/-- The clusters of a profile are those that fill its places. -/
theorem clusters_eq_shown : f.clusters c = shown (f.places c) := rfl

/-- There is one place for each kind, in the order of the kinds. -/
theorem kinds_places : (f.places c).map Prod.fst = Cluster.kinds := rfl

/-- **Each place is for one kind of cluster.** -/
theorem filed_places : ∀ p ∈ f.places c, Filed p.1 p.2 := by
  simp only [places, List.forall_mem_cons, List.not_mem_nil, false_imp_iff, implies_true, and_true]
  refine ⟨filed_architecture c _, filed_layerBoundary c _, filed_importResolution _ _,
    filed_dependencyCycle _, filed_middleware _, filed_testGap _, ?_, ?_, ?_⟩
  · exact filed_ofFailed f.typecheck (show Cluster.typecheckFailure.Listed from trivial)
  · exact filed_ofFailed f.build (show Cluster.buildFailure.Listed from trivial)
  · exact filed_ofFailed f.tests (show Cluster.testFailure.Listed from trivial)

/-- No kind has two places. -/
theorem nodup_kinds_places : ((f.places c).map Prod.fst).Nodup := by
  rw [kinds_places]
  decide

/-- A cluster is shown exactly when it fills the place of its kind. -/
theorem mem_clusters_iff {cluster : Cluster} {place : Option Cluster}
    (hplace : (cluster.kind, place) ∈ f.places c) :
    cluster ∈ f.clusters c ↔ place = some cluster := by
  rw [clusters_eq_shown]
  exact mem_shown_iff (f.filed_places c) (f.nodup_kinds_places c) hplace

/-- The clusters without evidence of their own are there when the check failed. -/
theorem mem_clusters_failed_iff :
    (.typecheckFailure ∈ f.clusters c ↔ f.typecheck.isSome) ∧
    (.buildFailure ∈ f.clusters c ↔ f.build.isSome) ∧
    (.testFailure ∈ f.clusters c ↔ f.tests.isSome) := by
  have hshown {cluster : Cluster} {check : Option Check}
      (hplace : (cluster.kind, ofFailed? check cluster) ∈ f.places c) :
      cluster ∈ f.clusters c ↔ check.isSome := by
    rw [f.mem_clusters_iff c hplace]
    cases check <;> simp [ofFailed?]
  refine ⟨hshown ?_, hshown ?_, hshown ?_⟩ <;> simp [places, Cluster.kind]

/-- The cluster about the architecture is there when there is evidence, and shows it. -/
theorem mem_clusters_architecture_iff {modules missing files : List String} :
    .architectureContract modules missing files ∈ f.clusters c ↔
      (Evidence.ofViolations c f.violations).isEmpty = false ∧
      (Evidence.ofViolations c f.violations).modules = modules ∧
      (Evidence.ofViolations c f.violations).missingLayers = missing ∧
      (Evidence.ofViolations c f.violations).unknownLayerFiles = files := by
  have hplace : ((Cluster.architectureContract modules missing files).kind,
      (Evidence.ofViolations c f.violations).cluster?) ∈ f.places c := List.mem_cons_self
  rw [f.mem_clusters_iff c hplace, Evidence.cluster?]
  cases (Evidence.ofViolations c f.violations).isEmpty <;> simp

end Failures

/-- A first failure is there when some check of the name failed. -/
theorem isSome_firstFailed?_iff {checks : List Check} {id : String} :
    (Check.firstFailed? checks id).isSome ↔ Check.HasFailed checks id := by
  simp [Check.firstFailed?, Check.HasFailed, Check.failed]

/-- A collapse is more than no evidence. -/
theorem Evidence.isEmpty_of_collapsed {e : Evidence} (h : e.collapsed = true) :
    e.isEmpty = false := by
  have hlength : collapseThreshold ≤ e.signals.length := of_decide_eq_true h
  rw [isEmpty, List.isEmpty_eq_false_iff]
  rintro hnil
  rw [hnil] at hlength
  exact absurd hlength (by decide)

end Diagnosis

namespace Profile

open Diagnosis

/-- A profile counts what failed, and for a reason it tells of the failures. -/
theorem ofChecks_eq (c : Contract) (checks : List Check) :
    (∃ n, ofChecks c checks = { zero with blockingCount := n }) ∨
    ∃ reason, ofChecks c checks = (Failures.ofChecks checks).profile c reason := by
  unfold ofChecks
  split
  · dsimp only
    split
    · exact .inr ⟨_, rfl⟩
    · exact .inl ⟨_, rfl⟩
  · exact .inl ⟨0, rfl⟩

/-- A profile with nothing but a count is well formed. -/
theorem wellFormed_zero (checks : List Check) (n : UInt64) :
    WellFormed checks { zero with blockingCount := n } where
  inOrder := List.nil_sublist _
  once := .nil
  listed := fun _ h => absurd h List.not_mem_nil
  shouldAutoCorrect := by simp [zero]
  withoutReason := fun _ => ⟨rfl, rfl⟩
  modules := by simp [zero]
  collapse := by simp [zero]
  typecheck := by simp [zero]
  build := by simp [zero]
  tests := by simp [zero]

/-- A profile with a reason is well formed. -/
theorem wellFormed_profile (c : Contract) (checks : List Check) (reason : FailureReason) :
    WellFormed checks ((Failures.ofChecks checks).profile c reason) := by
  set f := Failures.ofChecks checks
  have hfiled := f.filed_places c
  obtain ⟨htypecheck, hbuild, htests⟩ := f.mem_clusters_failed_iff c
  exact {
    inOrder := sublist_kinds hfiled
    once := (sublist_kinds hfiled).nodup (f.nodup_kinds_places c)
    listed := fun _ => listed_of_mem_shown hfiled
    shouldAutoCorrect := by simp [Failures.profile]
    withoutReason := by simp [Failures.profile]
    modules := by
      intro modules
      simp only [Failures.profile, f.mem_clusters_architecture_iff c]
      cases (Evidence.ofViolations c f.violations).isEmpty <;> simp
    collapse := fun h =>
      ⟨_, _, _, (f.mem_clusters_architecture_iff c).2
        ⟨Evidence.isEmpty_of_collapsed h, rfl, rfl, rfl⟩⟩
    typecheck := fun _ => htypecheck.trans isSome_firstFailed?_iff
    build := fun _ => hbuild.trans isSome_firstFailed?_iff
    tests := fun _ => htests.trans isSome_firstFailed?_iff }

/-- **Every profile is well formed**, whatever the checks are, in whatever order and number: its
clusters stand in the order of their kinds, each kind once, and what they list is in increasing
order. Source: specification, sections 3 and 4.5. -/
theorem wellFormed_ofChecks (c : Contract) (checks : List Check) :
    (ofChecks c checks).WellFormed checks := by
  obtain ⟨n, heq⟩ | ⟨reason, heq⟩ := ofChecks_eq c checks
  · rw [heq]
    exact wellFormed_zero checks n
  · rw [heq]
    exact wellFormed_profile c checks reason

end Profile

end Strata
