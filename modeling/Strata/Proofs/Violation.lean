/-
# The order of violations

Specification, section 3: violations are ordered by rule, file, target, message and
severity.

The order of violations takes a missing target for an empty one, so it does not
tell all violations apart. It does tell those apart that are made by the rules:
the texts of the rules differ (`Rule.id_injective`), and a rule says whether its
violations have a target (`Violation.Regular`). So sorting them forgets the order
before (`Violation.sort_eq_of_perm`), and the violations of one rule can be told
from all others (`Diagnosis.mem_ofRule`).
-/

import Strata.Failure.Diagnosis
import Strata.Proofs.Sorting

namespace Strata

namespace Rule

/-- All rules. -/
def all : List Rule :=
  [layerMatrix, moduleIsolation, unknownLayer, unknownTopLevel, nonRelativeImport,
   pathAliasConfig, missingTarget, cycle, sourceRootMissing, moduleMissingLayer, moduleEmpty,
   persistenceInLayer, httpInService, consoleLog, hardcodedSecret, dynamicEval, envNotIgnored,
   testsMissing, testsEmpty]

/-- A rule is found again by its id. -/
theorem find?_id (rule : Rule) : all.find? (fun r => r.id == rule.id) = some rule := by
  cases rule <;> decide

/-- The ids of the rules are distinct. -/
theorem id_injective {rule rule' : Rule} (h : rule.id = rule'.id) : rule = rule' := by
  have hfind := find?_id rule
  rw [h, find?_id rule'] at hfind
  exact (Option.some.inj hfind).symm

/-- Two rules never share an id, as it is used to tell their violations apart. -/
theorem id_ne {rule rule' : Rule} (h : rule ≠ rule') : rule.id ≠ rule'.id := fun hid =>
  h (id_injective hid)

/-- True for a rule whose violations have a target. -/
def hasTarget : Rule → Bool
  | pathAliasConfig | sourceRootMissing | moduleEmpty | consoleLog | dynamicEval
  | envNotIgnored => false
  | layerMatrix | moduleIsolation | unknownLayer | unknownTopLevel | nonRelativeImport
  | missingTarget | cycle | moduleMissingLayer | persistenceInLayer | httpInService
  | hardcodedSecret | testsMissing | testsEmpty => true

end Rule

/-- The order of the severities has no ties. -/
theorem Severity.rank_injective {s t : Severity} (h : s.rank = t.rank) : s = t := by
  cases s <;> cases t <;> first | rfl | cases h

namespace Violation

/-- A violation that is made by a rule has a target when the rule says so. -/
def Regular (v : Violation) : Prop :=
  ∃ rule : Rule, v.ruleId = rule.id ∧ v.target.isSome = rule.hasTarget

/-- A rule that always has a target never leaves it out. -/
theorem Regular.target_eq {v : Violation} (h : v.Regular) {rule : Rule} (hid : v.ruleId = rule.id)
    (htarget : rule.hasTarget = true) : v.target = some v.targetText := by
  obtain ⟨rule', hid', hsome⟩ := h
  rw [← Rule.id_injective (hid.symm.trans hid'), htarget] at hsome
  obtain ⟨target, heq⟩ := Option.isSome_iff_exists.1 hsome
  rw [targetText, heq]
  rfl

/-- A violation that is made by one of some rules. -/
def MadeBy (rules : List Rule) (v : Violation) : Prop :=
  ∃ rule ∈ rules, v.ruleId = rule.id ∧ v.target.isSome = rule.hasTarget

section

variable {rules : List Rule} {rule : Rule}

/-- An error is made by its rule when it has a target exactly if the rule asks for one. -/
theorem madeBy_error (hrule : rule ∈ rules) {target : Option String}
    (h : target.isSome = rule.hasTarget) (file message : String) :
    (error rule file message target).MadeBy rules := ⟨rule, hrule, rfl, h⟩

/-- A warning is made by its rule when it has a target exactly if the rule asks for one. -/
theorem madeBy_warning (hrule : rule ∈ rules) {target : Option String}
    (h : target.isSome = rule.hasTarget) (file message : String) :
    (warning rule file message target).MadeBy rules := ⟨rule, hrule, rfl, h⟩

/-- What is made by a rule of a list is regular. -/
theorem MadeBy.regular {v : Violation} (h : v.MadeBy rules) : v.Regular := by
  obtain ⟨rule, -, hid, htarget⟩ := h
  exact ⟨rule, hid, htarget⟩

/-- The rule of a violation is one of those that make it. -/
theorem MadeBy.mem_of_ruleId {v : Violation} (h : v.MadeBy rules) (hid : v.ruleId = rule.id) :
    rule ∈ rules := by
  obtain ⟨rule', hrule', hid', -⟩ := h
  rwa [Rule.id_injective (hid.symm.trans hid')]

end

/-- The order compares five keys, one after the other. -/
theorem order_eq_compareLex :
    order = compareLex (compareOn ruleId) (compareLex (compareOn file)
      (compareLex (compareOn targetText)
        (compareLex (compareOn message) (compareOn fun v => v.severity.rank)))) := rfl

instance : Std.TransCmp order := by
  rw [order_eq_compareLex]
  infer_instance

/-- **Violations that compare equal are equal**, when rules made them. -/
theorem eq_of_order_eq {v w : Violation} (hv : v.Regular) (hw : w.Regular)
    (h : v.order w = .eq) : v = w := by
  unfold order at h
  simp only [Ordering.then_eq_eq, Std.LawfulEqOrd.compare_eq_iff_eq] at h
  obtain ⟨hrule, hfile, htarget, hmessage, hseverity⟩ := h
  obtain ⟨rule, hid, hsome⟩ := hv
  obtain ⟨rule', hid', hsome'⟩ := hw
  have hsame : rule = rule' := Rule.id_injective (hid ▸ hid' ▸ hrule)
  have hseverity := Severity.rank_injective hseverity
  have htarget : v.target = w.target := by
    subst hsame
    unfold targetText at htarget
    cases hvt : v.target <;> cases hwt : w.target <;> simp_all
  cases v
  cases w
  simp_all

/-- Regular violations only. -/
def AllRegular (vs : List Violation) : Prop := ∀ v ∈ vs, v.Regular

namespace AllRegular

/-- Regular violations together are regular. -/
theorem append {vs ws : List Violation} (hvs : AllRegular vs) (hws : AllRegular ws) :
    AllRegular (vs ++ ws) := List.forall_mem_append.2 ⟨hvs, hws⟩

/-- The order of the list does not matter. -/
theorem of_perm {vs ws : List Violation} (h : AllRegular vs) (hperm : vs.Perm ws) :
    AllRegular ws := fun v hv => h v (hperm.mem_iff.2 hv)

end AllRegular

/-- Violations of some rules only. -/
def AllMadeBy (rules : List Rule) (vs : List Violation) : Prop := ∀ v ∈ vs, v.MadeBy rules

namespace AllMadeBy

variable {rules : List Rule}

theorem nil : AllMadeBy rules [] := fun _ hv => absurd hv List.not_mem_nil

theorem append {vs ws : List Violation} (hvs : AllMadeBy rules vs) (hws : AllMadeBy rules ws) :
    AllMadeBy rules (vs ++ ws) := List.forall_mem_append.2 ⟨hvs, hws⟩

/-- What is found in each of several places is made by the rules when each part is. -/
theorem flatMap {α : Type} {xs : List α} {f : α → List Violation}
    (h : ∀ x ∈ xs, AllMadeBy rules (f x)) : AllMadeBy rules (xs.flatMap f) := by
  intro v hv
  obtain ⟨x, hx, hv⟩ := List.mem_flatMap.1 hv
  exact h x hx v hv

/-- Where at most one violation is found in each place, it is enough to look at each. -/
theorem filterMap {α : Type} {xs : List α} {f : α → Option Violation}
    (h : ∀ x ∈ xs, ∀ v ∈ f x, v.MadeBy rules) : AllMadeBy rules (xs.filterMap f) := by
  intro v hv
  obtain ⟨x, hx, hv⟩ := List.mem_filterMap.1 hv
  exact h x hx v hv

/-- Where one violation is found in each place, it is enough to look at each. -/
theorem map {α : Type} {xs : List α} {f : α → Violation} (h : ∀ x ∈ xs, (f x).MadeBy rules) :
    AllMadeBy rules (xs.map f) := by
  intro v hv
  obtain ⟨x, hx, rfl⟩ := List.mem_map.1 hv
  exact h x hx

theorem of_perm {vs ws : List Violation} (h : AllMadeBy rules vs) (hperm : vs.Perm ws) :
    AllMadeBy rules ws := fun v hv => h v (hperm.mem_iff.2 hv)

/-- What is made by some rules is made by more rules. -/
theorem mono {rules' : List Rule} {vs : List Violation} (h : AllMadeBy rules vs)
    (hsub : rules ⊆ rules') : AllMadeBy rules' vs := by
  intro v hv
  obtain ⟨rule, hrule, hv⟩ := h v hv
  exact ⟨rule, hsub hrule, hv⟩

/-- What is made by rules is regular, whatever the rules are. -/
theorem regular {vs : List Violation} (h : AllMadeBy rules vs) : AllRegular vs := fun v hv =>
  (h v hv).regular

/-- No violation is by a rule that makes none of them. -/
theorem ruleId_ne {vs : List Violation} (h : AllMadeBy rules vs) {rule : Rule}
    (hrule : rule ∉ rules) {v : Violation} (hv : v ∈ vs) : v.ruleId ≠ rule.id := fun hid =>
  hrule ((h v hv).mem_of_ruleId hid)

end AllMadeBy

/-- **Sorting violations forgets the order before**, when rules made them. -/
theorem sort_eq_of_perm {vs ws : List Violation} (h : vs.Perm ws) (hvs : AllRegular vs) :
    sort vs = sort ws :=
  mergeSort_eq_of_perm h fun v hv w hw => eq_of_order_eq (hvs v hv) (hvs w hw)

end Violation

/-! ### The violations of one rule -/

namespace Diagnosis

/-- The violations of a rule are picked part by part. -/
theorem ofRule_append (rule : Rule) (vs ws : List Violation) :
    ofRule rule (vs ++ ws) = ofRule rule vs ++ ofRule rule ws := List.filter_append ..

/-- A violation is picked by its rule id. -/
theorem mem_ofRule {rule : Rule} {vs : List Violation} {v : Violation} :
    v ∈ ofRule rule vs ↔ v ∈ vs ∧ v.ruleId = rule.id := by
  rw [ofRule, List.mem_filter, beq_iff_eq]

/-- From the same violations in another order the same ones are picked. -/
theorem ofRule_perm (rule : Rule) {vs ws : List Violation} (h : vs.Perm ws) :
    (ofRule rule vs).Perm (ofRule rule ws) := h.filter _

/-- A part in which one rule speaks is picked as a whole. -/
theorem ofRule_eq_self {rule : Rule} {vs : List Violation} (h : ∀ v ∈ vs, v.ruleId = rule.id) :
    ofRule rule vs = vs :=
  List.filter_eq_self.2 fun v hv => beq_iff_eq.2 (h v hv)

/-- A part in which the rule does not speak is left out. -/
theorem ofRule_eq_nil {rule : Rule} {vs : List Violation} (h : ∀ v ∈ vs, v.ruleId ≠ rule.id) :
    ofRule rule vs = [] :=
  List.filter_eq_nil_iff.2 fun v hv => by simpa using h v hv

/-- Other rules make no violations of a rule. -/
theorem ofRule_eq_nil_of_madeBy {rule : Rule} {rules : List Rule} {vs : List Violation}
    (h : Violation.AllMadeBy rules vs) (hrule : rule ∉ rules) : ofRule rule vs = [] :=
  ofRule_eq_nil fun _ hv => h.ruleId_ne hrule hv

/-- In violations from parts with rules of their own, those of a rule are those of the
part with the rule. -/
theorem ofRule_flatMap_eq {parts : List (List Rule × List Violation)}
    (hmade : ∀ p ∈ parts, Violation.AllMadeBy p.1 p.2)
    (hapart : (parts.map Prod.fst).Pairwise fun rules others => ∀ rule ∈ rules, rule ∉ others)
    {p : List Rule × List Violation} (hp : p ∈ parts) {rule : Rule} (hrule : rule ∈ p.1) :
    ofRule rule (parts.flatMap Prod.snd) = ofRule rule p.2 := by
  induction parts with
  | nil => exact absurd hp List.not_mem_nil
  | cons q parts ih =>
    obtain ⟨hfirst, hrest⟩ := List.forall_mem_cons.1 hmade
    obtain ⟨hfirstApart, hrestApart⟩ := List.pairwise_cons.1 hapart
    rw [List.flatMap_cons, ofRule_append]
    rcases List.mem_cons.1 hp with rfl | hp
    · have hnil : ofRule rule (parts.flatMap Prod.snd) = [] := by
        refine ofRule_eq_nil fun v hv hid => ?_
        obtain ⟨p', hp', hv⟩ := List.mem_flatMap.1 hv
        exact hfirstApart p'.1 (List.mem_map_of_mem hp') rule hrule
          ((hrest p' hp' v hv).mem_of_ruleId hid)
      rw [hnil, List.append_nil]
    · have hrule' : rule ∉ q.1 := fun hmem =>
        hfirstApart p.1 (List.mem_map_of_mem hp) rule hmem hrule
      rw [ofRule_eq_nil_of_madeBy hfirst hrule', List.nil_append]
      exact ih hrest hrestApart hp

end Diagnosis

/-! ### Violations put together from parts -/

namespace Violation

/-- Violations that are put together from parts, each made by rules of its own. -/
structure Assembled (parts : List (List Rule × List Violation)) (vs : List Violation) : Prop where
  perm : vs.Perm (parts.flatMap Prod.snd)
  madeBy : ∀ p ∈ parts, AllMadeBy p.1 p.2
  apart : (parts.map Prod.fst).Pairwise fun rules others => ∀ rule ∈ rules, rule ∉ others

namespace Assembled

variable {parts : List (List Rule × List Violation)} {vs : List Violation}
  (h : Assembled parts vs)
include h

/-- Together, the parts are made by all rules of the parts. -/
theorem allMadeBy {rules : List Rule} (hsub : ∀ p ∈ parts, p.1 ⊆ rules) :
    AllMadeBy rules vs :=
  .of_perm (.flatMap fun p hp => (h.madeBy p hp).mono (hsub p hp)) h.perm.symm

/-- All violations of the parts are regular. -/
theorem allRegular : AllRegular vs := by
  intro v hv
  obtain ⟨p, hp, hv⟩ := List.mem_flatMap.1 (h.perm.mem_iff.1 hv)
  exact (h.madeBy p hp v hv).regular

variable {p : List Rule × List Violation} (hp : p ∈ parts)
include hp

/-- The violations of a rule are those of the part that it makes. -/
theorem ofRule_perm {rule : Rule} (hrule : rule ∈ p.1) :
    (Diagnosis.ofRule rule vs).Perm (Diagnosis.ofRule rule p.2) :=
  (Diagnosis.ofRule_perm rule h.perm).trans
    (.of_eq (Diagnosis.ofRule_flatMap_eq h.madeBy h.apart hp hrule))

/-- The violations of a part are those of its rules. -/
theorem mem_part_iff {v : Violation} :
    v ∈ p.2 ↔ ∃ rule ∈ p.1, v ∈ Diagnosis.ofRule rule vs := by
  constructor
  · intro hv
    obtain ⟨rule, hrule, hid, -⟩ := h.madeBy p hp v hv
    exact ⟨rule, hrule, (h.ofRule_perm hp hrule).mem_iff.2 (Diagnosis.mem_ofRule.2 ⟨hv, hid⟩)⟩
  · rintro ⟨rule, hrule, hv⟩
    exact (Diagnosis.mem_ofRule.1 ((h.ofRule_perm hp hrule).mem_iff.1 hv)).1

end Assembled

end Violation

end Strata
