/-
# Which check raises a rule

Specification, section 4.6 (b): the rules of the checks.

Every check reports rules of its own (`reports_identityFindings` and the lemmas beside it)
and no two rules have the same text (`PolicyRule.id_injective`). So a rule that the list
of a check leaves out is not raised by that check (`Reports.not_raises`), and a verdict
raises a rule exactly when the one check that knows it does.
-/

import Strata.Proofs.Correction.Compliance

namespace Strata
namespace Correction

open Policy

namespace PolicyRule

/-- A rule is the first of all rules with its text. -/
theorem find?_id (rule : PolicyRule) :
    Policy.rules.find? (fun r => r.id == rule.id) = some rule := by
  cases rule <;> decide

/-- **No two rules have the same text.** -/
theorem id_injective {rule rule' : PolicyRule} (h : rule.id = rule'.id) : rule = rule' := by
  have hfind := find?_id rule
  rw [h, find?_id rule'] at hfind
  exact (Option.some.inj hfind).symm

end PolicyRule

/-- Some finding is about this rule. -/
def Raises (fs : List Finding) (rule : PolicyRule) : Prop := ∃ f ∈ fs, f.ruleId = rule.id

variable {fs gs : List Finding} {rule : PolicyRule}

theorem raises_append : Raises (fs ++ gs) rule ↔ Raises fs rule ∨ Raises gs rule := by
  simp only [Raises, List.mem_append, or_and_right, exists_or]

theorem raises_fatal (message : String) : Raises [.fatal rule message] rule :=
  ⟨_, List.mem_singleton_self _, rfl⟩

theorem raises_findIf_fatal {condition : Bool} {message : String} :
    Raises (findIf condition (.fatal rule message)) rule ↔ condition = true := by
  cases condition with
  | false => exact iff_of_false (fun ⟨_, hf, _⟩ => absurd hf List.not_mem_nil) Bool.noConfusion
  | true => exact iff_of_true (raises_fatal message) rfl

/-- A check raises no rule but its own. -/
theorem Reports.not_raises {rules : List PolicyRule} (h : Reports fs rules)
    (hrule : rule ∉ rules) : ¬ Raises fs rule := by
  rintro ⟨f, hf, hid⟩
  obtain ⟨r, hr, hrid, -⟩ := h.exists_rule hf
  exact hrule (PolicyRule.id_injective (hrid.symm.trans hid) ▸ hr)

/-- The verdict on a step with metadata raises what its findings are about. -/
theorem Step.hasRule_evaluate {step : Step} {m : Metadata} (hm : step.input.metadata? = some m) :
    step.evaluate.hasRule rule.id = true ↔ Raises (findings step m) rule := by
  rw [Step.evaluate, hm]
  simp only [Verdict.hasRule, Verdict.ofFindings, List.any_eq_true, beq_iff_eq, Raises]

end Correction
end Strata
