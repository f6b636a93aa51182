/-
# When a step is accepted

Specification, section 4.6: a result is ok when nothing in it is fatal.

The verdict on a step is `ok` when no finding is fatal. Findings are collected
check by check, so what an accepted step satisfies is read off one check at a
time: `Clean` distributes over the list of findings, and a check that reports a
fatal finding under a condition is clean exactly when the condition fails.
-/

import Strata.Correction.Policy

namespace Strata
namespace Correction

open Policy

/-- No finding of the list is fatal. -/
def Clean (fs : List Finding) : Prop := ∀ f ∈ fs, f.isFatal = false

theorem clean_nil : Clean [] := fun _ h => absurd h List.not_mem_nil

theorem clean_append {xs ys : List Finding} : Clean (xs ++ ys) ↔ Clean xs ∧ Clean ys :=
  List.forall_mem_append

theorem not_clean_fatal (rule : PolicyRule) (message : String) :
    ¬ Clean [.fatal rule message] := fun h => by
  simpa [Finding.fatal, Finding.isFatal] using h _ List.mem_cons_self

theorem clean_findIf_fatal {condition : Bool} {rule : PolicyRule} {message : String} :
    Clean (findIf condition (.fatal rule message)) ↔ condition = false := by
  cases condition with
  | false => exact iff_of_true clean_nil rfl
  | true => exact iff_of_false (not_clean_fatal rule message) Bool.noConfusion

/-- A verdict is `ok` when its findings are clean. -/
theorem Verdict.ofFindings_ok {fs : List Finding} :
    (Verdict.ofFindings fs).ok = true ↔ Clean fs := by
  simp [Verdict.ofFindings, Clean]

/-- **A step is accepted when it carries metadata and no check objects.** -/
theorem Step.evaluate_ok {step : Step} :
    step.evaluate.ok = true ↔
      ∃ m, step.input.metadata? = some m ∧ Clean (findings step m) := by
  unfold Step.evaluate
  cases hm : step.input.metadata? with
  | none =>
    refine iff_of_false (fun h => ?_) fun ⟨_, h, _⟩ => by cases h
    exact not_clean_fatal _ _ (Verdict.ofFindings_ok.1 h)
  | some m =>
    rw [Verdict.ofFindings_ok]
    exact ⟨fun h => ⟨m, rfl, h⟩, fun ⟨_, rfl, h⟩ => h⟩

/-- The staged diffs pass when every path is matched and no budget is
exceeded. -/
theorem clean_stagedFindings {diffs : List StagedDiff} {d : Declaration} :
    Clean (stagedFindings diffs d) ↔
      outsidePaths d (stagedPaths diffs) = [] ∧
        exceeds (stagedPaths diffs).length d.maxFiles = false ∧
        exceeds (diffBytes diffs) d.maxTotalDiffBytes = false := by
  simp only [stagedFindings, clean_append, clean_findIf_fatal, Bool.not_eq_false',
    List.isEmpty_iff, and_assoc]

/-- What was staged is only checked when there is something. -/
theorem clean_diffFindings {step : Step} {m : Metadata} {d : Declaration}
    (h : m.constraint = some d) :
    Clean (diffFindings step m) ↔
      step.stagedDiffs = [] ∨ Clean (stagedFindings step.stagedDiffs d) := by
  unfold diffFindings
  rw [h]
  cases hdiffs : step.stagedDiffs with
  | nil => exact iff_of_true clean_nil (.inl rfl)
  | cons diff diffs => simp

/-- **What an accepted step declares.** It has metadata with a constraint. -/
theorem Step.exists_constraint {step : Step} (h : step.evaluate.ok = true) :
    ∃ m d, step.input.metadata? = some m ∧ m.constraint = some d ∧
      Clean (findings step m) := by
  obtain ⟨m, hm, hclean⟩ := Step.evaluate_ok.1 h
  cases hc : m.constraint with
  | some d => exact ⟨m, d, hm, hc, hclean⟩
  | none =>
    have hnone : Clean (constraintFindings step m) := by
      simp only [findings, clean_append] at hclean
      exact hclean.1.1.2
    rw [constraintFindings, hc] at hnone
    exact absurd hnone (not_clean_fatal _ _)

/-- Every staged path of an accepted step is matched by a prefix. -/
theorem Step.staged_matched {step : Step} {m : Metadata} {d : Declaration}
    (hc : m.constraint = some d) (h : Clean (findings step m)) {diff : StagedDiff}
    (hdiff : diff ∈ step.stagedDiffs) :
    ∃ pre ∈ normalizePrefixes d.allowedPathPrefixes,
      pathWithinPrefix (normalizePrefix diff.path) pre = true := by
  rw [findings, clean_append, clean_diffFindings hc, clean_stagedFindings] at h
  obtain hnil | ⟨houtside, -⟩ := h.2
  · rw [hnil] at hdiff
    exact absurd hdiff List.not_mem_nil
  · have hpath : normalizePrefix diff.path ∈ stagedPaths step.stagedDiffs :=
      List.mem_eraseDups.2 (List.mem_map_of_mem hdiff)
    have hin := List.filter_eq_nil_iff.1 houtside _ hpath
    simpa using hin

end Correction
end Strata
