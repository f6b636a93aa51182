/-
# When an attempt does not match the id of a step

Specification, section 4.6 (b), `correction_attempt_suffix_match`: the id of a step ends
in the attempt that it declares.

A step whose metadata declare an attempt above zero is found at fault for it exactly when
its id does not end in that attempt. An id may hold the mark several times, and digits
that are no ASCII ones; neither makes it ambiguous. Behind the mark that the digits of an
id stand behind there is no other mark, for a mark ends in a character that is no digit
(`cutAtLastMark_of_digits`). So an id is cut in one way at most, and that is at the last
mark (`CutAtLastMark.unique`).
-/

import Strata.Proofs.Correction.Raised
import Mathlib.Data.Bool.AllAny

namespace Strata
namespace Correction

open Text Policy

/-! ### Where an id is cut -/

/-- An id, cut at the last mark that it holds. -/
structure CutAtLastMark (id kind rest : List Char) : Prop where
  parts : id = kind ++ attemptMark ++ rest
  last : ∀ kind' rest', id = kind' ++ attemptMark ++ rest' → kind'.length ≤ kind.length

theorem CutAtLastMark.unique {id kind kind' rest rest' : List Char}
    (h : CutAtLastMark id kind rest) (h' : CutAtLastMark id kind' rest') :
    kind = kind' ∧ rest = rest' := by
  have hlength : (kind ++ attemptMark).length = (kind' ++ attemptMark).length := by
    rw [List.length_append, List.length_append,
      Nat.le_antisymm (h'.last _ _ h.parts) (h.last _ _ h'.parts)]
  obtain ⟨hfront, hrest⟩ := List.append_inj (h.parts.symm.trans h'.parts) hlength
  exact ⟨List.append_cancel_right hfront, hrest⟩

/-- Behind a mark that only digits follow there is no other mark. -/
theorem cutAtLastMark_of_digits {id kind digits : List Char}
    (h : id = kind ++ attemptMark ++ digits) (hdigits : ∀ x ∈ digits, isDigit x = true) :
    CutAtLastMark id kind digits := by
  refine ⟨h, fun kind' rest' h' => Nat.le_of_not_lt fun hlt => ?_⟩
  have hfronts : (kind ++ attemptMark).length < (kind' ++ attemptMark).length := by
    rw [List.length_append, List.length_append]
    exact Nat.add_lt_add_right hlt _
  rcases List.append_eq_append_iff.1 (h.symm.trans h') with
    ⟨more, hfront, hbehind⟩ | ⟨more, hfront, -⟩
  · -- the later mark ends among the digits
    have hmark : attemptMark.getLast? = some '-' := by decide
    have hlast : (kind ++ attemptMark ++ more).getLast? = some '-' := by
      rw [← hfront, List.getLast?_append, hmark]
      rfl
    have hmore : more ≠ [] := by
      rintro rfl
      rw [List.append_nil] at hfront
      exact Nat.lt_irrefl _ (hfront ▸ hfronts)
    rw [List.getLast?_append_of_ne_nil _ hmore] at hlast
    have hmem : '-' ∈ digits := hbehind ▸ List.mem_append_left _ (List.mem_of_getLast? hlast)
    exact absurd (hdigits _ hmem) (by decide)
  · have hle := (List.prefix_append (kind' ++ attemptMark) more).length_le
    rw [← hfront] at hle
    exact Nat.not_lt_of_le hle hfronts

/-! ### When the rule is raised -/

/-- The rule on the attempt is raised when the id does not end in the attempt. -/
theorem raises_attemptSuffixMatch {step : Step} {m : Metadata} {n : Int64}
    (hn : m.attempt = some n) (hpositive : 1 ≤ n.toInt) :
    Raises (findings step m) .attemptSuffixMatch ↔ ¬ EndsInAttempt step.id n.toInt := by
  have hphase : ¬ Raises (findIf (isMissing m.phase)
      (.fatal .phasePresent "correction metadata has no phase")) .attemptSuffixMatch :=
    (Reports.fatalIf (by decide)).not_raises (by decide)
  have hfailed : ¬ Raises (findIf (isMissing m.failedStepId)
      (.fatal .failedStepPresent "correction metadata does not name the failed step"))
      .attemptSuffixMatch :=
    (Reports.fatalIf (by decide)).not_raises (by decide)
  have hconstraint : ¬ Raises (constraintFindings step m) .attemptSuffixMatch :=
    (reports_constraintFindings step m).not_raises (by decide)
  have hstatus : ¬ Raises (statusFindings step) .attemptSuffixMatch :=
    (reports_statusFindings step).not_raises (by decide)
  have hdiffs : ¬ Raises (diffFindings step m) .attemptSuffixMatch :=
    (reports_diffFindings step m).not_raises (by decide)
  have hone : (1 : Int64) ≤ n := Int64.le_iff_toInt_le.2 hpositive
  have hfilter : m.attempt.filter (1 ≤ ·) = some n := by
    rw [hn, Option.filter_some, if_pos (decide_eq_true hone)]
  simp only [findings, identityFindings, raises_append, hphase, hfailed, hconstraint, hstatus,
    hdiffs, or_false, false_or]
  simp only [attemptFindings, hfilter]
  rw [raises_findIf_fatal, bne_iff_ne, ne_eq, attemptOfId?_eq_some_iff]

/-- **The attempt of a step is found at fault exactly when the id does not end in it.** An id is
cut in front of its digits in one way at most, so one that holds the mark several times is
judged by the last one. Source: specification, section 4.6 (b),
`correction_attempt_suffix_match`. -/
theorem Step.attempt_matches_iff {step : Step} {m : Metadata} {n : Int64}
    (hm : step.input.metadata? = some m) (hn : m.attempt = some n) (hpositive : 1 ≤ n.toInt) :
    (step.evaluate.hasRule PolicyRule.attemptSuffixMatch.id = false ↔
      EndsInAttempt step.id n.toInt) ∧
    (∀ id kind digits kind' digits' : List Char,
      id = kind ++ attemptMark ++ digits → id = kind' ++ attemptMark ++ digits' →
      (∀ x ∈ digits, isDigit x = true) → (∀ x ∈ digits', isDigit x = true) →
      kind = kind' ∧ digits = digits') ∧
    ∀ kind rest, CutAtLastMark step.id.toList kind rest →
      (step.evaluate.hasRule PolicyRule.attemptSuffixMatch.id = false ↔
        kind ≠ [] ∧ '\n' ∉ kind ∧
        rest ≠ [] ∧ (∀ x ∈ rest, isDecimal x = true) ∧ (decimalValue rest : Int) = n.toInt) := by
  have hraised : step.evaluate.hasRule PolicyRule.attemptSuffixMatch.id = false ↔
      EndsInAttempt step.id n.toInt := by
    rw [← Bool.not_eq_true, Step.hasRule_evaluate hm, raises_attemptSuffixMatch hn hpositive,
      not_not]
  refine ⟨hraised, fun id kind digits kind' digits' h h' hdigits hdigits' => ?_,
    fun kind rest hcut => hraised.trans ⟨?_, fun h => ⟨kind, rest, hcut.parts, h⟩⟩⟩
  · -- with digits behind it the mark is the last one, so two ways to cut are the same
    exact (cutAtLastMark_of_digits h hdigits).unique (cutAtLastMark_of_digits h' hdigits')
  · rintro ⟨kind', digits, hparts, h⟩
    have hdigits : ∀ x ∈ digits, isDigit x = true := fun x hx =>
      isDigit_of_isDecimal (h.2.2.2.1 x hx)
    obtain ⟨rfl, rfl⟩ := hcut.unique (cutAtLastMark_of_digits hparts hdigits)
    exact h

/-- A step that declares an attempt and nothing else. -/
def attemptStep (id : String) (attempt : Nat) : Step where
  id
  input := ⟨some (.record [("attempt", .ofNat attempt)])⟩
  status := none
  errorMessage := none
  commitHash := none
  outputPayload := none
  resolvedConstraint := none
  maxFilesPerStep := none
  maxTotalDiffBytes := none

/-- Of two marks the second one counts, and zeros in front of the attempt do not. -/
theorem Step.attempt_matches_iff_twoMarks :
    (attemptStep "boot-correction-2-correction-03" 3).evaluate.hasRule
      PolicyRule.attemptSuffixMatch.id = false ∧
    ¬ (attemptStep "boot-correction-2-correction-03" 2).evaluate.hasRule
      PolicyRule.attemptSuffixMatch.id = false := by
  have hcut : CutAtLastMark "boot-correction-2-correction-03".toList "boot-correction-2".toList
      "03".toList :=
    cutAtLastMark_of_digits (by decide) (List.all_iff_forall_prop.1 (by decide))
  have hread (n : Int64) (hn : n = 3 ∨ n = 2) :
      (attemptStep "boot-correction-2-correction-03" n.toInt.toNat).input.metadata? =
        some ⟨none, some n, none, none, none⟩ := by
    rcases hn with rfl | rfl <;> decide +kernel
  constructor
  · obtain ⟨-, -, hlast⟩ := Step.attempt_matches_iff (hread 3 (.inl rfl)) rfl (by decide)
    exact (hlast _ _ hcut).2 ⟨by decide, by decide, by decide,
      List.all_iff_forall_prop.1 (by decide), by decide⟩
  · obtain ⟨-, -, hlast⟩ := Step.attempt_matches_iff (hread 2 (.inr rfl)) rfl (by decide)
    exact fun h => absurd ((hlast _ _ hcut).1 h).2.2.2.2 (by decide)

end Correction
end Strata
