/-
# The policy, as a condition on steps

Specification, section 4.6 (b): every check of a step.

What the policy asks of a step, said once without its findings (`Step.Complies`): typed
metadata, an identity, a constraint within the caps, a classified intent that is the one
of the constraint, no difference from the constraint that was resolved, an end that shows
what was done, and staged diffs within the constraint. The verdict is `ok` for the steps
that comply, and for no others (`Step.verdict_exact`).

| check | clean when |
| --- | --- |
| `identityFindings` | `Identified` |
| `shapeFindings`, `limitFindings` | `Bounded`: limits above zero, within their caps; some prefix |
| `intentFindings` | `SameIntent` |
| `resolvedFindings` | `Declaration.Matches` |
| `statusFindings` | `Step.Concluded` |
| `stagedFindings` | `Staged`: paths, number of files and bytes within the constraint |

Every rule is reported once at most, in the order of `Policy.rules`
(`reports_evaluate`), so the two counts of a verdict are those of its findings.
-/

import Strata.Proofs.Correction.Scope
import Strata.Proofs.Correction.StepId
import Strata.Proofs.Correction.Verdict
import Strata.Proofs.Lists
import Strata.Proofs.Sorting
import Mathlib.Algebra.GroupWithZero.Nat
import Mathlib.Data.Finset.Card

namespace Strata
namespace Correction

open Text Policy

/-! ### Numbers of 64 bits -/

/-- A signed number that is not negative keeps its value when its bits are read without a sign. -/
theorem toNat_toUInt64 {n : Int64} (h : 0 ≤ n.toInt) : (n.toUInt64.toNat : Int) = n.toInt := by
  have hle : 0 ≤ n := Int64.le_iff_toInt_le.2 h
  rw [Int64.toNat_toUInt64_of_le hle, Int64.toNatClampNeg, Int.toNat_of_nonneg h]

/-- A natural number of 64 bits that is read as a signed one stays itself when it is read
as one above zero. -/
theorem eq_toInt64_iff {n : Int64} {m : UInt64} (h : 0 ≤ n.toInt) :
    n = m.toInt64 ↔ n.toInt = m.toNat := by
  rw [← toNat_toUInt64 h, Int.natCast_inj, UInt64.toNat_inj]
  constructor
  · rintro rfl
    exact m.toUInt64_toInt64
  · rintro rfl
    exact n.toInt64_toUInt64.symm

/-! ### The conditions -/

/-- A text that is there and not blank. -/
def Present (s : Option String) : Prop := ∃ t, s = some t ∧ ∃ x ∈ t.toList, isBlank x = false

/-- A limit that is there, above zero and at most the cap. -/
def WithinCap (limit : Option Int64) (cap : UInt64) : Prop :=
  ∃ n, limit = some n ∧ 0 < n.toInt ∧ n.toInt ≤ cap.toNat

/-- Metadata that name a phase, the failed step and the attempt that the id of the step
ends in. -/
structure Identified (id : String) (m : Metadata) : Prop where
  phase : Present m.phase
  failedStep : Present m.failedStepId
  attempt : ∃ n, m.attempt = some n ∧ 1 ≤ n.toInt ∧ EndsInAttempt id n.toInt

/-- A declared constraint with limits within the caps and some path prefix. -/
structure Bounded (d : Declaration) (caps : Caps) : Prop where
  files : WithinCap d.maxFiles caps.maxFilesPerStep
  bytes : WithinCap d.maxTotalDiffBytes caps.maxTotalDiffBytes
  prefixes : ∃ p ∈ d.allowedPathPrefixes, normalizePrefix p ≠ ""

/-- An intent that was classified and is the declared one, but for padding. -/
def SameIntent (classified declared : Option String) : Prop :=
  ∃ s t, classified = some s ∧ declared = some t ∧ trim s = trim t

/-- A declared constraint that says the same as a resolved one. -/
structure Declaration.Matches (d : Declaration) (r : Constraint) : Prop where
  intent : ∃ t, d.intent = some t ∧ trim t = r.intent.text
  files : ∃ n, d.maxFiles = some n ∧ n.toInt = r.maxFiles.toNat
  bytes : ∃ n, d.maxTotalDiffBytes = some n ∧ n.toInt = r.maxTotalDiffBytes.toNat
  prefixes : ∀ p, p ∈ normalizePrefixes d.allowedPathPrefixes ↔
    p ∈ normalizePrefixes r.allowedPathPrefixes

/-- A step that shows a commit and some diffs if it says that it was completed. -/
def Step.Concluded (step : Step) : Prop :=
  step.status = some .completed → Present step.commitHash ∧ step.stagedDiffs ≠ []

/-- Staged diffs that keep to a declared constraint. -/
structure Staged (diffs : List StagedDiff) (d : Declaration) : Prop where
  paths : ∀ diff ∈ diffs, ∃ p ∈ d.allowedPathPrefixes,
    pathWithinPrefix (normalizePrefix diff.path) (normalizePrefix p) = true
  files : ∀ n, d.maxFiles = some n →
    ((diffs.map fun diff => normalizePrefix diff.path).toFinset.card : Int) ≤ n.toInt
  bytes : ∀ n, d.maxTotalDiffBytes = some n →
    ((diffs.map fun diff => diff.diffPreview.utf8ByteSize).sum : Nat) ≤ n.toInt

/-- A step that keeps to the policy, with these metadata and this constraint. -/
structure Step.Complies (step : Step) (m : Metadata) (d : Declaration) : Prop where
  typed : ∃ members, step.input.deepCorrection = some (.object members) ∧
    Metadata.ofJson? (.object members) = some m
  identified : Identified step.id m
  declared : m.constraint = some d
  bounded : Bounded d step.caps
  intent : SameIntent (m.classification.bind Classification.intent) d.intent
  resolved : ∀ r, step.resolvedConstraint = some r → d.Matches r
  concluded : step.Concluded
  staged : Staged step.stagedDiffs d

/-! ### Check by check -/

/-- The check for a missing text is the negation of `Present`. -/
theorem isMissing_eq_false_iff {s : Option String} : isMissing s = false ↔ Present s := by
  cases s with
  | none => simp [isMissing, Present]
  | some t => simp [isMissing, Present, isBlankText]

/-- The attempt has to be there, at least one, and the one that the id of the step ends in. The
suffix is only looked at when the number is fine. -/
theorem clean_attemptFindings {id : String} {attempt : Option Int64} :
    Clean (attemptFindings id attempt) ↔
      ∃ n, attempt = some n ∧ 1 ≤ n.toInt ∧ EndsInAttempt id n.toInt := by
  unfold attemptFindings
  dsimp only
  split
  · rename_i n hn
    obtain ⟨hn, hpositive⟩ := Option.filter_eq_some_iff.1 hn
    have hone : 1 ≤ n.toInt := Int64.le_iff_toInt_le.1 (of_decide_eq_true hpositive)
    rw [clean_findIf_fatal, bne_eq_false_iff_eq, attemptOfId?_eq_some_iff, hn]
    exact ⟨fun h => ⟨n, rfl, hone, h⟩, fun ⟨_, rfl, _, h⟩ => h⟩
  · rename_i hnone
    refine iff_of_false (not_clean_fatal _ _) fun ⟨n, hn, hone, _⟩ => ?_
    have hpositive : decide (1 ≤ n) = true := decide_eq_true (Int64.le_iff_toInt_le.2 hone)
    exact Option.filter_eq_none_iff.1 hnone n hn hpositive

/-- The four checks of the identity find nothing exactly when it is in order. -/
theorem clean_identityFindings {id : String} {m : Metadata} :
    Clean (identityFindings id m) ↔ Identified id m := by
  simp only [identityFindings, clean_append, clean_findIf_fatal, isMissing_eq_false_iff,
    clean_attemptFindings]
  exact ⟨fun ⟨⟨hphase, hattempt⟩, hstep⟩ => ⟨hphase, hstep, hattempt⟩,
    fun h => ⟨⟨h.phase, h.attempt⟩, h.failedStep⟩⟩

/-- One limit is checked twice, against zero and against its cap; this is the parameter of both
families of rules. -/
theorem clean_limitFindings {name : String} {positive withinCap : PolicyRule}
    {limit : Option Int64} {cap : UInt64} :
    Clean (limitFindings name positive withinCap limit cap) ↔ WithinCap limit cap := by
  unfold limitFindings
  split
  · rename_i n hn
    obtain ⟨hn, hpositive⟩ := Option.filter_eq_some_iff.1 hn
    have hzero : 0 < n.toInt := Int64.lt_iff_toInt_lt.1 (of_decide_eq_true hpositive)
    have hle : cap < n.toUInt64 ↔ ¬ n.toInt ≤ cap.toNat := by
      rw [UInt64.lt_iff_toNat_lt, ← toNat_toUInt64 (Int.le_of_lt hzero)]
      omega
    rw [clean_findIf_fatal, decide_eq_false_iff_not, hle, not_not, hn]
    exact ⟨fun h => ⟨n, rfl, hzero, h⟩, fun ⟨_, rfl, _, h⟩ => h⟩
  · rename_i hnone
    refine iff_of_false (not_clean_fatal _ _) fun ⟨n, hn, hzero, _⟩ => ?_
    have hpositive : decide (0 < n) = true := decide_eq_true (Int64.lt_iff_toInt_lt.2 hzero)
    exact Option.filter_eq_none_iff.1 hnone n hn hpositive

/-- Some prefix is left when all are in normal form. -/
theorem normalizePrefixes_ne_nil_iff {prefixes : List String} :
    normalizePrefixes prefixes ≠ [] ↔ ∃ p ∈ prefixes, normalizePrefix p ≠ "" := by
  rw [ne_eq, List.eq_nil_iff_forall_not_mem]
  simp [mem_normalizePrefixes, and_comm]

/-- The limits and the prefixes of a constraint, together. -/
theorem clean_shapeFindings {d : Declaration} {caps : Caps} :
    Clean (shapeFindings d caps) ↔ Bounded d caps := by
  simp only [shapeFindings, clean_append, clean_findIf_fatal, clean_limitFindings,
    List.isEmpty_eq_false_iff, normalizePrefixes_ne_nil_iff]
  exact ⟨fun ⟨⟨hfiles, hbytes⟩, hprefixes⟩ => ⟨hfiles, hbytes, hprefixes⟩,
    fun h => ⟨⟨h.files, h.bytes⟩, h.prefixes⟩⟩

/-- An intent that is missing on either side is a fault, and so are two that differ behind their
padding. -/
theorem clean_intentFindings {classified declared : Option String} :
    Clean (intentFindings classified declared) ↔ SameIntent classified declared := by
  simp only [intentFindings, clean_findIf_fatal, Bool.or_eq_false_iff, bne_eq_false_iff_eq]
  constructor
  · rintro ⟨hsome, hsame⟩
    cases classified with
    | none => cases hsome
    | some s =>
      obtain ⟨t, ht, hsame⟩ := Option.map_eq_some_iff.1 hsame.symm
      exact ⟨s, t, rfl, ht, hsame.symm⟩
  · rintro ⟨s, t, rfl, rfl, hsame⟩
    exact ⟨rfl, congrArg some hsame⟩

/-- Texts are the same in increasing order when they are the same as sets. -/
theorem ordered_eq_iff {xs ys : List String} :
    ordered xs = ordered ys ↔ ∀ t, t ∈ xs ↔ t ∈ ys := by
  constructor
  · intro h t
    rw [← mem_ordered, h, mem_ordered]
  · intro h
    refine eq_of_increasing (fun a b => String.lt_asymm) (pairwise_ordered xs)
      (pairwise_ordered ys) fun t => ?_
    rw [mem_ordered, mem_ordered]
    exact h t

/-- A limit above zero is the resolved one bit by bit exactly when the two numbers are equal. -/
theorem WithinCap.eq_toInt64_iff {limit : Option Int64} {cap m : UInt64} (h : WithinCap limit cap) :
    limit = some m.toInt64 ↔ ∃ n, limit = some n ∧ n.toInt = m.toNat := by
  obtain ⟨n, rfl, hzero, -⟩ := h
  rw [Option.some.injEq, Correction.eq_toInt64_iff (Int.le_of_lt hzero)]
  exact ⟨fun h => ⟨n, rfl, h⟩, fun ⟨_, rfl, h⟩ => h⟩

/-- The comparison with a resolved constraint is exact for limits above zero. -/
theorem agrees_iff {d : Declaration} {caps : Caps} (h : Bounded d caps) {r : Constraint} :
    agrees d r = true ↔ d.Matches r := by
  simp only [agrees, Bool.and_eq_true, beq_iff_eq, h.files.eq_toInt64_iff, h.bytes.eq_toInt64_iff,
    ordered_eq_iff, Option.map_eq_some_iff]
  exact ⟨fun ⟨⟨⟨hintent, hfiles⟩, hbytes⟩, hprefixes⟩ => ⟨hintent, hfiles, hbytes, hprefixes⟩,
    fun h => ⟨⟨⟨h.intent, h.files⟩, h.bytes⟩, h.prefixes⟩⟩

/-- Everything that is asked of a declared constraint: its bounds, its intent, and that it says
the same as the resolved one. -/
theorem clean_constraintFindings {step : Step} {m : Metadata} {d : Declaration}
    (h : m.constraint = some d) :
    Clean (constraintFindings step m) ↔ Bounded d step.caps ∧
      SameIntent (m.classification.bind Classification.intent) d.intent ∧
      ∀ r, step.resolvedConstraint = some r → d.Matches r := by
  rw [constraintFindings, h]
  simp only [clean_append, clean_shapeFindings, clean_intentFindings, and_assoc]
  refine and_congr_right fun hbounded => and_congr_right fun _ => ?_
  cases step.resolvedConstraint with
  | none => exact iff_of_true clean_nil fun r hr => by cases hr
  | some r =>
    simp only [Option.map_some, Option.getD_some, resolvedFindings, clean_findIf_fatal,
      Bool.not_eq_false', agrees_iff hbounded, Option.some.injEq, forall_eq']

/-- A warning does not make findings unclean. -/
theorem clean_findIf_warning (condition : Bool) (rule : PolicyRule) (message : String) :
    Clean (findIf condition (.warning rule message)) := by
  cases condition with
  | false => exact clean_nil
  | true => exact fun f hf => List.mem_singleton.1 hf ▸ rfl

/-- What a step has to show at its end. That an error message is missing is only warned about. -/
theorem clean_statusFindings {step : Step} : Clean (statusFindings step) ↔ step.Concluded := by
  unfold statusFindings Step.Concluded
  split
  · rename_i hstatus
    simp [hstatus, clean_append, clean_findIf_fatal, isMissing_eq_false_iff]
  · rename_i hstatus
    rw [hstatus]
    exact iff_of_true (clean_findIf_warning _ _ _) fun h => by cases h
  · rename_i hstatus _
    exact iff_of_true clean_nil fun h => absurd h hstatus

/-- Within its cap a limit is exceeded as a signed number, not as its bits. -/
theorem exceeds_eq_false_iff {n : Nat} {limit : Option Int64} {cap : UInt64}
    (h : WithinCap limit cap) :
    exceeds n limit = false ↔ ∀ m, limit = some m → (n : Int) ≤ m.toInt := by
  obtain ⟨m, rfl, hzero, -⟩ := h
  have hpositive : decide (0 < m) = true := decide_eq_true (Int64.lt_iff_toInt_lt.2 hzero)
  simp [exceeds, Option.filter_some, hpositive]

/-- As many different elements are left as a list has. -/
theorem length_eraseDups (xs : List String) : xs.eraseDups.length = xs.toFinset.card := by
  rw [← List.toFinset_card_of_nodup (nodup_eraseDups xs)]
  congr 1
  ext x
  rw [List.mem_toFinset, List.mem_toFinset, List.mem_eraseDups]

/-- The bytes are counted one diff after the other. -/
theorem diffBytes_eq_sum (diffs : List StagedDiff) :
    diffBytes diffs = (diffs.map fun diff => diff.diffPreview.utf8ByteSize).sum := by
  induction diffs with
  | nil => rfl
  | cons diff diffs ih => rw [List.map_cons, List.sum_cons, ← ih]; rfl

/-- No path is reported as outside when each of them is matched by some prefix. -/
theorem outsidePaths_eq_nil_iff {diffs : List StagedDiff} {d : Declaration} :
    outsidePaths d (stagedPaths diffs) = [] ↔
      ∀ diff ∈ diffs, ∃ p ∈ d.allowedPathPrefixes,
        pathWithinPrefix (normalizePrefix diff.path) (normalizePrefix p) = true := by
  simp only [outsidePaths, stagedPaths, List.filter_eq_nil_iff, Bool.not_eq_true',
    Bool.not_eq_false, List.any_eq_true, exists_matching_normalizePrefixes, List.mem_eraseDups,
    List.forall_mem_map]

/-- What was staged is checked path by path, its number and its bytes together. -/
theorem clean_stagedFindings_iff {diffs : List StagedDiff} {d : Declaration} {caps : Caps}
    (h : Bounded d caps) : Clean (stagedFindings diffs d) ↔ Staged diffs d := by
  rw [clean_stagedFindings, outsidePaths_eq_nil_iff, exceeds_eq_false_iff h.files,
    exceeds_eq_false_iff h.bytes, stagedPaths, length_eraseDups, diffBytes_eq_sum]
  exact ⟨fun ⟨hpaths, hfiles, hbytes⟩ => ⟨hpaths, hfiles, hbytes⟩,
    fun h => ⟨h.paths, h.files, h.bytes⟩⟩

/-- Against limits that are in order themselves, the staged diffs are in order exactly when
they keep to the constraint. Without any diff nothing is measured. -/
theorem clean_diffFindings_iff {step : Step} {m : Metadata} {d : Declaration} {caps : Caps}
    (hd : m.constraint = some d) (h : Bounded d caps) :
    Clean (diffFindings step m) ↔ Staged step.stagedDiffs d := by
  rw [clean_diffFindings hd, clean_stagedFindings_iff h, or_iff_right_of_imp]
  intro hnil
  rw [hnil]
  obtain ⟨files, hfiles, hpositive, -⟩ := h.files
  obtain ⟨bytes, hbytes, hpositive', -⟩ := h.bytes
  refine ⟨by simp, fun n hn => ?_, fun n hn => ?_⟩
  · obtain rfl := Option.some.inj (hfiles.symm.trans hn)
    exact Int.le_of_lt hpositive
  · obtain rfl := Option.some.inj (hbytes.symm.trans hn)
    exact Int.le_of_lt hpositive'

/-! ### The verdict -/

/-- Metadata that are no object are not there, whatever else they are. -/
theorem metadata?_eq_some_iff {i : StepInput} {m : Metadata} :
    i.metadata? = some m ↔ ∃ members, i.deepCorrection = some (.object members) ∧
      Metadata.ofJson? (.object members) = some m := by
  unfold StepInput.metadata?
  split
  · rename_i members hmembers
    rw [hmembers]
    exact ⟨fun h => ⟨members, rfl, h⟩, fun ⟨_, heq, h⟩ => by cases heq; exact h⟩
  · rename_i hother
    exact iff_of_false (fun h => by cases h) fun ⟨members, heq, _⟩ => hother members heq

/-- **A step is accepted when it complies, and only then.** -/
theorem Step.ok_iff_complies {step : Step} :
    step.evaluate.ok = true ↔ ∃ m d, step.Complies m d := by
  constructor
  · intro h
    obtain ⟨m, d, hm, hd, hclean⟩ := Step.exists_constraint h
    simp only [findings, clean_append, clean_identityFindings, clean_constraintFindings hd,
      clean_statusFindings] at hclean
    obtain ⟨⟨⟨hidentified, hbounded, hintent, hresolved⟩, hconcluded⟩, hdiffs⟩ := hclean
    exact ⟨m, d, metadata?_eq_some_iff.1 hm, hidentified, hd, hbounded, hintent, hresolved,
      hconcluded, (clean_diffFindings_iff hd hbounded).1 hdiffs⟩
  · rintro ⟨m, d, h⟩
    refine Step.evaluate_ok.2 ⟨m, metadata?_eq_some_iff.2 h.typed, ?_⟩
    simp only [findings, clean_append, clean_identityFindings, clean_constraintFindings h.declared,
      clean_statusFindings, clean_diffFindings_iff h.declared h.bounded]
    exact ⟨⟨⟨h.identified, h.bounded, h.intent, h.resolved⟩, h.concluded⟩, h.staged⟩

/-! ### The rules that are reported -/

/-- How grave a rule is: all reject a step but the one about a missing error message. -/
def PolicyRule.gravity : PolicyRule → Gravity
  | failedErrorMessage => .warning
  | _ => .fatal

/-- The rules, in the order in which they are reported. -/
def Policy.rules : List PolicyRule :=
  [.metadataPresent, .phasePresent, .attemptPositive, .attemptSuffixMatch, .failedStepPresent,
   .constraintPresent, .maxFilesPositive, .maxFilesWithinCap, .maxBytesPositive,
   .maxBytesWithinCap, .prefixesPresent,
   .intentMatchesConstraint, .resolvedConstraintConsistency, .commitPresent, .stagedDiffsPresent,
   .failedErrorMessage, .stagedPathsWithinConstraint, .stagedFileCountWithinConstraint,
   .diffBudgetWithinConstraint]

/-- The findings are about some of these rules, in their order, each of them once. -/
def Reports (fs : List Finding) (rules : List PolicyRule) : Prop :=
  (fs.map fun f => (f.ruleId, f.gravity)).Sublist (rules.map fun r => (r.id, r.gravity))

namespace Reports

variable {fs gs : List Finding} {rules others : List PolicyRule}

theorem nil (rules : List PolicyRule) : Reports [] rules := List.nil_sublist _

/-- Rules that are reported one list after the other are reported in this order. -/
theorem append (hf : Reports fs rules) (hg : Reports gs others) :
    Reports (fs ++ gs) (rules ++ others) := by
  rw [Reports, List.map_append, List.map_append]
  exact List.Sublist.append hf hg

/-- Rules that are reported in order are reported in order among others. -/
theorem mono (h : Reports fs rules) (hrules : rules.Sublist others) : Reports fs others :=
  List.Sublist.trans h (hrules.map _)

/-- A finding that is always there is one report of its rule. -/
theorem fatal {rule : PolicyRule} {message : String} (h : rule.gravity = .fatal) :
    Reports [.fatal rule message] [rule] := by
  rw [Reports, List.map_singleton, List.map_singleton, h]
  exact List.Sublist.refl _

/-- A check that may find something reports its rule once at most. -/
theorem fatalIf {condition : Bool} {rule : PolicyRule} {message : String}
    (h : rule.gravity = .fatal) : Reports (findIf condition (.fatal rule message)) [rule] := by
  cases condition with
  | false => exact nil _
  | true => exact fatal h

/-- A check that may warn reports its rule once at most. -/
theorem warningIf {condition : Bool} {rule : PolicyRule} {message : String}
    (h : rule.gravity = .warning) : Reports (findIf condition (.warning rule message)) [rule] := by
  cases condition with
  | false => exact nil _
  | true =>
    rw [Reports, findIf, if_pos rfl, List.map_singleton, List.map_singleton, h]
    exact List.Sublist.refl _

end Reports

/-- The rules about the identity, in the order in which they are checked. -/
theorem reports_identityFindings (id : String) (m : Metadata) :
    Reports (identityFindings id m)
      [.phasePresent, .attemptPositive, .attemptSuffixMatch, .failedStepPresent] := by
  have hattempt : Reports (attemptFindings id m.attempt)
      [.attemptPositive, .attemptSuffixMatch] := by
    unfold attemptFindings
    dsimp only
    split
    · exact (Reports.fatalIf (by decide)).mono (by decide)
    · exact (Reports.fatal (by decide)).mono (by decide)
  exact ((Reports.fatalIf (by decide)).append hattempt).append (.fatalIf (by decide))

/-- The two rules about one limit. -/
theorem reports_limitFindings {name : String} {positive withinCap : PolicyRule}
    {limit : Option Int64} {cap : UInt64} (hpositive : positive.gravity = .fatal)
    (hwithin : withinCap.gravity = .fatal) :
    Reports (limitFindings name positive withinCap limit cap) [positive, withinCap] := by
  unfold limitFindings
  split
  · exact (Reports.fatalIf hwithin).mono (by simp)
  · exact (Reports.fatal hpositive).mono (by simp)

/-- The rules about the limits and the prefixes. -/
theorem reports_shapeFindings (d : Declaration) (caps : Caps) :
    Reports (shapeFindings d caps)
      [.maxFilesPositive, .maxFilesWithinCap, .maxBytesPositive, .maxBytesWithinCap,
       .prefixesPresent] :=
  ((reports_limitFindings (by decide) (by decide)).append
    (reports_limitFindings (by decide) (by decide))).append (.fatalIf (by decide))

/-- All rules about the constraint; when it is missing nothing else is said about it. -/
theorem reports_constraintFindings (step : Step) (m : Metadata) :
    Reports (constraintFindings step m)
      [.constraintPresent, .maxFilesPositive, .maxFilesWithinCap, .maxBytesPositive,
       .maxBytesWithinCap, .prefixesPresent, .intentMatchesConstraint,
       .resolvedConstraintConsistency] := by
  unfold constraintFindings
  split
  · exact (Reports.fatal (by decide)).mono (by decide)
  · rename_i d _
    have hresolved : Reports ((step.resolvedConstraint.map (resolvedFindings d)).getD [])
        [.resolvedConstraintConsistency] := by
      cases step.resolvedConstraint with
      | none => exact .nil _
      | some r => exact .fatalIf (by decide)
    exact (((reports_shapeFindings d step.caps).append (.fatalIf (by decide))).append
      hresolved).mono (by decide)

/-- The rules about the end of a step, the warning among them. -/
theorem reports_statusFindings (step : Step) :
    Reports (statusFindings step) [.commitPresent, .stagedDiffsPresent, .failedErrorMessage] := by
  unfold statusFindings
  split
  · exact ((Reports.fatalIf (by decide)).append (.fatalIf (by decide))).mono (by decide)
  · exact (Reports.warningIf (by decide)).mono (by decide)
  · exact .nil _

/-- The rules about the staged diffs. -/
theorem reports_diffFindings (step : Step) (m : Metadata) :
    Reports (diffFindings step m)
      [.stagedPathsWithinConstraint, .stagedFileCountWithinConstraint,
       .diffBudgetWithinConstraint] := by
  unfold diffFindings
  split
  · exact .nil _
  · exact .nil _
  · exact ((Reports.fatalIf (by decide)).append (.fatalIf (by decide))).append
      (.fatalIf (by decide))

/-- **Findings are about the rules in their order, each of them once.** -/
theorem reports_evaluate (step : Step) : Reports step.evaluate.findings Policy.rules := by
  unfold Step.evaluate
  split
  · rename_i m _
    exact Reports.mono ((((reports_identityFindings step.id m).append
      (reports_constraintFindings step m)).append (reports_statusFindings step)).append
      (reports_diffFindings step m)) (by decide)
  · exact Reports.mono (.fatal (by decide)) (by decide)

namespace Reports

variable {fs : List Finding}

/-- No rule is reported twice, since the ids of the rules are distinct. -/
theorem nodup (h : Reports fs Policy.rules) : (fs.map Finding.ruleId).Nodup := by
  have hids : (fs.map Finding.ruleId).Sublist (Policy.rules.map PolicyRule.id) := by
    simpa [Reports, Function.comp_def] using List.Sublist.map Prod.fst h
  exact hids.nodup (by decide +kernel)

/-- Every finding is about a rule of the list and as grave as it. -/
theorem exists_rule {rules : List PolicyRule} (h : Reports fs rules) {f : Finding} (hf : f ∈ fs) :
    ∃ r ∈ rules, f.ruleId = r.id ∧ f.gravity = r.gravity := by
  obtain ⟨r, hr, heq⟩ := List.mem_map.1 (List.Sublist.subset h (List.mem_map_of_mem hf))
  exact ⟨r, hr, (congrArg Prod.fst heq).symm, (congrArg Prod.snd heq).symm⟩

/-- There are at most as many findings as rules, so the counts fit in 64 bits. -/
theorem length_le {rules : List PolicyRule} (h : Reports fs rules) : fs.length ≤ rules.length := by
  simpa using List.Sublist.length_le h

end Reports

/-! ### The counts of a verdict -/

namespace Verdict

variable {fs : List Finding}

/-- The first count of a verdict is that of the fatal findings. -/
theorem toNat_blockingCount (h : fs.length < UInt64.size) :
    (ofFindings fs).blockingCount.toNat = fs.countP fun f => f.gravity = .fatal := by
  have hlength : (fs.filter Finding.isFatal).length = fs.countP fun f => f.gravity = .fatal := by
    rw [← List.countP_eq_length_filter]
    exact List.countP_congr fun f _ => by simp [Finding.isFatal]
  rw [← hlength]
  exact UInt64.toNat_ofNat_of_lt' (Nat.lt_of_le_of_lt (List.length_filter_le _ _) h)

/-- The second count is that of the warnings. -/
theorem toNat_warningCount (h : fs.length < UInt64.size) :
    (ofFindings fs).warningCount.toNat = fs.countP fun f => f.gravity = .warning := by
  have hlength : (fs.filter fun f => !f.isFatal).length =
      fs.countP fun f => f.gravity = .warning := by
    rw [← List.countP_eq_length_filter]
    refine List.countP_congr fun f _ => ?_
    cases hf : f.gravity <;> simp [Finding.isFatal, hf]
  rw [← hlength]
  exact UInt64.toNat_ofNat_of_lt' (Nat.lt_of_le_of_lt (List.length_filter_le _ _) h)

/-- A verdict is ok when its first count is zero. -/
theorem ok_iff_blockingCount (h : fs.length < UInt64.size) :
    (ofFindings fs).ok = true ↔ (ofFindings fs).blockingCount = 0 := by
  rw [ofFindings_ok, ← UInt64.toNat_inj, toNat_blockingCount h, UInt64.toNat_zero,
    List.countP_eq_zero]
  refine forall₂_congr fun f _ => ?_
  cases hf : f.gravity <;> simp [Finding.isFatal, hf]

end Verdict

/-- A verdict says nothing but what follows from its findings. -/
theorem Step.evaluate_eq_ofFindings (step : Step) :
    step.evaluate = .ofFindings step.evaluate.findings := by
  unfold Step.evaluate
  split <;> rfl

/-- **The verdict on a step is exact.** It is `ok` when the step complies; its counts are those
of its findings, no rule is reported twice, and the only warning is about a missing error
message. Source: specification, section 4.6 (b). -/
theorem Step.verdict_exact (step : Step) :
    (step.evaluate.ok = true ↔ ∃ m d, step.Complies m d) ∧
    (step.evaluate.ok = true ↔ step.evaluate.blockingCount = 0) ∧
    step.evaluate.blockingCount.toNat =
      step.evaluate.findings.countP (fun f => f.gravity = .fatal) ∧
    step.evaluate.warningCount.toNat =
      step.evaluate.findings.countP (fun f => f.gravity = .warning) ∧
    (step.evaluate.findings.map Finding.ruleId).Nodup ∧
    ∀ f ∈ step.evaluate.findings,
      f.gravity = .warning ↔ f.ruleId = PolicyRule.failedErrorMessage.id := by
  have hreports := reports_evaluate step
  have hshort : step.evaluate.findings.length < UInt64.size :=
    Nat.lt_of_le_of_lt hreports.length_le (by decide)
  refine ⟨Step.ok_iff_complies, ?_, ?_, ?_, hreports.nodup, fun f hf => ?_⟩
  · rw [step.evaluate_eq_ofFindings]
    exact Verdict.ok_iff_blockingCount hshort
  · conv_lhs => rw [step.evaluate_eq_ofFindings]
    exact Verdict.toNat_blockingCount hshort
  · conv_lhs => rw [step.evaluate_eq_ofFindings]
    exact Verdict.toNat_warningCount hshort
  · obtain ⟨r, -, hrule, hgravity⟩ := hreports.exists_rule hf
    rw [hrule, hgravity]
    cases r <;> decide +kernel

end Correction
end Strata
