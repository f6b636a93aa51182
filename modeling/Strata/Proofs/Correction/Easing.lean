/-
# What may be eased without a new fault

A step that is accepted stays accepted when it does less or may do more:

| easing | what it changes |
| --- | --- |
| `restage` | some staged diffs are dropped, not all of them, and the others come in any order |
| `recap` | the caps of the step are raised |
| `redeclare` | prefixes are added to the declared constraint, or limits raised up to the caps |

Each of them keeps what an accepted step complies with (`Step.Eases.complies`), and so does
a run of them (`Step.Eases.complies_of_run`). A resolved constraint would stand in the way,
for then the declared one may not be changed.

The order of the staged diffs does not count at all: messages list paths in it, but which
rules are reported, and in which order, depends on sets and sums of diffs only
(`outline_stagedFindings_of_perm`).
-/

import Strata.Proofs.Correction.Derivation
import Mathlib.Algebra.Order.BigOperators.Group.List
import Mathlib.Logic.Relation

namespace Strata
namespace Correction

open Text Policy

/-! ### Easing a step -/

/-- The step with other staged diffs. -/
def Step.restage (s : Step) (diffs : List StagedDiff) : Step :=
  { s with outputPayload := some ⟨diffs⟩ }

/-- The step with other caps of its own. -/
def Step.recap (s : Step) (files bytes : Option UInt64) : Step :=
  { s with maxFilesPerStep := files, maxTotalDiffBytes := bytes }

/-- A limit that is left as it is or raised up to a cap. Limits are numbers of 64 signed bits,
so a cap that no such number reaches leaves any of them to be raised to. -/
def RaisedWithin (limit limit' : Option Int64) (cap : UInt64) : Prop :=
  limit' = limit ∨ ∃ n n', limit = some n ∧ limit' = some n' ∧
    n.toInt ≤ n'.toInt ∧ n'.toInt ≤ cap.toNat

/-- A declared constraint that allows whatever another one allows, under the same caps. -/
structure Declaration.Widens (d' d : Declaration) (caps : Caps) : Prop where
  intent : d'.intent = d.intent
  files : RaisedWithin d.maxFiles d'.maxFiles caps.maxFilesPerStep
  bytes : RaisedWithin d.maxTotalDiffBytes d'.maxTotalDiffBytes caps.maxTotalDiffBytes
  prefixes : d.allowedPathPrefixes ⊆ d'.allowedPathPrefixes

/-- One easing of a step. A constraint is redeclared by any input that is read as the old
one but for the constraint. -/
inductive Step.Eases : Step → Step → Prop where
  | restage {s : Step} {diffs : List StagedDiff} :
      diffs.Subperm s.stagedDiffs → (diffs = [] → s.stagedDiffs = []) → Eases s (s.restage diffs)
  | recap {s : Step} {files bytes : Option UInt64} :
      s.caps.maxFilesPerStep ≤ (s.recap files bytes).caps.maxFilesPerStep →
      s.caps.maxTotalDiffBytes ≤ (s.recap files bytes).caps.maxTotalDiffBytes →
      Eases s (s.recap files bytes)
  | redeclare {s : Step} {m : Metadata} {d d' : Declaration} {input : StepInput} :
      s.input.metadata? = some m → m.constraint = some d → d'.Widens d s.caps →
      input.metadata? = some { m with constraint := some d' } → Eases s { s with input }

/-! ### What an easing keeps -/

theorem WithinCap.mono {limit : Option Int64} {cap cap' : UInt64} (h : WithinCap limit cap)
    (hcap : cap ≤ cap') : WithinCap limit cap' := by
  obtain ⟨n, hn, hzero, hle⟩ := h
  have hcap : cap.toNat ≤ cap'.toNat := UInt64.le_iff_toNat_le.1 hcap
  exact ⟨n, hn, hzero, by omega⟩

/-- A raised limit is within the cap, and not below the old one. -/
theorem RaisedWithin.withinCap {limit limit' : Option Int64} {cap : UInt64}
    (h : RaisedWithin limit limit' cap) (hlimit : WithinCap limit cap) :
    WithinCap limit' cap ∧ ∀ n', limit' = some n' → ∃ n, limit = some n ∧ n.toInt ≤ n'.toInt := by
  obtain ⟨n, rfl, hzero, hle⟩ := hlimit
  rcases h with rfl | ⟨_, n', hn, rfl, hraised, hcap⟩
  · exact ⟨⟨n, rfl, hzero, hle⟩, fun n' hn' => ⟨n', hn', Int.le_refl _⟩⟩
  · obtain rfl := Option.some.inj hn
    refine ⟨⟨n', rfl, by omega, hcap⟩, fun m hm => ⟨n, rfl, ?_⟩⟩
    obtain rfl := Option.some.inj hm
    exact hraised

/-- Fewer diffs keep to the same constraint. -/
theorem Staged.of_subperm {diffs diffs' : List StagedDiff} {d : Declaration} (h : Staged diffs d)
    (hsub : diffs'.Subperm diffs) : Staged diffs' d := by
  refine ⟨fun diff hdiff => h.paths diff (hsub.subset hdiff), fun n hn => ?_, fun n hn => ?_⟩
  · refine Int.le_trans (Int.ofNat_le.2 (Finset.card_le_card ?_)) (h.files n hn)
    intro path hpath
    rw [List.mem_toFinset] at hpath ⊢
    exact List.map_subset _ hsub.subset hpath
  · obtain ⟨kept, hperm, hsublist⟩ := hsub
    refine Int.le_trans (Int.ofNat_le.2 ?_) (h.bytes n hn)
    rw [← (hperm.map _).sum_eq]
    exact (hsublist.map _).sum_le_sum fun _ _ => Nat.zero_le _

/-- The same diffs keep to a wider constraint. -/
theorem Staged.widen {diffs : List StagedDiff} {d d' : Declaration} {caps : Caps}
    (h : Staged diffs d) (hbounded : Bounded d caps) (hwidens : d'.Widens d caps) :
    Staged diffs d' := by
  obtain ⟨-, hfiles⟩ := hwidens.files.withinCap hbounded.files
  obtain ⟨-, hbytes⟩ := hwidens.bytes.withinCap hbounded.bytes
  refine ⟨fun diff hdiff => ?_, fun n' hn' => ?_, fun n' hn' => ?_⟩
  · obtain ⟨p, hp, hmatch⟩ := h.paths diff hdiff
    exact ⟨p, hwidens.prefixes hp, hmatch⟩
  · obtain ⟨n, hn, hle⟩ := hfiles n' hn'
    exact Int.le_trans (h.files n hn) hle
  · obtain ⟨n, hn, hle⟩ := hbytes n' hn'
    exact Int.le_trans (h.bytes n hn) hle

theorem Bounded.widen {d d' : Declaration} {caps : Caps} (h : Bounded d caps)
    (hwidens : d'.Widens d caps) : Bounded d' caps := by
  obtain ⟨p, hp, hne⟩ := h.prefixes
  exact ⟨(hwidens.files.withinCap h.files).1, (hwidens.bytes.withinCap h.bytes).1,
    p, hwidens.prefixes hp, hne⟩

/-- **An easing keeps what a step complies with.** -/
theorem Step.Eases.complies {s t : Step} (h : s.Eases t) (hresolved : s.resolvedConstraint = none)
    (hs : ∃ m d, s.Complies m d) : t.resolvedConstraint = none ∧ ∃ m d, t.Complies m d := by
  obtain ⟨m, d, hs⟩ := hs
  cases h with
  | restage hsub hsome =>
    refine ⟨hresolved, m, d, hs.typed, hs.identified, hs.declared, hs.bounded, hs.intent,
      hs.resolved, fun hstatus => ?_, hs.staged.of_subperm hsub⟩
    obtain ⟨hcommit, hdiffs⟩ := hs.concluded hstatus
    exact ⟨hcommit, fun hnil => hdiffs (hsome hnil)⟩
  | recap hfiles hbytes =>
    exact ⟨hresolved, m, d, hs.typed, hs.identified, hs.declared,
      ⟨hs.bounded.files.mono hfiles, hs.bounded.bytes.mono hbytes, hs.bounded.prefixes⟩,
      hs.intent, hs.resolved, hs.concluded, hs.staged⟩
  | @redeclare m₀ d₀ d' input hm hd hwidens hinput =>
    obtain rfl : m₀ = m := Option.some.inj (hm.symm.trans (metadata?_eq_some_iff.2 hs.typed))
    obtain rfl : d₀ = d := Option.some.inj (hd.symm.trans hs.declared)
    refine ⟨hresolved, _, d', metadata?_eq_some_iff.1 hinput,
      ⟨hs.identified.phase, hs.identified.failedStep, hs.identified.attempt⟩, rfl,
      hs.bounded.widen hwidens, ?_, fun r hr => ?_, hs.concluded,
      hs.staged.widen hs.bounded hwidens⟩
    · rw [hwidens.intent]
      exact hs.intent
    · exact absurd (hresolved.symm.trans hr) (by simp)

/-- A run of easings keeps what a step complies with. -/
theorem Step.Eases.complies_of_run {s t : Step} (h : Relation.ReflTransGen Step.Eases s t)
    (hresolved : s.resolvedConstraint = none) (hs : ∃ m d, s.Complies m d) :
    t.resolvedConstraint = none ∧ ∃ m d, t.Complies m d := by
  induction h with
  | refl => exact ⟨hresolved, hs⟩
  | tail _ hstep ih => exact hstep.complies ih.1 ih.2

/-- A constraint is redeclared by its document. -/
theorem Step.Eases.of_document {s : Step} {m : Metadata} {d d' : Declaration}
    {front back : List (String × Json)} {key : String} {json json' : Json}
    (hobject : s.input.deepCorrection = some (.object (front ++ (key, json) :: back)))
    (hkey : Json.unescape? key = some "constraint") (hm : s.input.metadata? = some m)
    (hd : m.constraint = some d) (hwidens : d'.Widens d s.caps) (hnull : json' ≠ .null)
    (hread : Declaration.ofJson? json' = some d') :
    s.Eases { s with input := ⟨some (.object (front ++ (key, json') :: back))⟩ } := by
  refine .redeclare hm hd hwidens (metadata?_eq_some_iff.2 ⟨_, rfl, ?_⟩)
  obtain ⟨members, hmembers, htyped⟩ := metadata?_eq_some_iff.1 hm
  obtain rfl : front ++ (key, json) :: back = members := by
    simpa using hobject.symm.trans hmembers
  exact ofJson?_replace_constraint hkey htyped hnull hread

/-! ### The order of the staged diffs -/

/-- What a finding says without its message. -/
def Finding.outline (f : Finding) : String × Gravity := (f.ruleId, f.gravity)

theorem outline_findIf (condition : Bool) (finding : Finding) :
    (findIf condition finding).map Finding.outline =
      if condition then [finding.outline] else [] := by
  cases condition <;> rfl

/-- Findings with the same outline lead to the same verdict and the same rules. -/
theorem verdict_of_outline {fs gs : List Finding}
    (h : fs.map Finding.outline = gs.map Finding.outline) :
    (Verdict.ofFindings fs).ok = (Verdict.ofFindings gs).ok ∧
      fs.map Finding.ruleId = gs.map Finding.ruleId := by
  have hrules (xs : List Finding) :
      xs.map Finding.ruleId = (xs.map Finding.outline).map Prod.fst := by
    rw [List.map_map]
    rfl
  have hclean (xs : List Finding) :
      Clean xs ↔ ∀ outline ∈ xs.map Finding.outline, outline.2 ≠ .fatal := by
    simp [Clean, Finding.isFatal, Finding.outline]
  refine ⟨?_, by rw [hrules, hrules, h]⟩
  rw [Bool.eq_iff_iff, Verdict.ofFindings_ok, Verdict.ofFindings_ok, hclean, hclean, h]

/-- The rules on staged diffs do not depend on their order. -/
theorem outline_stagedFindings_of_perm {diffs diffs' : List StagedDiff} (d : Declaration)
    (h : diffs'.Perm diffs) :
    (stagedFindings diffs' d).map Finding.outline =
      (stagedFindings diffs d).map Finding.outline := by
  have houtside : (outsidePaths d (stagedPaths diffs')).isEmpty =
      (outsidePaths d (stagedPaths diffs)).isEmpty := by
    rw [Bool.eq_iff_iff, List.isEmpty_iff, List.isEmpty_iff, outsidePaths_eq_nil_iff,
      outsidePaths_eq_nil_iff]
    exact forall_congr' fun diff => by rw [h.mem_iff]
  have hfiles : (stagedPaths diffs').length = (stagedPaths diffs).length := by
    rw [stagedPaths, stagedPaths, length_eraseDups, length_eraseDups,
      List.toFinset_eq_of_perm _ _ (h.map _)]
  have hbytes : diffBytes diffs' = diffBytes diffs := by
    rw [diffBytes_eq_sum, diffBytes_eq_sum, (h.map _).sum_eq]
  simp only [stagedFindings, List.map_append, outline_findIf, houtside, hfiles, hbytes]
  rfl

theorem outline_findings_restage {s : Step} {diffs : List StagedDiff} (m : Metadata)
    (h : diffs.Perm s.stagedDiffs) :
    (findings (s.restage diffs) m).map Finding.outline = (findings s m).map Finding.outline := by
  have hempty : (s.restage diffs).stagedDiffs.isEmpty = s.stagedDiffs.isEmpty := h.isEmpty_eq
  have hstatus : statusFindings (s.restage diffs) = statusFindings s := by
    unfold statusFindings
    rw [hempty]
    rfl
  have hdiffs : (diffFindings (s.restage diffs) m).map Finding.outline =
      (diffFindings s m).map Finding.outline := by
    have hread (t : Step) : diffFindings t m =
        if t.stagedDiffs.isEmpty then []
        else (m.constraint.map (stagedFindings t.stagedDiffs)).getD [] := by
      unfold diffFindings
      cases t.stagedDiffs <;> cases m.constraint <;> rfl
    rw [hread, hread, hempty]
    split
    · rfl
    · cases m.constraint with
      | none => rfl
      | some d => exact outline_stagedFindings_of_perm d h
  simp only [findings, List.map_append, hstatus, hdiffs]
  rfl

/-- The order of the staged diffs changes neither the verdict nor the rules. -/
theorem Step.evaluate_restage {s : Step} {diffs : List StagedDiff} (h : diffs.Perm s.stagedDiffs) :
    (s.restage diffs).evaluate.ok = s.evaluate.ok ∧
      (s.restage diffs).evaluate.findings.map Finding.ruleId =
        s.evaluate.findings.map Finding.ruleId := by
  cases hm : s.input.metadata? with
  | none =>
    have hsame : (s.restage diffs).evaluate = s.evaluate := by
      simp only [Step.evaluate, Step.restage, hm]
    rw [hsame]
    exact ⟨rfl, rfl⟩
  | some m =>
    have hread (t : Step) (ht : t.input = s.input) : t.evaluate = .ofFindings (findings t m) := by
      rw [Step.evaluate, ht, hm]
    rw [hread (s.restage diffs) rfl, hread s rfl]
    exact verdict_of_outline (outline_findings_restage m h)

/-- **The verdict on a step is monotone in its budget.** An accepted step without a resolved
constraint is accepted after any run of easings; and the order of the staged diffs of a step,
accepted or not, changes neither the verdict nor the rules that are reported. Source:
specification, section 4.6 (b). -/
theorem Step.verdict_monotone :
    (∀ s t : Step, s.resolvedConstraint = none → s.evaluate.ok = true →
      Relation.ReflTransGen Step.Eases s t → t.evaluate.ok = true) ∧
    ∀ (s : Step) (diffs : List StagedDiff), diffs.Perm s.stagedDiffs →
      (s.restage diffs).evaluate.ok = s.evaluate.ok ∧
        (s.restage diffs).evaluate.findings.map Finding.ruleId =
          s.evaluate.findings.map Finding.ruleId := by
  refine ⟨fun s t hresolved hok hrun => ?_, fun s diffs => Step.evaluate_restage⟩
  obtain ⟨-, hcomplies⟩ := Step.Eases.complies_of_run hrun hresolved (Step.ok_iff_complies.1 hok)
  exact Step.ok_iff_complies.2 hcomplies

/-- The document of a constraint for the boot. -/
def budgetDocument (maxFiles : Nat) (prefixes : List String) : Json :=
  .record
    [("intent", .ofText "runtime_boot"), ("maxFiles", .ofNat maxFiles),
     ("maxTotalDiffBytes", .ofNat 100), ("allowedPathPrefixes", .ofTexts prefixes)]

/-- A completed step that declares this constraint. -/
def budgetStep (constraint : Json) (cap : Option UInt64) (diffs : List StagedDiff) : Step where
  id := "boot-correction-1"
  input :=
    ⟨some <| .record
      [("phase", .ofText "runtime"), ("attempt", .ofNat 1), ("failedStepId", .ofText "boot"),
       ("classification", .record [("intent", .ofText "runtime_boot")]),
       ("constraint", constraint)]⟩
  status := some .completed
  errorMessage := none
  commitHash := some "deadbeef"
  outputPayload := some ⟨diffs⟩
  resolvedConstraint := none
  maxFilesPerStep := cap
  maxTotalDiffBytes := none

/-- A step for two files, with a higher cap, then with a prefix and files up to that cap, and
with its diffs in another order but for one; and one for too many files, in either order. -/
theorem Step.verdict_monotone_boot :
    (budgetStep (budgetDocument 20 ["docs", "src/"]) (some 20)
      [⟨"src/b.ts", "+"⟩, ⟨"src/a.ts", "-"⟩]).evaluate.ok = true ∧
    ((budgetStep (budgetDocument 1 ["src/"]) none [⟨".env", "+"⟩, ⟨"src/a.ts", "-"⟩]).restage
        [⟨"src/a.ts", "-"⟩, ⟨".env", "+"⟩]).evaluate.findings.map Finding.ruleId =
      [PolicyRule.stagedPathsWithinConstraint.id,
        PolicyRule.stagedFileCountWithinConstraint.id] := by
  let declared (files : Int64) (prefixes : List String) : Declaration :=
    ⟨some "runtime_boot", some files, some 100, prefixes, []⟩
  let start := budgetStep (budgetDocument 2 ["src/"]) none
    [⟨"src/a.ts", "-"⟩, ⟨"src/a.ts", "+"⟩, ⟨"src/b.ts", "+"⟩]
  have hstart : start.evaluate.ok = true := by decide +kernel
  -- three easings, one after the other, and then the reordering
  have hrecap : start.Eases (start.recap (some 20) none) := .recap (by decide) (by decide)
  have hwidens : (declared 20 ["docs", "src/"]).Widens (declared 2 ["src/"])
      (start.recap (some 20) none).caps :=
    ⟨rfl, .inr ⟨2, 20, rfl, rfl, by decide, by decide⟩, .inl rfl, by simp [declared]⟩
  have hobject : (start.recap (some 20) none).input.deepCorrection = some (.object
      ([("phase", .ofText "runtime"), ("attempt", .ofNat 1), ("failedStepId", .ofText "boot"),
        ("classification", .record [("intent", .ofText "runtime_boot")])] ++
          ("constraint", budgetDocument 2 ["src/"]) :: [])) := rfl
  have hread : (start.recap (some 20) none).input.metadata? = some ⟨some "runtime", some 1,
      some "boot", some ⟨some "runtime_boot"⟩, some (declared 2 ["src/"])⟩ := by decide +kernel
  have hdocument : Declaration.ofJson? (budgetDocument 20 ["docs", "src/"]) =
      some (declared 20 ["docs", "src/"]) := by decide +kernel
  have hredeclare := Step.Eases.of_document hobject rfl hread rfl hwidens
    (by simp [budgetDocument, Json.record]) hdocument
  have hrestage : (budgetStep (budgetDocument 20 ["docs", "src/"]) (some 20)
      start.stagedDiffs).Eases (budgetStep (budgetDocument 20 ["docs", "src/"]) (some 20)
        [⟨"src/b.ts", "+"⟩, ⟨"src/a.ts", "-"⟩]) :=
    .restage (by decide) (by simp)
  constructor
  · exact Step.verdict_monotone.1 start _ rfl hstart
      (((Relation.ReflTransGen.single hrecap).tail hredeclare).tail hrestage)
  · rw [(Step.verdict_monotone.2 _ _ (List.Perm.swap ..)).2]
    decide +kernel

end Correction
end Strata
