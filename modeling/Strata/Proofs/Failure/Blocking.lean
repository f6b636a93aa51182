/-
# How much blocks

Specification, section 4.5, item 10: `blockingCount`. Every other failed recognized check
contributes 1, and that is here one for every other name that failed.

A profile says how much blocks. What counts are the recognized failures, each name once
(`Check.blockingSum`):

| failed | counts |
| --- | --- |
| `architecture` | as much as the first such check says, or one for each violation; at least one |
| `typecheck`, `build`, `tests`, `boot` | one for each of these names, however often it failed |

As long as that is a 64-bit number, the profile has it exactly (`Profile.blockingCount_exact`).
A second failure of a name does not count (`Profile.repeated_failure_counts_once`).
-/

import Strata.Proofs.Failure.Profile
import Strata.Proofs.Failure.Recognized
import Mathlib.Data.Finset.Card
import Mathlib.Data.List.Dedup

namespace Strata

namespace Check

/-- How much a failed architecture check counts. -/
def weight (check : Check) : Nat :=
  match check.details.bind CheckDetails.blockingCount with
  | some n => max n.toNat 1
  | none => max (Violation.blockingCount check.violations) 1

/-- How much the architecture counts: nothing, or the weight of the first check that failed. -/
def architectureShare (checks : List Check) : Nat :=
  ((firstFailed? checks architecture).map weight).getD 0

/-- The recognized failures of other names. -/
def otherFailures (checks : List Check) : List Check :=
  (failures checks).filter fun check => check.id != architecture

/-- How much blocks: the share of the architecture, and one for each other name. -/
def blockingSum (checks : List Check) : Nat :=
  architectureShare checks + ((otherFailures checks).map id).toFinset.card

/-- The share of the architecture, and one for each other failure. -/
def resultSum (checks : List Check) : Nat :=
  architectureShare checks + (otherFailures checks).length

variable {checks : List Check}

/-- The failures of a run are its failed checks with recognized names. -/
theorem mem_failures {check : Check} :
    check ∈ failures checks ↔ check ∈ checks ∧ check.status = .fail ∧ check.id ∈ recognized := by
  simp [failures, failed]

/-- Every failure weighs something. -/
theorem weight_pos (check : Check) : 0 < check.weight := by
  unfold weight
  split <;> omega

/-- The other names that failed are those of which a first failure is found. -/
theorem mem_ids_otherFailures {name : String} :
    name ∈ (otherFailures checks).map id ↔
      name ∈ [typecheck, build, tests, boot] ∧ (firstFailed? checks name).isSome := by
  have hnames : name ∈ [typecheck, build, tests, boot] ↔
      name ∈ recognized ∧ name ≠ architecture := by
    have hne : architecture ∉ [typecheck, build, tests, boot] := by decide
    constructor
    · intro h
      exact ⟨List.mem_cons_of_mem _ h, fun heq => hne (heq ▸ h)⟩
    · rintro ⟨h, hname⟩
      exact (List.mem_cons.1 h).resolve_left hname
  rw [hnames, Diagnosis.isSome_firstFailed?_iff, HasFailed]
  simp only [otherFailures, List.mem_map, List.mem_filter, mem_failures, bne_iff_ne]
  constructor
  · rintro ⟨check, ⟨⟨hmem, hfail, hid⟩, hne⟩, rfl⟩
    exact ⟨⟨hid, hne⟩, check, hmem, rfl, hfail⟩
  · rintro ⟨⟨hid, hne⟩, check, hmem, rfl, hfail⟩
    exact ⟨check, ⟨⟨hmem, hfail, hid⟩, hne⟩, rfl⟩

/-- **Each name counts once** as far as no name failed twice. -/
theorem blockingSum_eq_resultSum_iff :
    blockingSum checks = resultSum checks ↔ ((otherFailures checks).map id).Nodup := by
  rw [blockingSum, resultSum, Nat.add_left_cancel_iff, List.card_toFinset,
    ← List.length_map (f := id)]
  constructor
  · intro h
    exact List.dedup_eq_self.1 ((List.dedup_sublist _).eq_of_length h)
  · intro h
    rw [h.dedup]

/-- Nothing blocks when nothing failed. -/
theorem blockingSum_eq_zero_iff : blockingSum checks = 0 ↔ failures checks = [] := by
  constructor
  · intro h
    obtain ⟨hshare, hothers⟩ := Nat.add_eq_zero_iff.1 h
    refine List.eq_nil_iff_forall_not_mem.2 fun check hcheck => ?_
    by_cases hid : check.id = architecture
    · obtain ⟨hmem, hfail, -⟩ := mem_failures.1 hcheck
      obtain ⟨first, hfirst⟩ := Option.isSome_iff_exists.1
        (Diagnosis.isSome_firstFailed?_iff.2 ⟨check, hmem, hid, hfail⟩)
      have hpos := weight_pos first
      rw [architectureShare, hfirst] at hshare
      exact absurd hshare (Nat.ne_of_gt hpos)
    · have hother : check ∈ otherFailures checks :=
        List.mem_filter.2 ⟨hcheck, bne_iff_ne.2 hid⟩
      rw [Finset.card_eq_zero, List.toFinset_eq_empty_iff, List.map_eq_nil_iff] at hothers
      exact absurd hother (hothers ▸ List.not_mem_nil)
  · intro h
    have hnone : ∀ name, name ∈ recognized → firstFailed? checks name = none := fun name hname => by
      rw [← firstFailed?_failures hname, h]
      rfl
    rw [blockingSum, architectureShare, hnone _ (by decide), otherFailures, h]
    rfl

/-- The names that failed besides the architecture are counted once each. -/
theorem card_ids_otherFailures (checks : List Check) :
    ((otherFailures checks).map id).toFinset.card =
      ([typecheck, build, tests, boot].filter fun name =>
        (firstFailed? checks name).isSome).length := by
  have hnodup : [typecheck, build, tests, boot].Nodup := by decide
  rw [← List.toFinset_card_of_nodup (hnodup.filter _)]
  congr 1
  ext name
  rw [List.mem_toFinset, List.mem_toFinset, mem_ids_otherFailures, List.mem_filter]

end Check

namespace Diagnosis

open Check

/-- A weight below the bound is kept by the machine word. -/
theorem toNat_architectureWeight {check : Check} (h : check.weight < UInt64.size) :
    (Failures.architectureWeight check).toNat = check.weight := by
  have hmax (n : UInt64) : (max n 1).toNat = max n.toNat 1 := by
    have hle : n ≤ 1 ↔ n.toNat ≤ 1 := UInt64.le_iff_toNat_le
    change (if n ≤ 1 then (1 : UInt64) else n).toNat = max n.toNat 1
    split
    · rw [max_eq_right (hle.1 ‹_›)]
      rfl
    · rw [max_eq_left (Nat.le_of_not_le fun h => ‹¬ n ≤ 1› (hle.2 h))]
  cases hcount : check.details.bind CheckDetails.blockingCount with
  | some n =>
    simp only [Failures.architectureWeight, weight, hcount]
    exact hmax n
  | none =>
    simp only [Failures.architectureWeight, weight, hcount] at h ⊢
    rw [hmax, UInt64.toNat_ofNat_of_lt' (lt_of_le_of_lt (le_max_left _ _) h)]

variable {checks : List Check}

/-- A sum below the bound is kept by the machine word. -/
theorem toNat_blockingCount (h : blockingSum checks < UInt64.size) :
    (Failures.ofChecks checks).blockingCount.toNat = blockingSum checks := by
  set f := Failures.ofChecks checks
  have hothers : ((otherFailures checks).map Check.id).toFinset.card =
      ([f.typecheck, f.build, f.tests, f.boot].filter Option.isSome).length := by
    have hplaces : [f.typecheck, f.build, f.tests, f.boot] =
        [typecheck, build, tests, boot].map (firstFailed? checks) := rfl
    rw [card_ids_otherFailures, hplaces, List.filter_map, List.length_map]
    rfl
  have hshare : ((f.architecture.map Failures.architectureWeight).getD 0).toNat =
      architectureShare checks := by
    have hle : architectureShare checks < UInt64.size :=
      Nat.lt_of_le_of_lt (Nat.le_add_right _ _) h
    unfold architectureShare at hle ⊢
    change (((firstFailed? checks architecture).map Failures.architectureWeight).getD 0).toNat = _
    cases hfirst : firstFailed? checks architecture with
    | none => rfl
    | some check => exact toNat_architectureWeight (by simpa [hfirst] using hle)
  unfold blockingSum at h ⊢
  rw [hothers] at h ⊢
  unfold Failures.blockingCount
  rw [UInt64.toNat_add, UInt64.toNat_ofNat_of_lt' (Nat.lt_of_le_of_lt (Nat.le_add_left _ _) h),
    hshare, Nat.mod_eq_of_lt h]

end Diagnosis

namespace Profile

open Check Diagnosis

/-- The count of a profile is that of its failures, and zero without any. -/
theorem blockingCount_ofChecks (c : Contract) (checks : List Check) :
    (ofChecks c checks).blockingCount =
      if failures checks = [] then 0 else (Failures.ofChecks checks).blockingCount := by
  have hany : (checks.any fun check => check.failed && recognized.contains check.id) = true ↔
      failures checks ≠ [] := by
    simp [failures, List.filter_eq_nil_iff]
  unfold ofChecks
  split
  · rename_i h
    rw [if_neg (hany.1 h)]
    dsimp only
    split <;> rfl
  · rename_i h
    rw [if_pos (not_not.1 (mt hany.2 h))]
    rfl

/-- **What blocks is counted exactly**, each name once, and something blocks when a recognized
check failed. One for each failure would be the same as long as no name failed twice. Source:
specification, section 4.5, item 10. -/
theorem blockingCount_exact (c : Contract) (checks : List Check)
    (h : blockingSum checks < UInt64.size) :
    (ofChecks c checks).blockingCount.toNat = blockingSum checks ∧
    (blockingSum checks = resultSum checks ↔ ((otherFailures checks).map Check.id).Nodup) ∧
    (0 < (ofChecks c checks).blockingCount ↔
      ∃ check ∈ checks, check.status = .fail ∧ check.id ∈ recognized) := by
  have hcount : (ofChecks c checks).blockingCount.toNat = blockingSum checks := by
    rw [blockingCount_ofChecks]
    split
    · rename_i hnone
      rw [(blockingSum_eq_zero_iff.2 hnone)]
      rfl
    · exact toNat_blockingCount h
  refine ⟨hcount, blockingSum_eq_resultSum_iff, ?_⟩
  have hfailed : (∃ check ∈ checks, check.status = .fail ∧ check.id ∈ recognized) ↔
      failures checks ≠ [] := by
    simp [List.eq_nil_iff_forall_not_mem, mem_failures]
  have hpos : 0 < (ofChecks c checks).blockingCount ↔ 0 < blockingSum checks := by
    rw [UInt64.lt_iff_toNat_lt, hcount]
    rfl
  rw [hpos, hfailed, Nat.pos_iff_ne_zero]
  exact not_congr blockingSum_eq_zero_iff

/-- A run with the largest count there is: the architecture says all but two of it, and two
other names failed, one of them twice. -/
def largestRun : List Check :=
  let architecture : Check :=
    ⟨Check.architecture, .fail, none, some ⟨[], none, none, none, some 18446744073709551613⟩⟩
  let failed (name : String) : Check := ⟨name, .fail, none, none⟩
  [failed Check.tests, architecture, failed Check.boot, failed Check.tests]

/-- A run whose sum is the largest machine word is counted exactly. -/
theorem blockingCount_exact_largestRun :
    blockingSum largestRun < UInt64.size ∧
    (ofChecks .standard largestRun).blockingCount.toNat = UInt64.size - 1 ∧
    0 < (ofChecks .standard largestRun).blockingCount := by
  have hsum : blockingSum largestRun = UInt64.size - 1 := by decide
  have hlt : blockingSum largestRun < UInt64.size := by rw [hsum]; decide
  obtain ⟨hcount, -, hpos⟩ := blockingCount_exact .standard largestRun hlt
  exact ⟨hlt, hcount.trans hsum, hpos.2 ⟨_, List.mem_cons_self, rfl, by decide⟩⟩

/-- A run with two failures of one name. -/
def twoBuilds : List Check := [⟨Check.build, .fail, none, none⟩, ⟨Check.build, .fail, none, none⟩]

/-- **A name that failed twice counts once.** -/
theorem repeated_failure_counts_once :
    resultSum twoBuilds = 2 ∧ (ofChecks .standard twoBuilds).blockingCount.toNat = 1 := by
  decide

end Profile

end Strata
