/-
# Only recognized failures count

A profile, and the intent that follows from it, depend on the recognized failures alone
(`Check.failures`), that is, on the failed checks with one of the five names:

| change to the checks | result |
| --- | --- |
| other checks are added or left out | `Profile.ofChecks_failures`, `Intent.infer_failures` |
| another order, no name twice | `Profile.ofChecks_eq_of_perm`, `Intent.infer_eq_of_perm` |

Both together are `diagnosis_eq_of_perm`. Of two failures of one name only the first counts,
so that there the order matters.
-/

import Strata.Failure.Diagnosis
import Strata.Correction.Intent
import Mathlib.Data.List.Find
import Mathlib.Data.List.Nodup

namespace Strata

namespace Check

/-- The recognized failures among some checks. -/
def failures (checks : List Check) : List Check :=
  checks.filter fun check => check.failed && recognized.contains check.id

variable {checks checks' : List Check}

/-- **The first failure of a recognized name is a recognized failure.** -/
theorem firstFailed?_failures {id : String} (hid : id ∈ recognized) (checks : List Check) :
    firstFailed? (failures checks) id = firstFailed? checks id := by
  rw [firstFailed?, firstFailed?, failures, List.find?_filter]
  refine List.find?_congr fun check _ => ?_
  by_cases heq : check.id = id
  · simp [heq, hid]
  · simp [heq]

/-- Where no name is repeated, the order does not matter for the first failure. -/
theorem firstFailed?_eq_of_perm (hperm : checks.Perm checks') (honce : (checks.map Check.id).Nodup)
    (id : String) : firstFailed? checks id = firstFailed? checks' id := by
  refine List.find?_eq_find?_of_perm hperm ?_
  rintro a ⟨ha, hida⟩ b ⟨hb, hidb⟩
  have hids : a.id = b.id := by
    rw [Bool.and_eq_true, beq_iff_eq] at hida hidb
    exact hida.1.trans hidb.1.symm
  exact List.inj_on_of_nodup_map honce ha hb hids

end Check

open Check Diagnosis Correction

/-! ### Other checks -/

theorem Diagnosis.Failures.ofChecks_failures (checks : List Check) :
    Failures.ofChecks (failures checks) = Failures.ofChecks checks := by
  rw [Failures.ofChecks, firstFailed?_failures (by decide), firstFailed?_failures (by decide),
    firstFailed?_failures (by decide), firstFailed?_failures (by decide),
    firstFailed?_failures (by decide)]
  rfl

/-- **A profile depends on the recognized failures alone.** -/
theorem Profile.ofChecks_failures (c : Contract) (checks : List Check) :
    Profile.ofChecks c (failures checks) = Profile.ofChecks c checks := by
  have hany : (failures checks).any (fun check => check.failed && recognized.contains check.id) =
      checks.any fun check => check.failed && recognized.contains check.id := by
    simp [failures, List.any_filter]
  rw [Profile.ofChecks, Profile.ofChecks, hany, Failures.ofChecks_failures]

/-- **An intent depends on the recognized failures alone.** -/
theorem Correction.Intent.infer_failures (p : Profile) (checks : List Check) :
    Intent.infer p (failures checks) = Intent.infer p checks := by
  rw [Intent.infer, Intent.infer, firstFailed?_failures (by decide),
    firstFailed?_failures (by decide), firstFailed?_failures (by decide)]

/-! ### Another order -/

section

variable {checks checks' : List Check} (hperm : checks.Perm checks')
  (honce : (checks.map Check.id).Nodup)
include hperm honce

theorem Diagnosis.Failures.ofChecks_eq_of_perm :
    Failures.ofChecks checks = Failures.ofChecks checks' := by
  simp only [Failures.ofChecks, firstFailed?_eq_of_perm hperm honce]

theorem Profile.ofChecks_eq_of_perm (c : Contract) :
    Profile.ofChecks c checks = Profile.ofChecks c checks' := by
  rw [Profile.ofChecks, Profile.ofChecks, hperm.any_eq,
    Failures.ofChecks_eq_of_perm hperm honce]

theorem Correction.Intent.infer_eq_of_perm (p : Profile) :
    Intent.infer p checks = Intent.infer p checks' := by
  simp only [Intent.infer, firstFailed?_eq_of_perm hperm honce]

end

/-- **Neither the order of the checks nor other checks matter** for the profile and the intent,
when none of the five names has two failures. Source: specification, section 4.5, the recognized
checks. -/
theorem diagnosis_eq_of_perm {checks checks' : List Check}
    (honce : ((failures checks).map Check.id).Nodup)
    (hperm : (failures checks).Perm (failures checks')) (c : Contract) :
    Profile.ofChecks c checks = Profile.ofChecks c checks' ∧
    ∀ p, Intent.infer p checks = Intent.infer p checks' := by
  constructor
  · calc Profile.ofChecks c checks
      _ = Profile.ofChecks c (failures checks) := (Profile.ofChecks_failures c checks).symm
      _ = Profile.ofChecks c (failures checks') := Profile.ofChecks_eq_of_perm hperm honce c
      _ = Profile.ofChecks c checks' := Profile.ofChecks_failures c checks'
  · intro p
    calc Intent.infer p checks
      _ = Intent.infer p (failures checks) := (Intent.infer_failures p checks).symm
      _ = Intent.infer p (failures checks') := Intent.infer_eq_of_perm hperm honce p
      _ = Intent.infer p checks' := Intent.infer_failures p checks'

/-- Two runs with the same failures of the architecture and the tests: one has another failed
check besides, the other one that passed. -/
def sampleRuns : List Check × List Check :=
  let architecture : Check :=
    ⟨Check.architecture, .fail, none,
      some ⟨[.error .cycle "src/a.ts" "src/a.ts imports itself" none], none, none, none, none⟩⟩
  let tests : Check :=
    ⟨Check.tests, .fail, some "TypeError: app.use() requires a middleware function", none⟩
  ([⟨"lint", .fail, none, none⟩, architecture, tests],
    [tests, ⟨Check.build, .pass, none, none⟩, architecture])

/-- The two runs have the same profile and the same intent. -/
theorem diagnosis_sampleRuns :
    ((failures sampleRuns.1).map Check.id).Nodup ∧
    (failures sampleRuns.1).Perm (failures sampleRuns.2) ∧ failures sampleRuns.1 ≠ [] ∧
    Profile.ofChecks .standard sampleRuns.1 = Profile.ofChecks .standard sampleRuns.2 ∧
    ∀ p, Intent.infer p sampleRuns.1 = Intent.infer p sampleRuns.2 :=
  ⟨by decide, by decide, by decide, diagnosis_eq_of_perm (by decide) (by decide) .standard⟩

end Strata
