/-
# A declared constraint beside the resolved one

Specification, section 4.6 (b), `correction_resolved_constraint_consistency`.

A step is found at fault when the constraint that it declares is not the one that was
resolved for it. Intents are compared without padding, and prefixes as sets of normal
forms, so neither their order nor their repetition counts, nor how they are spelled
(`normalizePrefix_eq_of_respelled`). Limits are compared by their 64 bits, a signed number
with an unsigned one:

| declared | resolved | taken for the same |
| --- | --- | --- |
| `n ≥ 0` | `n` | yes |
| `n < 0` | `n + 2^64` | yes |
| any other two | | no |

So the comparison is exact but for limits below zero (`matches_iff_matchesBits`).
-/

import Strata.Proofs.Correction.Raised
import Strata.Proofs.Correction.Scope
import Mathlib.Algebra.Ring.Int.Defs

namespace Strata
namespace Correction

open Text Policy

/-! ### Limits -/

/-- A signed number has the bits of an unsigned one when they are the same, or when the
signed one is lower by `2^64`. -/
theorem eq_toInt64_iff_or {n : Int64} {m : UInt64} :
    n = m.toInt64 ↔ n.toInt = m.toNat ∨ n.toInt + 2 ^ 64 = m.toNat := by
  have hm : m.toInt64.toInt =
      if 2 * m.toNat < 2 ^ 64 then (m.toNat : Int) else (m.toNat : Int) - (2 ^ 64 : Nat) :=
    BitVec.toInt_eq_toNat_cond m.toBitVec
  have hsize : m.toNat < 2 ^ 64 := m.toNat_lt
  rw [← Int64.toInt_inj, hm]
  have hlt := n.toInt_lt
  have hle := n.le_toInt
  split <;> omega

/-- A limit with the bits of an unsigned number. -/
def SameBits (limit : Option Int64) (m : UInt64) : Prop :=
  ∃ n, limit = some n ∧ (n.toInt = m.toNat ∨ n.toInt + 2 ^ 64 = m.toNat)

/-- A declared constraint that says the same as a resolved one, as far as the bits of its
limits go. -/
structure Declaration.MatchesBits (d : Declaration) (r : Constraint) : Prop where
  intent : ∃ t, d.intent = some t ∧ trim t = r.intent.text
  files : SameBits d.maxFiles r.maxFiles
  bytes : SameBits d.maxTotalDiffBytes r.maxTotalDiffBytes
  prefixes : ∀ p, p ∈ normalizePrefixes d.allowedPathPrefixes ↔
    p ∈ normalizePrefixes r.allowedPathPrefixes

/-- A declared constraint with a limit below zero. -/
def Declaration.BelowZero (d : Declaration) : Prop :=
  ∃ n, (d.maxFiles = some n ∨ d.maxTotalDiffBytes = some n) ∧ n.toInt < 0

/-- The comparison with a resolved constraint goes by the bits of the limits. -/
theorem agrees_iff_matchesBits {d : Declaration} {r : Constraint} :
    agrees d r = true ↔ d.MatchesBits r := by
  have hlimit {limit : Option Int64} {m : UInt64} :
      limit = some m.toInt64 ↔ SameBits limit m := by
    simp only [SameBits, ← eq_toInt64_iff_or, exists_eq_right]
  simp only [agrees, Bool.and_eq_true, beq_iff_eq, hlimit, ordered_eq_iff,
    Option.map_eq_some_iff]
  constructor
  · rintro ⟨⟨⟨hintent, hfiles⟩, hbytes⟩, hprefixes⟩
    exact ⟨hintent, hfiles, hbytes, hprefixes⟩
  · rintro ⟨hintent, hfiles, hbytes, hprefixes⟩
    exact ⟨⟨⟨hintent, hfiles⟩, hbytes⟩, hprefixes⟩

/-- **The bits of limits that are not below zero are the limits.** -/
theorem matches_iff_matchesBits {d : Declaration} {r : Constraint} :
    d.Matches r ↔ d.MatchesBits r ∧ ¬ d.BelowZero := by
  constructor
  · rintro ⟨hintent, ⟨files, hfiles, hfilesValue⟩, ⟨bytes, hbytes, hbytesValue⟩, hprefixes⟩
    refine ⟨⟨hintent, ⟨files, hfiles, .inl hfilesValue⟩, ⟨bytes, hbytes, .inl hbytesValue⟩,
      hprefixes⟩, ?_⟩
    rintro ⟨n, hn | hn, hzero⟩
    · obtain rfl := Option.some.inj (hfiles.symm.trans hn)
      omega
    · obtain rfl := Option.some.inj (hbytes.symm.trans hn)
      omega
  · rintro ⟨⟨hintent, ⟨files, hfiles, hfilesValue⟩, ⟨bytes, hbytes, hbytesValue⟩, hprefixes⟩, hzero⟩
    have hfilesZero : ¬ files.toInt < 0 := fun h => hzero ⟨files, .inl hfiles, h⟩
    have hbytesZero : ¬ bytes.toInt < 0 := fun h => hzero ⟨bytes, .inr hbytes, h⟩
    have hfilesSize := r.maxFiles.toNat_lt
    have hbytesSize := r.maxTotalDiffBytes.toNat_lt
    exact ⟨hintent, ⟨files, hfiles, by omega⟩, ⟨bytes, hbytes, by omega⟩, hprefixes⟩

/-! ### Prefixes -/

/-- Two spellings of a prefix: with slashes either way, and with `/` or `./` in front of what
does not begin with a blank. -/
inductive Respelled : String → String → Prop where
  | slashes {p q : String} : forwardSlashes p.toList = forwardSlashes q.toList → Respelled p q
  | slash {p : String} : (∀ x ∈ p.toList.head?, isBlank x = false) → Respelled ("/" ++ p) p
  | dotSlash {p : String} : (∀ x ∈ p.toList.head?, isBlank x = false) → Respelled ("./" ++ p) p
  | symm {p q : String} : Respelled p q → Respelled q p
  | trans {p q r : String} : Respelled p q → Respelled q r → Respelled p r

/-- Lists of prefixes that are the same but for order, repetition and spelling. -/
structure SpelledAlike (ps qs : List String) : Prop where
  left : ∀ p ∈ ps, ∃ q ∈ qs, Respelled p q
  right : ∀ q ∈ qs, ∃ p ∈ ps, Respelled p q

theorem forwardSlashes_trimChars (cs : List Char) :
    forwardSlashes (trimChars cs) = trimChars (forwardSlashes cs) := by
  have hblank : (isBlank ∘ fun c => if c = '\\' then '/' else c) = isBlank := by
    funext c
    by_cases hc : c = '\\'
    · rw [Function.comp_apply, if_pos hc, hc]
      rfl
    · rw [Function.comp_apply, if_neg hc]
  simp only [trimChars, trimStart, dropTrailing, forwardSlashes, List.dropWhile_map,
    ← List.map_reverse, hblank]

/-- What is dropped in front of a prefix that begins with no blank does not count. -/
theorem normalizeChars_append {front cs : List Char} (hfront : front = ['/'] ∨ front = ['.', '/'])
    (hcs : ∀ x ∈ cs.head?, isBlank x = false) :
    normalizeChars (front ++ cs) = normalizeChars cs := by
  have hstart : trimStart cs = cs := by
    cases cs with
    | nil => rfl
    | cons x cs => exact List.dropWhile_cons_of_neg (by simp [hcs x rfl])
  rcases hfront with rfl | rfl
  · have htrim : trimChars (['/'] ++ cs) = [] ++ '/' :: trimChars cs := by
      rw [trimChars, trimChars, hstart]
      exact dropTrailing_append_cons rfl [] cs
    rw [normalizeChars, htrim, normalizeChars]
    rfl
  · have htrim : trimChars (['.', '/'] ++ cs) = ['.'] ++ '/' :: trimChars cs := by
      rw [trimChars, trimChars, hstart]
      exact dropTrailing_append_cons rfl ['.'] cs
    rw [normalizeChars, htrim, normalizeChars]
    rfl

theorem normalizePrefix_eq_of_respelled {p q : String} (h : Respelled p q) :
    normalizePrefix p = normalizePrefix q := by
  induction h with
  | slashes h =>
    rw [normalizePrefix, normalizePrefix, normalizeChars, normalizeChars,
      forwardSlashes_trimChars, forwardSlashes_trimChars, h]
  | slash hp =>
    rw [normalizePrefix, normalizePrefix, String.toList_append]
    exact congrArg String.ofList (normalizeChars_append (.inl rfl) hp)
  | dotSlash hp =>
    rw [normalizePrefix, normalizePrefix, String.toList_append]
    exact congrArg String.ofList (normalizeChars_append (.inr rfl) hp)
  | symm _ ih => exact ih.symm
  | trans _ _ ih ih' => exact ih.trans ih'

/-- Prefixes that are spelled alike are the same as sets of normal forms. -/
theorem SpelledAlike.mem_normalizePrefixes_iff {ps qs : List String} (h : SpelledAlike ps qs)
    (pre : String) : pre ∈ normalizePrefixes ps ↔ pre ∈ normalizePrefixes qs := by
  rw [mem_normalizePrefixes, mem_normalizePrefixes]
  refine and_congr_right fun _ => ⟨?_, ?_⟩
  · rintro ⟨p, hp, rfl⟩
    obtain ⟨q, hq, hpq⟩ := h.left p hp
    exact ⟨q, hq, (normalizePrefix_eq_of_respelled hpq).symm⟩
  · rintro ⟨q, hq, rfl⟩
    obtain ⟨p, hp, hpq⟩ := h.right q hq
    exact ⟨p, hp, normalizePrefix_eq_of_respelled hpq⟩

theorem SpelledAlike.matchesBits_iff {d : Declaration} {r : Constraint} {ps qs : List String}
    (hd : SpelledAlike ps d.allowedPathPrefixes) (hr : SpelledAlike qs r.allowedPathPrefixes) :
    ({ d with allowedPathPrefixes := ps } : Declaration).MatchesBits
      { r with allowedPathPrefixes := qs } ↔ d.MatchesBits r := by
  have hprefixes : (∀ p, p ∈ normalizePrefixes ps ↔ p ∈ normalizePrefixes qs) ↔
      ∀ p, p ∈ normalizePrefixes d.allowedPathPrefixes ↔
        p ∈ normalizePrefixes r.allowedPathPrefixes :=
    forall_congr' fun p => by
      rw [hd.mem_normalizePrefixes_iff, hr.mem_normalizePrefixes_iff]
  exact ⟨fun h => ⟨h.intent, h.files, h.bytes, hprefixes.1 h.prefixes⟩,
    fun h => ⟨h.intent, h.files, h.bytes, hprefixes.2 h.prefixes⟩⟩

/-! ### When the rule is raised -/

variable {step : Step} {m : Metadata} {d : Declaration} {r : Constraint}

theorem hasRule_resolved_iff (hm : step.input.metadata? = some m) (hd : m.constraint = some d)
    (hr : step.resolvedConstraint = some r) :
    step.evaluate.hasRule PolicyRule.resolvedConstraintConsistency.id = true ↔
      ¬ d.MatchesBits r := by
  have hidentity : ¬ Raises (identityFindings step.id m) .resolvedConstraintConsistency :=
    (reports_identityFindings step.id m).not_raises (by decide)
  have hstatus : ¬ Raises (statusFindings step) .resolvedConstraintConsistency :=
    (reports_statusFindings step).not_raises (by decide)
  have hdiffs : ¬ Raises (diffFindings step m) .resolvedConstraintConsistency :=
    (reports_diffFindings step m).not_raises (by decide)
  have hshape : ¬ Raises (shapeFindings d step.caps) .resolvedConstraintConsistency :=
    (reports_shapeFindings d step.caps).not_raises (by decide)
  have hintent : ¬ Raises (intentFindings (m.classification.bind Classification.intent) d.intent)
      .resolvedConstraintConsistency :=
    (Reports.fatalIf (by decide)).not_raises (by decide)
  rw [Step.hasRule_evaluate hm]
  simp only [findings, constraintFindings, hd, hr, raises_append, hidentity, hstatus, hdiffs,
    hshape, hintent, Option.map_some, Option.getD_some, or_false, false_or, resolvedFindings,
    raises_findIf_fatal]
  rw [Bool.not_eq_true', ← agrees_iff_matchesBits, Bool.not_eq_true]

/-- **A step is found at fault exactly when its limits differ in their bits from the resolved
ones, or its intent or its prefixes differ.** So it is found at fault for every difference,
unless a declared limit below zero has the bits of the resolved one; and it does not count how
the prefixes on either side are ordered, repeated and spelled. Source: specification, section
4.6 (b), `correction_resolved_constraint_consistency`. -/
theorem Step.resolved_differs_iff (hm : step.input.metadata? = some m)
    (hd : m.constraint = some d) (hr : step.resolvedConstraint = some r) :
    (step.evaluate.hasRule PolicyRule.resolvedConstraintConsistency.id = true ↔
      ¬ d.MatchesBits r) ∧
    ((step.evaluate.hasRule PolicyRule.resolvedConstraintConsistency.id = true ↔ ¬ d.Matches r) ↔
      ¬ (d.MatchesBits r ∧ d.BelowZero)) ∧
    ∀ (other : Step) (m' : Metadata) (ps qs : List String),
      SpelledAlike ps d.allowedPathPrefixes → SpelledAlike qs r.allowedPathPrefixes →
      other.input.metadata? = some m' →
      m'.constraint = some { d with allowedPathPrefixes := ps } →
      other.resolvedConstraint = some { r with allowedPathPrefixes := qs } →
      other.evaluate.hasRule PolicyRule.resolvedConstraintConsistency.id =
        step.evaluate.hasRule PolicyRule.resolvedConstraintConsistency.id := by
  have hraised := hasRule_resolved_iff hm hd hr
  refine ⟨hraised, ?_, fun other m' ps qs hps hqs hm' hd' hr' => ?_⟩
  · rw [hraised, matches_iff_matchesBits]
    tauto
  · rw [Bool.eq_iff_iff, hraised, hasRule_resolved_iff hm' hd' hr', hps.matchesBits_iff hqs]

/-- A step that declares a constraint for the boot, beside the one that was resolved. -/
def resolvedStep (maxFiles : Int64) (prefixes : List String) (resolved : Constraint) : Step where
  id := "boot-correction-1"
  input :=
    ⟨some <| .record
      [("constraint", .record
        [("intent", .ofText " runtime_boot "), ("maxFiles", .ofInt maxFiles.toInt),
         ("maxTotalDiffBytes", .ofNat 24000), ("allowedPathPrefixes", .ofTexts prefixes)])]⟩
  status := none
  errorMessage := none
  commitHash := none
  outputPayload := none
  resolvedConstraint := some resolved
  maxFilesPerStep := none
  maxTotalDiffBytes := none

/-- Spelling the prefixes anew changes nothing, and one file more is a difference. -/
theorem Step.resolved_differs_iff_boot :
    (resolvedStep 4 [".\\src\\", "package.json", "/src/"] (.budget .runtimeBoot)).evaluate.hasRule
      PolicyRule.resolvedConstraintConsistency.id = false ∧
    (resolvedStep 5 ["src/", "package.json"] (.budget .runtimeBoot)).evaluate.hasRule
      PolicyRule.resolvedConstraintConsistency.id = true := by
  let declared (n : Int64) (prefixes : List String) : Declaration :=
    ⟨some " runtime_boot ", some n, some 24000, prefixes, []⟩
  have hread (n : Int64) (hn : n = 4 ∨ n = 5) (prefixes : List String)
      (hprefixes : prefixes = ["src/", "package.json"] ∨
        prefixes = [".\\src\\", "package.json", "/src/"]) :
      (resolvedStep n prefixes (.budget .runtimeBoot)).input.metadata? =
        some ⟨none, none, none, none, some (declared n prefixes)⟩ := by
    rcases hn with rfl | rfl <;> rcases hprefixes with rfl | rfl <;> decide +kernel
  constructor
  · obtain ⟨hraised, -, halike⟩ := Step.resolved_differs_iff
      (hread 4 (.inl rfl) _ (.inl rfl)) rfl rfl
    have hsame : (declared 4 ["src/", "package.json"]).MatchesBits (.budget .runtimeBoot) :=
      agrees_iff_matchesBits.1 (by decide +kernel)
    have hplain (p : String) : Respelled p p := .slashes rfl
    have hbackslashes : Respelled ".\\src\\" "src/" :=
      .trans (.slashes (q := "./" ++ "src/") (by decide)) (.dotSlash (by rintro _ ⟨⟩; rfl))
    have hslash : Respelled "/src/" "src/" := .slash (p := "src/") (by rintro _ ⟨⟩; rfl)
    -- a backslash is turned and `./` dropped, and a slash in front goes
    have hrespelled : SpelledAlike [".\\src\\", "package.json", "/src/"]
        ["src/", "package.json"] := by
      constructor <;> simp [hplain, hbackslashes, hslash]
    have hunchanged : SpelledAlike ["src/", "package.json"] ["src/", "package.json"] :=
      ⟨fun p hp => ⟨p, hp, hplain p⟩, fun p hp => ⟨p, hp, hplain p⟩⟩
    rw [halike _ _ _ _ hrespelled hunchanged (hread 4 (.inl rfl) _ (.inr rfl)) rfl rfl]
    exact Bool.not_eq_true _ ▸ fun h => hraised.1 h hsame
  · obtain ⟨hraised, -, -⟩ := Step.resolved_differs_iff
      (hread 5 (.inr rfl) _ (.inl rfl)) rfl rfl
    refine hraised.2 fun hsame => ?_
    exact absurd (agrees_iff_matchesBits.2 hsame) (by decide +kernel)

/-- A declared limit of `-1` is taken for the largest unsigned number. -/
theorem resolved_misses_below_zero :
    (resolvedStep (-1) ["src/"]
        ⟨.runtimeBoot, 0xFFFFFFFFFFFFFFFF, 24000, ["src/"], []⟩).evaluate.hasRule
      PolicyRule.resolvedConstraintConsistency.id = false ∧
    ∃ d, (resolvedStep (-1) ["src/"]
        ⟨.runtimeBoot, 0xFFFFFFFFFFFFFFFF, 24000, ["src/"], []⟩).input.metadata? =
          some ⟨none, none, none, none, some d⟩ ∧
      ¬ d.Matches ⟨.runtimeBoot, 0xFFFFFFFFFFFFFFFF, 24000, ["src/"], []⟩ := by
  refine ⟨by decide +kernel, ⟨some " runtime_boot ", some (-1), some 24000, ["src/"], []⟩,
    by decide +kernel, fun h => ?_⟩
  obtain ⟨n, hn, hvalue⟩ := h.files
  obtain rfl := Option.some.inj hn
  exact absurd hvalue (by decide)

end Correction
end Strata
