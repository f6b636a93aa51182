/-
# What is derived is accepted

Specification, section 4.6 (a): budgets are clamped by the caps.

A constraint that is derived for an intent passes every check that is made of it later,
under the caps that it was derived with and under the standard ones: its numbers are above
zero, at most the caps and at most the budget, so that they keep their value as signed
numbers (`bounded_derive`); declared by its document, in whatever order the members come,
it is read as the same constraint (`metadata_of_declares`).

So a step that declares its derived constraint is found at fault for other reasons only
(`Step.derived_accepted`).

A constraint is declared by its document or by the document of its declaration, which are
the same (`toJson_ofConstraint`), or by anything else that is read as the declaration.
-/

import Strata.Proofs.Correction.Compliance
import Strata.Proofs.Correction.Scope
import Strata.Proofs.Json.Readable

namespace Strata
namespace Correction

open Text Policy Json

theorem derive_intent (intent : Intent) (caps : Caps) :
    (Constraint.derive intent caps).intent = intent := by
  cases intent <;> rfl

/-! ### The numbers of a derived constraint -/

/-- Below the bound of signed numbers, a number keeps its value as a signed one. -/
theorem ofInt_toNat {m : UInt64} (h : m.toNat < integerBound) :
    Int64.ofInt m.toNat = m.toInt64 ∧ m.toInt64.toInt = m.toNat := by
  have hvalue : (Int64.ofInt m.toNat).toInt = m.toNat := by
    refine Int64.toInt_ofInt_of_le ?_ ?_
    · exact Int.le_trans (by decide) (Int.natCast_nonneg _)
    · exact Int.ofNat_lt.2 h
  have heq : Int64.ofInt m.toNat = m.toInt64 :=
    (eq_toInt64_iff (by omega)).2 hvalue
  exact ⟨heq, heq ▸ hvalue⟩

theorem toNat_min (a b : UInt64) : (min a b).toNat = min a.toNat b.toNat := by
  change (if a ≤ b then a else b).toNat = min a.toNat b.toNat
  by_cases h : a ≤ b
  · rw [if_pos h, Nat.min_eq_left (UInt64.le_iff_toNat_le.1 h)]
  · rw [if_neg h, Nat.min_eq_right (Nat.le_of_not_le fun hle => h (UInt64.le_iff_toNat_le.2 hle))]

/-- A budget is above zero and at most the standard caps. -/
theorem budget_within_standard (intent : Intent) :
    1 ≤ (Constraint.budget intent).maxFiles.toNat ∧
    (Constraint.budget intent).maxFiles.toNat ≤ Caps.standard.maxFilesPerStep.toNat ∧
    1 ≤ (Constraint.budget intent).maxTotalDiffBytes.toNat ∧
    (Constraint.budget intent).maxTotalDiffBytes.toNat ≤ Caps.standard.maxTotalDiffBytes.toNat := by
  cases intent <;> decide

/-- **The numbers of a derived constraint**: above zero, and at most the caps that it was
derived with and the standard ones. -/
theorem derive_within {caps : Caps} (intent : Intent) (hfiles : 1 ≤ caps.maxFilesPerStep)
    (hbytes : 1 ≤ caps.maxTotalDiffBytes) :
    (1 ≤ (Constraint.derive intent caps).maxFiles.toNat ∧
      (Constraint.derive intent caps).maxFiles.toNat ≤ caps.maxFilesPerStep.toNat ∧
      (Constraint.derive intent caps).maxFiles.toNat ≤ Caps.standard.maxFilesPerStep.toNat) ∧
    (1 ≤ (Constraint.derive intent caps).maxTotalDiffBytes.toNat ∧
      (Constraint.derive intent caps).maxTotalDiffBytes.toNat ≤ caps.maxTotalDiffBytes.toNat ∧
      (Constraint.derive intent caps).maxTotalDiffBytes.toNat ≤
        Caps.standard.maxTotalDiffBytes.toNat) := by
  obtain ⟨hfiles₁, hfiles₂, hbytes₁, hbytes₂⟩ := budget_within_standard intent
  have hfiles : 1 ≤ caps.maxFilesPerStep.toNat := UInt64.le_iff_toNat_le.1 hfiles
  have hbytes : 1 ≤ caps.maxTotalDiffBytes.toNat := UInt64.le_iff_toNat_le.1 hbytes
  simp only [Constraint.derive, toNat_min]
  omega

theorem derive_lt_integerBound {caps : Caps} (intent : Intent) (hfiles : 1 ≤ caps.maxFilesPerStep)
    (hbytes : 1 ≤ caps.maxTotalDiffBytes) :
    (Constraint.derive intent caps).maxFiles.toNat < integerBound ∧
    (Constraint.derive intent caps).maxTotalDiffBytes.toNat < integerBound := by
  obtain ⟨⟨-, -, hfiles⟩, -, -, hbytes⟩ := derive_within intent hfiles hbytes
  exact ⟨Nat.lt_of_le_of_lt hfiles (by decide), Nat.lt_of_le_of_lt hbytes (by decide)⟩

/-! ### Reading the document of a constraint -/

/-- The members of the document of a constraint. -/
def Constraint.members (c : Constraint) : List (String × Json) :=
  [("intent", .ofText c.intent.text),
   ("maxFiles", .ofNat c.maxFiles.toNat),
   ("maxTotalDiffBytes", .ofNat c.maxTotalDiffBytes.toNat),
   ("allowedPathPrefixes", .ofTexts c.allowedPathPrefixes),
   ("guidance", .ofTexts c.guidance)]

theorem Constraint.nodup_members (c : Constraint) : (c.members.map Prod.fst).Nodup := by
  simp [Constraint.members]

/-- **The document of a constraint is read as its declaration**, in whatever order its
members come. -/
theorem ofJson?_record {c : Constraint} {members : List (String × Json)}
    (hperm : members.Perm c.members) (hfiles : c.maxFiles.toNat < integerBound)
    (hbytes : c.maxTotalDiffBytes.toNat < integerBound) :
    Declaration.ofJson? (.record members) = some (.ofConstraint c) := by
  have hkeys : (members.map Prod.fst).Nodup := (hperm.map Prod.fst).nodup_iff.2 c.nodup_members
  have hnames : ∀ m ∈ members, m.1 ∈
      ["intent", "maxFiles", "maxTotalDiffBytes", "allowedPathPrefixes", "guidance"] := by
    intro m hm
    simpa [Constraint.members] using List.mem_map_of_mem (f := Prod.fst) (hperm.mem_iff.1 hm)
  -- the keys are distinct, so their order does not show in a lookup
  have hlookup (name : String) : members.lookup name = c.members.lookup name :=
    lookup_eq_of_perm hkeys hperm name
  have hoptional {α : Type} {name : String} {json : Json} {read : Json → Option α} {a : α}
      (h : c.members.lookup name = some json) (hnull : json ≠ null) (hread : read json = some a) :
      Fields.optional ⟨members, false⟩ name read = some (some a) := by
    rw [optional_eq_map ((hlookup name).trans h) hnull, hread, Option.map_some]
  have hintent : Fields.optional ⟨members, false⟩ "intent" text? = some (some c.intent.text) :=
    hoptional rfl (by simp [ofText]) (text?_ofText _)
  have hmaxFiles : Fields.optional ⟨members, false⟩ "maxFiles" integer? =
      some (some (Int64.ofInt c.maxFiles.toNat)) :=
    hoptional rfl (by simp [ofNat]) (integer?_ofNat hfiles)
  have hmaxBytes : Fields.optional ⟨members, false⟩ "maxTotalDiffBytes" integer? =
      some (some (Int64.ofInt c.maxTotalDiffBytes.toNat)) :=
    hoptional rfl (by simp [ofNat]) (integer?_ofNat hbytes)
  have htexts {name : String} {xs : List String} (h : c.members.lookup name = some (ofTexts xs)) :
      Fields.withDefault ⟨members, false⟩ name [] texts? = some xs :=
    (withDefault_eq ((hlookup name).trans h)).trans (texts?_ofTexts xs)
  have hprefixes : Fields.withDefault ⟨members, false⟩ "allowedPathPrefixes" [] texts? =
      some c.allowedPathPrefixes := htexts rfl
  have hguidance : Fields.withDefault ⟨members, false⟩ "guidance" [] texts? = some c.guidance :=
    htexts rfl
  rw [Declaration.ofJson?, fields?_record hnames hkeys]
  simp only [Option.bind_eq_bind, Option.bind_some, hintent, hmaxFiles, hmaxBytes, hprefixes,
    hguidance, (ofInt_toNat hfiles).1, (ofInt_toNat hbytes).1]
  rfl

/-! ### Steps that declare a constraint -/

/-- The documents that declare a constraint: its own and the one of its declaration, as they
are or kept as free values. -/
def Constraint.DeclaredBy (c : Constraint) (json : Json) : Prop :=
  ∃ document, (document = c.toJson ∨ document = (Declaration.ofConstraint c).toJson) ∧
    (json = document ∨ ∃ depth, free? depth document = some json)

/-- A step declares a constraint in its metadata: they are read so, or a document declares the
constraint and they are read but for it. -/
def Step.Declares (step : Step) (m : Metadata) (c : Constraint) : Prop :=
  m.constraint = some (.ofConstraint c) ∧
    (step.input.metadata? = some m ∨
      ∃ front key json back,
        step.input.deepCorrection = some (.object (front ++ (key, json) :: back)) ∧
        unescape? key = some "constraint" ∧ c.DeclaredBy json ∧
        Metadata.ofJson? (.object (front ++ (key, null) :: back)) =
          some { m with constraint := none })

/-- A constraint and its declaration have the same document. -/
theorem toJson_ofConstraint {c : Constraint} (hfiles : c.maxFiles.toNat < integerBound)
    (hbytes : c.maxTotalDiffBytes.toNat < integerBound) :
    (Declaration.ofConstraint c).toJson = c.toJson := by
  have hnumber {n : UInt64} (h : n.toNat < integerBound) :
      ofInt n.toInt64.toInt = ofNat n.toNat := by
    rw [(ofInt_toNat h).2]
    rfl
  simp only [Declaration.toJson, Declaration.ofConstraint, ofOption, hnumber hfiles,
    hnumber hbytes, Constraint.toJson]

theorem Constraint.canonical_members {c : Constraint} (hfiles : c.maxFiles.toNat < integerBound)
    (hbytes : c.maxTotalDiffBytes.toNat < integerBound) : ∀ m ∈ c.members, Canonical m.2 := by
  have htexts (xs : List String) : Canonical (ofTexts xs) :=
    canonical_array fun item hitem => by
      obtain ⟨x, -, rfl⟩ := List.mem_map.1 hitem
      exact canonical_ofText x
  have hnumber {n : Nat} (h : n < integerBound) : Canonical (ofNat n) :=
    canonical_ofNat (Nat.le_of_lt (Nat.lt_trans h (by decide)))
  simp only [Constraint.members, List.forall_mem_cons]
  exact ⟨canonical_ofText _, hnumber hfiles, hnumber hbytes, htexts _, htexts _, by simp⟩

/-- Metadata that are read with any constraint, or without one, are read with another one. -/
theorem ofJson?_replace_constraint {front back : List (String × Json)} {key : String}
    {json₀ json : Json} {m : Metadata} {d : Declaration} (hkey : unescape? key = some "constraint")
    (h : Metadata.ofJson? (.object (front ++ (key, json₀) :: back)) = some m) (hnull : json ≠ null)
    (hd : Declaration.ofJson? json = some d) :
    Metadata.ofJson? (.object (front ++ (key, json) :: back)) =
      some { m with constraint := some d } := by
  simp only [Metadata.ofJson?, Option.bind_eq_bind, Option.bind_eq_some_iff] at h
  obtain ⟨f, hf, phase, hphase, attempt, hattempt, failed, hfailed, classification,
    hclassification, constraint, -, hm⟩ := h
  obtain rfl := Option.some.inj hm
  obtain ⟨f', hf', hconstraint, hothers⟩ :=
    exists_fields?_replace hkey (by simp) hf
  have hsame {α : Type} {name : String} (hname : name ≠ "constraint") (read : Json → Option α) :
      f'.optional name read = f.optional name read := by
    rw [Fields.optional, Fields.optional, hothers name hname]
  rw [Metadata.ofJson?, hf']
  simp only [Option.bind_eq_bind, Option.bind_some, ne_eq, String.reduceEq, not_false_eq_true,
    hsame, hphase, hattempt, hfailed, hclassification, optional_eq_map hconstraint hnull, hd,
    Option.map_some, Option.pure_def]

/-- A document that declares a constraint is read as the declaration. -/
theorem ofJson?_of_declaredBy {c : Constraint} {json : Json} (h : c.DeclaredBy json)
    (hfiles : c.maxFiles.toNat < integerBound) (hbytes : c.maxTotalDiffBytes.toNat < integerBound) :
    json ≠ null ∧ Declaration.ofJson? json = some (.ofConstraint c) := by
  obtain ⟨document, hdocument, hjson⟩ := h
  obtain rfl : document = c.toJson :=
    hdocument.elim id fun h => h.trans (toJson_ofConstraint hfiles hbytes)
  obtain ⟨written, hperm, rfl⟩ : ∃ written, written.Perm c.members ∧ json = .record written := by
    rcases hjson with rfl | ⟨depth, hfree⟩
    · exact ⟨c.members, .refl _, rfl⟩
    · exact exists_perm_of_free? c.nodup_members (c.canonical_members hfiles hbytes) hfree
  exact ⟨by simp [record], ofJson?_record hperm hfiles hbytes⟩

/-- **A declared constraint is read as it was.** -/
theorem metadata_of_declares {step : Step} {m : Metadata} {c : Constraint} (h : step.Declares m c)
    (hfiles : c.maxFiles.toNat < integerBound) (hbytes : c.maxTotalDiffBytes.toNat < integerBound) :
    step.input.metadata? = some m := by
  obtain ⟨hconstraint, hread | ⟨front, key, json, back, hobject, hkey, hdeclared, hothers⟩⟩ := h
  · exact hread
  · obtain ⟨hnull, hjson⟩ := ofJson?_of_declaredBy hdeclared hfiles hbytes
    refine metadata?_eq_some_iff.2 ⟨_, hobject, ?_⟩
    rw [ofJson?_replace_constraint hkey hothers hnull hjson, ← hconstraint]

/-! ### The checks of a declared constraint -/

/-- Diffs that respect a constraint: each path, as it was staged or in normal form, matched by
a prefix, and no more files and bytes than it allows. -/
structure Constraint.KeptBy (c : Constraint) (diffs : List StagedDiff) : Prop where
  paths : ∀ diff ∈ diffs, ∃ p ∈ c.allowedPathPrefixes,
    pathWithinPrefix diff.path p = true ∨ pathWithinPrefix (normalizePrefix diff.path) p = true
  files : (diffs.map fun diff => normalizePrefix diff.path).toFinset.card ≤ c.maxFiles.toNat
  bytes : (diffs.map fun diff => diff.diffPreview.utf8ByteSize).sum ≤ c.maxTotalDiffBytes.toNat

/-- A step that sets no caps or these. -/
def Step.MayUse (step : Step) (caps : Caps) : Prop :=
  (step.maxFilesPerStep = none ∨ step.maxFilesPerStep = some caps.maxFilesPerStep) ∧
  (step.maxTotalDiffBytes = none ∨ step.maxTotalDiffBytes = some caps.maxTotalDiffBytes)

/-- The prefixes of a derived constraint are in normal form, and none has a blank in front. -/
theorem derive_prefixes (intent : Intent) (caps : Caps) :
    (Constraint.derive intent caps).allowedPathPrefixes ≠ [] ∧
    ∀ p ∈ (Constraint.derive intent caps).allowedPathPrefixes,
      p ≠ "" ∧ normalizePrefix p = p ∧ (normalizeChars p.toList).head?.any isBlank = false := by
  have hbudget : normalizePrefixes (Constraint.budget intent).allowedPathPrefixes ≠ [] ∧
      ∀ p ∈ normalizePrefixes (Constraint.budget intent).allowedPathPrefixes,
        p ≠ "" ∧ normalizePrefix p = p ∧
          (normalizeChars p.toList).head?.any isBlank = false := by
    cases intent <;> decide +kernel
  exact hbudget

/-- **A derived constraint keeps to the caps.** -/
theorem bounded_derive {step : Step} {intent : Intent} {caps : Caps}
    (hfiles : 1 ≤ caps.maxFilesPerStep) (hbytes : 1 ≤ caps.maxTotalDiffBytes)
    (hcaps : step.MayUse caps) :
    Bounded (.ofConstraint (.derive intent caps)) step.caps := by
  obtain ⟨⟨hfiles₁, hfiles₂, hfiles₃⟩, hbytes₁, hbytes₂, hbytes₃⟩ :=
    derive_within intent hfiles hbytes
  obtain ⟨hfiles₄, hbytes₄⟩ := derive_lt_integerBound intent hfiles hbytes
  have hlimit {limit cap : UInt64} (hpositive : 1 ≤ limit.toNat) (hle : limit.toNat ≤ cap.toNat)
      (hlt : limit.toNat < integerBound) : WithinCap (some limit.toInt64) cap := by
    have hvalue := (ofInt_toNat hlt).2
    exact ⟨_, rfl, by omega, by omega⟩
  have hcap {cap standard limit : UInt64} {own : Option UInt64}
      (hown : own = none ∨ own = some cap) (hle : limit.toNat ≤ cap.toNat)
      (hstandard : limit.toNat ≤ standard.toNat) :
      limit.toNat ≤ (own.getD standard).toNat := by
    rcases hown with rfl | rfl
    · exact hstandard
    · exact hle
  obtain ⟨hne, hprefixes⟩ := derive_prefixes intent caps
  obtain ⟨p, hp⟩ := List.exists_mem_of_ne_nil _ hne
  obtain ⟨hempty, hnormal, -⟩ := hprefixes p hp
  exact ⟨hlimit hfiles₁ (hcap hcaps.1 hfiles₂ hfiles₃) hfiles₄,
    hlimit hbytes₁ (hcap hcaps.2 hbytes₂ hbytes₃) hbytes₄, p, hp, by rwa [hnormal]⟩

/-- A derived constraint is declared as it was derived. -/
theorem matches_derive {intent : Intent} {caps : Caps} (hfiles : 1 ≤ caps.maxFilesPerStep)
    (hbytes : 1 ≤ caps.maxTotalDiffBytes) :
    (Declaration.ofConstraint (.derive intent caps)).Matches (.derive intent caps) := by
  obtain ⟨hfiles, hbytes⟩ := derive_lt_integerBound intent hfiles hbytes
  have htrim : trim intent.text = intent.text := by cases intent <;> decide +kernel
  exact ⟨⟨_, rfl, by rwa [derive_intent]⟩, ⟨_, rfl, (ofInt_toNat hfiles).2⟩,
    ⟨_, rfl, (ofInt_toNat hbytes).2⟩, fun _ => Iff.rfl⟩

/-- Diffs that respect a derived constraint keep to its declaration. -/
theorem staged_derive {intent : Intent} {caps : Caps} {diffs : List StagedDiff}
    (hfiles : 1 ≤ caps.maxFilesPerStep) (hbytes : 1 ≤ caps.maxTotalDiffBytes)
    (h : (Constraint.derive intent caps).KeptBy diffs) :
    Staged diffs (.ofConstraint (.derive intent caps)) := by
  obtain ⟨hfiles, hbytes⟩ := derive_lt_integerBound intent hfiles hbytes
  have hprefixes := (derive_prefixes intent caps).2
  refine ⟨fun diff hdiff => ?_, fun n hn => ?_, fun n hn => ?_⟩
  · obtain ⟨p, hp, hmatch⟩ := h.paths diff hdiff
    obtain ⟨-, hnormal, hblank⟩ := hprefixes p hp
    refine ⟨p, hp, ?_⟩
    rcases hmatch with hraw | hnormalized
    · exact pathWithinPrefix_normalizePrefix (fun x hx => by simpa [hx] using hblank) hraw
    · rwa [hnormal]
  · obtain rfl := Option.some.inj hn
    rw [(ofInt_toNat hfiles).2]
    exact Int.ofNat_le.2 h.files
  · obtain rfl := Option.some.inj hn
    rw [(ofInt_toNat hbytes).2]
    exact Int.ofNat_le.2 h.bytes

/-! ### The verdict -/

/-- A rule about the constraint of a step: on its limits and prefixes, on its intent, and on
the constraint that was resolved. -/
def IsConstraintRule (ruleId : String) : Prop :=
  "correction_constraint_".toList <+: ruleId.toList ∨
    ruleId = PolicyRule.intentMatchesConstraint.id ∨
    ruleId = PolicyRule.resolvedConstraintConsistency.id

/-- Where the constraint of a step is clean, no finding is about it. -/
theorem not_isConstraintRule {step : Step} {m : Metadata} (hm : step.input.metadata? = some m)
    (hclean : Clean (constraintFindings step m)) {f : Finding} (hf : f ∈ step.evaluate.findings) :
    ¬ IsConstraintRule f.ruleId := by
  have hconstraint : f ∉ constraintFindings step m := by
    intro hf
    obtain ⟨r, hr, -, hgravity⟩ := (reports_constraintFindings step m).exists_rule hf
    have hfatal : ∀ r ∈ [PolicyRule.constraintPresent, .maxFilesPositive, .maxFilesWithinCap,
        .maxBytesPositive, .maxBytesWithinCap, .prefixesPresent, .intentMatchesConstraint,
        .resolvedConstraintConsistency], r.gravity = .fatal := by decide
    simpa [Finding.isFatal, hgravity, hfatal r hr] using hclean f hf
  rw [Step.evaluate, hm] at hf
  change f ∈ identityFindings step.id m ++ constraintFindings step m ++ statusFindings step ++
    diffFindings step m at hf
  simp only [List.mem_append, hconstraint, or_false] at hf
  have hother : Reports (identityFindings step.id m ++ statusFindings step ++ diffFindings step m)
      [.phasePresent, .attemptPositive, .attemptSuffixMatch, .failedStepPresent, .commitPresent,
       .stagedDiffsPresent, .failedErrorMessage, .stagedPathsWithinConstraint,
       .stagedFileCountWithinConstraint, .diffBudgetWithinConstraint] :=
    ((reports_identityFindings step.id m).append (reports_statusFindings step)).append
      (reports_diffFindings step m)
  obtain ⟨r, hr, hrule, -⟩ := hother.exists_rule (f := f) (by simpa only [List.mem_append] using hf)
  rw [hrule, IsConstraintRule, ← List.isPrefixOf_iff_prefix]
  clear hrule
  decide +revert +kernel

/-- **What is derived is accepted.** A step that declares the constraint derived for its intent,
under caps above zero that it keeps to, is not found at fault for the constraint. With an
identity and an end that are in order it passes, whatever diffs it staged within the files, the
bytes and the prefixes of that constraint. Source: specification, section 4.6 (a) and (b). -/
theorem Step.derived_accepted {step : Step} {m : Metadata} {intent : Intent} {caps : Caps}
    (hfiles : 1 ≤ caps.maxFilesPerStep) (hbytes : 1 ≤ caps.maxTotalDiffBytes)
    (hdeclared : step.Declares m (.derive intent caps))
    (hintent : m.classification.bind Classification.intent = some intent.text)
    (hresolved : ∀ r, step.resolvedConstraint = some r → r = .derive intent caps)
    (hcaps : step.MayUse caps) :
    (∀ f ∈ step.evaluate.findings, ¬ IsConstraintRule f.ruleId) ∧
    (Identified step.id m → step.Concluded →
      (Constraint.derive intent caps).KeptBy step.stagedDiffs → step.evaluate.ok = true) := by
  obtain ⟨hfiles', hbytes'⟩ := derive_lt_integerBound intent hfiles hbytes
  have hm := metadata_of_declares hdeclared hfiles' hbytes'
  have hconstraint := hdeclared.1
  have hbounded : Bounded (.ofConstraint (.derive intent caps)) step.caps :=
    bounded_derive hfiles hbytes hcaps
  have hsame : SameIntent (m.classification.bind Classification.intent)
      (Declaration.ofConstraint (.derive intent caps)).intent :=
    ⟨_, _, hintent, rfl, by rw [derive_intent]⟩
  have hmatches : ∀ r, step.resolvedConstraint = some r →
      (Declaration.ofConstraint (.derive intent caps)).Matches r := fun r hr =>
    hresolved r hr ▸ matches_derive hfiles hbytes
  refine ⟨fun f hf => not_isConstraintRule hm ?_ hf, fun hidentified hconcluded hkept => ?_⟩
  · exact (clean_constraintFindings hconstraint).2 ⟨hbounded, hsame, hmatches⟩
  · exact Step.ok_iff_complies.2 ⟨m, _, metadata?_eq_some_iff.1 hm, hidentified, hconstraint,
      hbounded, hsame, hmatches, hconcluded, staged_derive hfiles hbytes hkept⟩

/-- A completed step that corrects one file under the constraint derived for an intent. -/
def derivedStep (intent : Intent) (caps : Caps) : Step where
  id := "architecture-correction-1"
  input :=
    ⟨some <| .record
      [("phase", .ofText "architecture"), ("attempt", .ofNat 1),
       ("failedStepId", .ofText "validate"),
       ("classification", .record [("intent", .ofText intent.text)]),
       ("constraint", (Constraint.derive intent caps).toJson)]⟩
  status := some .completed
  errorMessage := none
  commitHash := some "deadbeef"
  outputPayload := some ⟨[⟨"src/db/client.ts", "- import"⟩]⟩
  resolvedConstraint := some (.derive intent caps)
  maxFilesPerStep := some caps.maxFilesPerStep
  maxTotalDiffBytes := none

/-- Under caps below the budget of the intent, and with the standard cap for the bytes. -/
theorem Step.derived_accepted_architecture :
    (∀ f ∈ (derivedStep .architectureViolation ⟨5, 9000⟩).evaluate.findings,
      ¬ IsConstraintRule f.ruleId) ∧
    (derivedStep .architectureViolation ⟨5, 9000⟩).evaluate.ok = true := by
  let step := derivedStep .architectureViolation ⟨5, 9000⟩
  let m : Metadata := ⟨some "architecture", some 1, some "validate",
    some ⟨some "architecture_violation"⟩,
    some (.ofConstraint (.derive .architectureViolation ⟨5, 9000⟩))⟩
  have hothers : Metadata.ofJson?
      (.object
        ([("phase", .ofText "architecture"), ("attempt", .ofNat 1),
          ("failedStepId", .ofText "validate"),
          ("classification", .record [("intent", .ofText "architecture_violation")])] ++
            [("constraint", null)])) = some { m with constraint := none } := by decide +kernel
  have hidentified : Identified step.id m := by
    refine clean_identityFindings.1 ?_
    unfold Clean
    decide +kernel
  have hconcluded : step.Concluded := by
    refine clean_statusFindings.1 ?_
    unfold Clean
    decide +kernel
  have hkept : (Constraint.derive .architectureViolation ⟨5, 9000⟩).KeptBy step.stagedDiffs :=
    ⟨by decide +kernel, by decide +kernel, by decide +kernel⟩
  have hdeclared : step.Declares m (.derive .architectureViolation ⟨5, 9000⟩) :=
    ⟨rfl, .inr ⟨_, _, _, [], rfl, rfl, ⟨_, .inl rfl, .inl rfl⟩, hothers⟩⟩
  obtain ⟨hfindings, hok⟩ := Step.derived_accepted (by decide) (by decide) hdeclared rfl
    (fun r hr => (Option.some.inj hr).symm) ⟨.inr rfl, .inl rfl⟩
  exact ⟨hfindings, hok hidentified hconcluded hkept⟩

end Correction
end Strata
