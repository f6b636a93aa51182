/-
# What a session keeps

Specification, section 2: from a source tree to a report, from checks to clusters, from an
intent to a constraint and a verdict.

Whatever is done in a session, and in whatever order, what it remembers stays connected
(`Session.Sound`): the report is that of a validation of its root, the profile is that of
its checks, and the constraint was derived for the intent that some checks showed. Each
operation keeps this (`Sound.step`), so every run does (`Sound.run`).

| field | changed by |
| --- | --- |
| `files` | `edit` |
| `contract` | `withContract`, `reloadContract` |
| `report` | `validate` |
| `checks`, `profile` | `classify` |
| `constraint` | `constrain` |

What no operation of a run changes, the run does not change (`run_keeps`). `verify` judges a
step by the constraint of the session, whatever the step declares itself: alike until the next
`constrain` (`verify_run`), and so that a step that is accepted at the end of a run keeps to a
constraint that was derived in it (`keptBy_of_verify_run`).
-/

import Strata.Session
import Strata.Proofs.Correction.Derivation
import Strata.Proofs.Documents
import Strata.Proofs.Failure.Diagnosis
import Strata.Proofs.Json.Member

namespace Strata
namespace Session

open Correction

variable {root : Path} {s : Session}

/-! ### What each operation does -/

/-- A validation ends with a report, which is remembered, or stops and forgets the last
one. Nothing else changes. -/
theorem validate_cases (s : Session) :
    (∃ r, Report.validate s.files s.root s.contract = .ok r ∧
      s.validate = (.ok r, { s with report := some r.toCheck })) ∨
    (∃ e, Report.validate s.files s.root s.contract = .error e ∧
      s.validate = (.error (.io e), { s with report := none })) := by
  unfold validate
  cases h : Report.validate s.files s.root s.contract with
  | ok r => exact .inl ⟨r, rfl, rfl⟩
  | error e => exact .inr ⟨e, rfl, rfl⟩

/-- A contract is loaded from the files, or the session stays as it is. -/
theorem step_reloadContract (s : Session) :
    s.step .reloadContract = s ∨
    ∃ c, Contract.load s.files s.root none = .ok c ∧ s.step .reloadContract = s.withContract c := by
  cases h : Contract.load s.files s.root none with
  | error e =>
    refine .inl ?_
    rw [step, reloadContract, h]
    rfl
  | ok c =>
    refine .inr ⟨c, rfl, ?_⟩
    rw [step, reloadContract, h]
    rfl

/-! ### What a run keeps -/

/-- Caps that leave room for a correction. -/
def Operation.LeavesRoom : Operation → Prop
  | .constrain caps => 1 ≤ caps.maxFilesPerStep ∧ 1 ≤ caps.maxTotalDiffBytes
  | _ => True

/-- A constraint that was derived for the intent that some checks showed, under caps above
zero. -/
def Derived (constraint : Constraint) : Prop :=
  ∃ c checks caps, 1 ≤ caps.maxFilesPerStep ∧ 1 ≤ caps.maxTotalDiffBytes ∧
    constraint = .derive (.infer (.ofChecks c checks) checks) caps

/-- What a session that follows a root remembers. -/
structure Sound (root : Path) (s : Session) : Prop where
  sameRoot : s.root = root
  report : ∀ check ∈ s.report, ∃ files c r,
    Report.validate files root c = .ok r ∧ check = r.toCheck
  profile : ∃ c, s.profile = .ofChecks c s.checks
  constraint : Derived s.constraint

/-- Nothing was checked yet, so the intent is unknown. -/
theorem sound_start (files : Files) (root : Path) (c : Contract) :
    (start files root c).Sound root where
  sameRoot := rfl
  report _ h := by cases h
  profile := ⟨c, rfl⟩
  constraint := ⟨c, [], .standard, by decide, by decide, rfl⟩

namespace Sound

theorem withContract (h : s.Sound root) (c : Contract) : (s.withContract c).Sound root :=
  ⟨h.sameRoot, h.report, h.profile, h.constraint⟩

theorem validate (h : s.Sound root) : s.validate.2.Sound root := by
  rcases validate_cases s with ⟨r, hvalidate, heq⟩ | ⟨e, -, heq⟩
  · rw [heq]
    refine ⟨h.sameRoot, fun check hcheck => ?_, h.profile, h.constraint⟩
    obtain rfl := Option.some.inj hcheck
    exact ⟨s.files, s.contract, r, h.sameRoot ▸ hvalidate, rfl⟩
  · rw [heq]
    exact ⟨h.sameRoot, fun _ hcheck => (by cases hcheck), h.profile, h.constraint⟩

/-- The constraint is derived for the intent of the profile, which is that of the checks. -/
theorem constrain (h : s.Sound root) {caps : Caps} (hfiles : 1 ≤ caps.maxFilesPerStep)
    (hbytes : 1 ≤ caps.maxTotalDiffBytes) : (s.constrain caps).Sound root := by
  obtain ⟨c, hprofile⟩ := h.profile
  refine ⟨h.sameRoot, h.report, h.profile, c, s.checks, caps, hfiles, hbytes, ?_⟩
  rw [← hprofile]
  rfl

/-- **Every operation keeps a session connected.** -/
theorem step (h : s.Sound root) {op : Operation} (hop : op.LeavesRoom) :
    (s.step op).Sound root := by
  cases op with
  | edit change => exact ⟨h.sameRoot, h.report, h.profile, h.constraint⟩
  | withContract c => exact h.withContract c
  | reloadContract =>
    rcases step_reloadContract s with heq | ⟨c, -, heq⟩
    · rwa [heq]
    · rw [heq]
      exact h.withContract c
  | validate => exact h.validate
  | classify checks => exact ⟨h.sameRoot, h.report, ⟨s.contract, rfl⟩, h.constraint⟩
  | constrain caps => exact h.constrain hop.1 hop.2

/-- **Every run keeps a session connected.** -/
theorem run (h : s.Sound root) {ops : List Operation} (hops : ∀ op ∈ ops, op.LeavesRoom) :
    (s.run ops).Sound root := by
  induction ops generalizing s with
  | nil => exact h
  | cons op ops ih =>
    obtain ⟨hop, hops⟩ := List.forall_mem_cons.1 hops
    exact ih (h.step hop) hops

end Sound

/-- **What no operation of a run changes, the run does not change.** -/
theorem run_keeps {α : Type} {field : Session → α} {ops : List Operation}
    (h : ∀ op ∈ ops, ∀ s : Session, field (s.step op) = field s) (s : Session) :
    field (s.run ops) = field s := by
  induction ops generalizing s with
  | nil => rfl
  | cons op ops ih =>
    obtain ⟨hop, hops⟩ := List.forall_mem_cons.1 h
    exact (ih hops (s.step op)).trans (hop s)

/-- Only `constrain` changes the constraint. -/
theorem constraint_step {op : Operation} (h : ∀ caps, op ≠ .constrain caps) (s : Session) :
    (s.step op).constraint = s.constraint := by
  cases op with
  | constrain caps => exact absurd rfl (h caps)
  | reloadContract =>
    rcases step_reloadContract s with heq | ⟨c, -, heq⟩
    · rw [heq]
    · rw [heq]
      rfl
  | validate =>
    have hstep : s.step .validate = s.validate.2 := rfl
    rcases validate_cases s with ⟨r, -, heq⟩ | ⟨e, -, heq⟩
    · rw [hstep, heq]
    · rw [hstep, heq]
  | _ => rfl

/-! ### Judging a step -/

/-- The metadata of a document, with the intent and the constraint of the session. -/
def metadataIn (s : Session) (metadata : Json) : Json :=
  (metadata.withMember "classification"
    (Classification.toJson ⟨some s.constraint.intent.text⟩)).withMember "constraint"
      s.constraint.toJson

/-- The input of a document, with such metadata. -/
def inputIn (s : Session) (document : Json) : Json :=
  let input := (document.field? "input").getD (.record [])
  input.withMember "_deepCorrection"
    (s.metadataIn ((input.field? "_deepCorrection").getD (.record [])))

theorem declareIn_eq (s : Session) (document : Json) :
    s.declareIn document =
      (document.withMember "input" (s.inputIn document)).withMember "resolvedConstraint"
        s.constraint.toJson := rfl

/-- The constraint of the session is resolved in the step, whatever was resolved there
before. -/
theorem ofJson?_declareIn {document : Json} {step : Correction.Step}
    (h : Correction.Step.ofJson? (s.declareIn document) = some step) :
    step.resolvedConstraint = some s.constraint ∧
    StepInput.ofJson? (s.inputIn document) = some step.input := by
  obtain ⟨f, hf, hlookup⟩ := Json.exists_fields?_withMember Correction.Step.fieldNames
    (document.withMember "input" (s.inputIn document)) "resolvedConstraint" s.constraint.toJson
  have hresolved : f.optional "resolvedConstraint" Constraint.ofJson? =
      some (some s.constraint) := by
    rw [Json.optional_eq_map (hlookup _ (by decide)) (by simp [Constraint.toJson, Json.record]),
      Constraint.ofJson?_toJson, Option.map_some]
  have hinput : f.withDefault "input" ⟨none⟩ StepInput.ofJson? =
      StepInput.ofJson? (s.inputIn document) := by
    refine Json.withDefault_eq ((hlookup "input" (by decide)).trans ?_)
    rw [if_neg (by decide), Json.field?_withMember, if_pos rfl]
  rw [declareIn_eq, Correction.Step.ofJson?, hf] at h
  simp only [Option.bind_eq_bind, Option.bind_some, Option.bind_eq_some_iff, hresolved, hinput,
    Option.pure_def, Option.some.injEq] at h
  obtain ⟨_, -, input, hread, _, -, _, -, _, -, _, -, _, -, _, -, rfl⟩ := h
  exact ⟨rfl, hread⟩

/-- The metadata of an input are kept as a free value. -/
theorem ofJson?_withMetadata {json metadata : Json} {input : StepInput}
    (hnull : metadata ≠ .null)
    (h : StepInput.ofJson? (json.withMember "_deepCorrection" metadata) = some input) :
    ∃ depth kept, Json.free? depth metadata = some kept ∧ input.deepCorrection = some kept := by
  obtain ⟨f, hf, hlookup⟩ :=
    Json.exists_fields?_withMember ["_deepCorrection"] json "_deepCorrection" metadata
  have hfound : f.present.lookup "_deepCorrection" = some metadata :=
    (hlookup _ List.mem_cons_self).trans (if_pos rfl)
  rw [StepInput.ofJson?, hf] at h
  simp only [Option.bind_eq_bind, Option.bind_some, Option.bind_eq_some_iff,
    Json.optional_eq_map hfound hnull, Option.map_eq_some_iff, Option.pure_def,
    Option.some.injEq] at h
  obtain ⟨_, ⟨kept, hkept, rfl⟩, rfl⟩ := h
  exact ⟨_, kept, hkept, rfl⟩

/-- A classification that is kept is read as it was. -/
theorem ofJson?_classification {intent : Intent} {depth : Nat} {kept : Json}
    (h : Json.free? depth (Classification.toJson ⟨some intent.text⟩) = some kept) :
    kept ≠ .null ∧ Classification.ofJson? kept = some ⟨some intent.text⟩ := by
  have hkeys : ([("intent", Json.ofText intent.text)].map Prod.fst).Nodup := List.nodup_singleton _
  obtain ⟨members, hperm, rfl⟩ := Json.exists_perm_of_free? hkeys
    (List.forall_mem_singleton.2 (Json.canonical_ofText intent.text)) h
  obtain rfl := List.perm_singleton.1 hperm
  refine ⟨by simp [Json.record], ?_⟩
  have hfields : Json.fields? ["intent"] (.record [("intent", .ofText intent.text)]) =
      some ⟨[("intent", .ofText intent.text)], false⟩ :=
    Json.fields?_record (by simp) (List.nodup_singleton _)
  rw [Classification.ofJson?]
  simp only [hfields, Option.bind_eq_bind, Option.bind_some]
  rw [Json.optional_eq_map (List.lookup_cons_self ..) (by simp [Json.ofText]), Json.text?_ofText]
  rfl

/-- **Metadata that are kept declare the intent and the constraint of the session**, whatever
they declared before. -/
theorem ofJson?_metadataIn {metadata kept : Json} {depth : Nat} {m : Metadata}
    (hfiles : s.constraint.maxFiles.toNat < Json.integerBound)
    (hbytes : s.constraint.maxTotalDiffBytes.toNat < Json.integerBound)
    (hkept : Json.free? depth (s.metadataIn metadata) = some kept)
    (h : Metadata.ofJson? kept = some m) :
    m.classification = some ⟨some s.constraint.intent.text⟩ ∧
    m.constraint = some (.ofConstraint s.constraint) := by
  obtain ⟨members, rfl, hnodup, hvalues⟩ := Json.exists_free?_withMember hkept
  obtain ⟨f, hf, hlookup⟩ := Json.exists_fields?_record
    ["phase", "attempt", "failedStepId", "classification", "constraint"] hnodup
  -- both members were set, the constraint after the classification
  obtain ⟨_, classification, hclassification, hfound⟩ := hvalues "classification" _
    ((Json.field?_withMember ..).trans ((if_neg (by decide)).trans
      ((Json.field?_withMember ..).trans (if_pos rfl))))
  obtain ⟨depth, constraint, hconstraint, hfound'⟩ := hvalues "constraint" _
    ((Json.field?_withMember ..).trans (if_pos rfl))
  obtain ⟨hnull, hread⟩ := ofJson?_classification hclassification
  obtain ⟨hnull', hread'⟩ := ofJson?_of_declaredBy
    ⟨_, .inl rfl, .inr ⟨depth, hconstraint⟩⟩ hfiles hbytes
  rw [Metadata.ofJson?, hf] at h
  simp only [Option.bind_eq_bind, Option.bind_some, Option.bind_eq_some_iff,
    Json.optional_eq_map ((hlookup _ (by simp)).trans hfound) hnull, hread,
    Json.optional_eq_map ((hlookup _ (by simp)).trans hfound') hnull', hread',
    Option.map_some, Option.pure_def, Option.some.injEq] at h
  obtain ⟨_, -, _, -, _, -, rfl⟩ := h
  exact ⟨rfl, rfl⟩

/-- **Until the next `constrain` every step is judged alike**, whatever is edited, validated
and classified in between. -/
theorem verify_run {ops : List Operation} (h : ∀ op ∈ ops, ∀ caps, op ≠ .constrain caps)
    (s : Session) (document : Json) : (s.run ops).verify document = s.verify document := by
  have hconstraint : (s.run ops).constraint = s.constraint :=
    run_keeps (fun op hop => constraint_step (h op hop)) s
  unfold verify declareIn
  rw [hconstraint]

/-- **A session judges a step by its own constraint.** The step has it resolved, and declares
it together with its intent if it has metadata at all. -/
theorem exists_of_verify {document : Json} {v : Verdict}
    (hfiles : s.constraint.maxFiles.toNat < Json.integerBound)
    (hbytes : s.constraint.maxTotalDiffBytes.toNat < Json.integerBound)
    (h : s.verify document = .ok v) :
    ∃ step : Correction.Step, v = step.evaluate ∧ step.resolvedConstraint = some s.constraint ∧
      ∀ m, step.input.metadata? = some m →
        m.classification = some ⟨some s.constraint.intent.text⟩ ∧
        m.constraint = some (.ofConstraint s.constraint) := by
  unfold verify at h
  split at h
  · rename_i step hstep
    obtain ⟨hresolved, hinput⟩ := ofJson?_declareIn hstep
    obtain ⟨depth, kept, hkept, hfound⟩ :=
      ofJson?_withMetadata (Json.withMember_ne_null _ _ _) hinput
    refine ⟨step, (Except.ok.inj h).symm, hresolved, fun m hm => ?_⟩
    obtain ⟨members, hmembers, hread⟩ := metadata?_eq_some_iff.1 hm
    obtain rfl := Option.some.inj (hfound.symm.trans hmembers)
    exact ofJson?_metadataIn hfiles hbytes hkept hread
  · cases h

/-- Diffs that keep to the declaration of a derived constraint respect it. -/
theorem keptBy_of_staged {intent : Intent} {caps : Caps} {diffs : List StagedDiff}
    (hfiles : 1 ≤ caps.maxFilesPerStep) (hbytes : 1 ≤ caps.maxTotalDiffBytes)
    (h : Staged diffs (.ofConstraint (.derive intent caps))) :
    (Constraint.derive intent caps).KeptBy diffs := by
  obtain ⟨hfiles, hbytes⟩ := derive_lt_integerBound intent hfiles hbytes
  refine ⟨fun diff hdiff => ?_, ?_, ?_⟩
  · obtain ⟨p, hp, hwithin⟩ := h.paths diff hdiff
    obtain ⟨-, hnormal, -⟩ := (derive_prefixes intent caps).2 p hp
    exact ⟨p, hp, .inr (by rwa [hnormal] at hwithin)⟩
  · have hcard := h.files _ rfl
    rw [(ofInt_toNat hfiles).2] at hcard
    exact Int.ofNat_le.1 hcard
  · have hsum := h.bytes _ rfl
    rw [(ofInt_toNat hbytes).2] at hsum
    exact Int.ofNat_le.1 hsum

/-- **What a session accepts keeps to its constraint.** -/
theorem Sound.keptBy_of_verify (hs : s.Sound root) {document : Json} {v : Verdict}
    (h : s.verify document = .ok v) (hok : v.ok = true) :
    ∃ step : Correction.Step, v = step.evaluate ∧ s.constraint.KeptBy step.stagedDiffs := by
  obtain ⟨c, checks, caps, hfiles, hbytes, hconstraint⟩ := hs.constraint
  obtain ⟨hfiles', hbytes'⟩ :=
    derive_lt_integerBound (.infer (.ofChecks c checks) checks) hfiles hbytes
  rw [← hconstraint] at hfiles' hbytes'
  obtain ⟨step, rfl, -, hdeclared⟩ := exists_of_verify hfiles' hbytes' h
  obtain ⟨m, d, hcomplies⟩ := Correction.Step.ok_iff_complies.1 hok
  obtain ⟨-, hd⟩ := hdeclared m (metadata?_eq_some_iff.2 hcomplies.typed)
  obtain rfl := Option.some.inj (hcomplies.declared.symm.trans hd)
  refine ⟨step, rfl, ?_⟩
  rw [hconstraint] at hcomplies ⊢
  exact keptBy_of_staged hfiles hbytes hcomplies.staged

/-- **What is accepted at the end of a run keeps to a constraint that was derived in it**, for
the intent that some checks showed, and under caps that leave room. -/
theorem keptBy_of_verify_run (files : Files) (root : Path) (c : Contract) {ops : List Operation}
    (hops : ∀ op ∈ ops, op.LeavesRoom) {document : Json} {v : Verdict}
    (h : ((start files root c).run ops).verify document = .ok v) (hok : v.ok = true) :
    ∃ constraint step, Derived constraint ∧ v = Correction.Step.evaluate step ∧
      constraint.KeptBy step.stagedDiffs := by
  have hsound := (sound_start files root c).run hops
  obtain ⟨step, hv, hkept⟩ := hsound.keptBy_of_verify h hok
  exact ⟨_, step, hsound.constraint, hv, hkept⟩

/-! ### From the report to the profile -/

/-- **A report that is classified alone shows in the profile**: nothing when it is ok, and a
reason to correct the architecture when it is not. -/
theorem profile_of_validate {r : Report} (h : s.validate.1 = .ok r) :
    (r.ok = true → (s.run [.validate, .classify []]).profile = .zero) ∧
    (r.ok = false → (s.run [.validate, .classify []]).profile.reason = some .architecture ∧
      (s.run [.validate, .classify []]).profile.shouldAutoCorrect = true) := by
  have hprofile : (s.run [.validate, .classify []]).profile =
      .ofChecks s.contract [r.toCheck] := by
    rcases validate_cases s with ⟨r', -, heq⟩ | ⟨e, -, heq⟩
    · obtain rfl : r' = r := by simpa [heq] using h
      change (s.validate.2.classify []).profile = _
      rw [heq]
      rfl
    · simp [heq] at h
  rw [hprofile]
  refine ⟨Diagnosis.ofChecks_toCheck_ok, fun hok => ?_⟩
  rw [Diagnosis.ofChecks_toCheck hok]
  exact ⟨rfl, rfl⟩

end Session
end Strata
