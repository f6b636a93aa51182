/-
# Documents are read back

Specification, section 3: the types that are written and read.

Whatever is written as a document is read back from its compact text, and so two values with the
same text are the same (`documents_read_back`):

| value | members that may be left out |
| --- | --- |
| violation | the target |
| check | the message, the details; of the details everything |
| profile | the modules of the architecture |
| constraint | none |
| contract | none |

For each of them the document is read back as it is (`ofJson?_toJson`) and well spelled
(`wellSpelled_toJson`), so that the text gives the document back (`Json.parse?_compact`).
-/

import Strata.Proofs.Json.Compact
import Strata.Proofs.Json.Readable
import Strata.Proofs.Correction.Derivation
import Strata.Report
import Strata.Correction.Budget
import Strata.Contract.Document

namespace Strata

open Json

/-! ### Records with members that may be left out -/

/-- A record is well spelled when all the members are that are not left out. -/
theorem Json.wellSpelled_present {entries : List (String × Option Json)}
    (h : ∀ e ∈ entries, ∀ json ∈ e.2, json.WellSpelled) :
    (record (present entries)).WellSpelled := by
  refine wellSpelled_record fun m hm => ?_
  obtain ⟨e, he, heq⟩ := List.mem_filterMap.1 hm
  obtain ⟨json, hjson, rfl⟩ := Option.map_eq_some_iff.1 heq
  exact h e he json hjson

/-- An optional member is well spelled when its value is written so. -/
theorem Json.wellSpelled_of_mem_map {α : Type} {write : α → Json} {o : Option α}
    (h : ∀ a ∈ o, (write a).WellSpelled) : ∀ json ∈ o.map write, json.WellSpelled := by
  rintro _ hmem
  obtain ⟨a, ha, rfl⟩ := Option.map_eq_some_iff.1 hmem
  exact h a ha

/-- A member that is always there counts as an optional one that is present. -/
theorem Json.wellSpelled_of_mem_some {json : Json} (h : json.WellSpelled) :
    ∀ written ∈ some json, written.WellSpelled := by
  rintro _ ⟨⟩
  exact h

/-! ### Names -/

/-- A name is written as a string, and read back from it. -/
theorem Json.name?_ofText (s : String) : name? (ofText s) = some s := unescape?_escape s

/-- The names of the severities are told apart when they are read. -/
theorem Severity.ofJson?_text (s : Severity) : ofJson? (ofText s.text) = some s := by
  rw [ofJson?, name?_ofText]
  cases s <;> rfl

/-- The names of the outcomes are told apart when they are read. -/
theorem CheckStatus.ofJson?_text (s : CheckStatus) : ofJson? (ofText s.text) = some s := by
  rw [ofJson?, name?_ofText]
  cases s <;> rfl

/-- The names of the reasons are told apart when they are read. -/
theorem FailureReason.ofJson?_text (r : FailureReason) : ofJson? (ofText r.text) = some r := by
  rw [ofJson?, name?_ofText]
  cases r <;> rfl

/-- The names of the intents are told apart when they are read. -/
theorem Correction.Intent.ofJson?_text (i : Intent) :
    Intent.ofJson? (Json.ofText i.text) = some i := by
  rw [Intent.ofJson?, name?_ofText, Option.map_some, Intent.named_text]

/-! ### Violations -/

namespace Violation

/-- The members of the document of a violation. -/
def entries (v : Violation) : List (String × Option Json) :=
  [("ruleId", some (.ofText v.ruleId)), ("severity", some (.ofText v.severity.text)),
   ("file", some (.ofText v.file)), ("target", v.target.map .ofText),
   ("message", some (.ofText v.message))]

/-- The document is the record of the entries that are present. -/
theorem toJson_eq (v : Violation) : v.toJson = record (present v.entries) := by
  obtain ⟨ruleId, severity, file, target, message⟩ := v
  cases target <;> rfl

/-- No key of the document comes twice. -/
theorem nodup_entries (v : Violation) : (v.entries.map Prod.fst).Nodup := by
  simp [entries]

/-- **A violation is read from its document.** -/
theorem ofJson?_toJson (v : Violation) : ofJson? v.toJson = some v := by
  have hkeys := v.nodup_entries
  have hfields : fields? ["ruleId", "severity", "file", "target", "message"]
      (record (present v.entries)) = some ⟨present v.entries, false⟩ := fields?_present hkeys
  have htext {name s : String} (h : v.entries.lookup name = some (some (.ofText s))) :
      Fields.required ⟨present v.entries, false⟩ name text? = some s :=
    (required_present hkeys h).trans (text?_ofText s)
  have hrule : Fields.required ⟨present v.entries, false⟩ "ruleId" text? = some v.ruleId :=
    htext rfl
  have hseverity : Fields.required ⟨present v.entries, false⟩ "severity" Severity.ofJson? =
      some v.severity := (required_present hkeys rfl).trans (Severity.ofJson?_text _)
  have hfile : Fields.required ⟨present v.entries, false⟩ "file" text? = some v.file := htext rfl
  have htarget : Fields.optional ⟨present v.entries, false⟩ "target" text? = some v.target :=
    optional_present hkeys rfl text?_ofText (by simp [ofText])
  have hmessage : Fields.required ⟨present v.entries, false⟩ "message" text? = some v.message :=
    htext rfl
  rw [toJson_eq, ofJson?, hfields]
  simp only [Option.bind_eq_bind, Option.bind_some, hrule, hseverity, hfile, htarget, hmessage]
  rfl

/-- The document is a text that the lexer reads. -/
theorem wellSpelled_toJson (v : Violation) : v.toJson.WellSpelled := by
  rw [toJson_eq]
  refine wellSpelled_present ?_
  simp only [entries, List.forall_mem_cons, List.not_mem_nil, false_imp_iff, implies_true, and_true]
  exact ⟨wellSpelled_of_mem_some (wellSpelled_ofText _),
    wellSpelled_of_mem_some (wellSpelled_ofText _), wellSpelled_of_mem_some (wellSpelled_ofText _),
    wellSpelled_of_mem_map fun s _ => wellSpelled_ofText s,
    wellSpelled_of_mem_some (wellSpelled_ofText _)⟩

end Violation

/-! ### Checks -/

namespace CheckDetails

/-- The members of the document of details. -/
def entries (d : CheckDetails) : List (String × Option Json) :=
  [("violations",
      if d.violations.isEmpty then none else some (.array (d.violations.map Violation.toJson))),
   ("exitCode", d.exitCode.map fun n => .ofInt n.toInt), ("stderr", d.stderr.map .ofText),
   ("logs", d.logs.map .ofText), ("blockingCount", d.blockingCount.map fun n => .ofNat n.toNat)]

/-- The document is a record of entries of which some may be missing. -/
theorem toJson_eq (d : CheckDetails) : d.toJson = record (present d.entries) := by
  obtain ⟨violations, exitCode, stderr, logs, blockingCount⟩ := d
  cases violations <;> cases exitCode <;> cases stderr <;> cases logs <;> cases blockingCount <;>
    rfl

/-- No two members of the details of a check have one name. -/
theorem nodup_entries (d : CheckDetails) : (d.entries.map Prod.fst).Nodup := by
  simp [entries]

/-- **Details are read from their document.** -/
theorem ofJson?_toJson (d : CheckDetails) : ofJson? d.toJson = some d := by
  have hkeys := d.nodup_entries
  have hfields : fields? ["violations", "exitCode", "stderr", "logs", "blockingCount"]
      (record (present d.entries)) = some ⟨present d.entries, false⟩ := fields?_present hkeys
  have hviolations : Fields.withDefault ⟨present d.entries, false⟩ "violations" []
      (list? Violation.ofJson?) = some d.violations := by
    refine withDefault_present hkeys rfl (fun hnone => ?_) fun json hjson => ?_
    · simpa using hnone
    · split at hjson
      · cases hjson
      · rw [← Option.some.inj hjson]
        exact list?_array Violation.ofJson?_toJson d.violations
  have hexit : Fields.optional ⟨present d.entries, false⟩ "exitCode" integer? = some d.exitCode :=
    optional_present hkeys rfl integer?_ofInt (by simp [ofInt])
  have hstderr : Fields.optional ⟨present d.entries, false⟩ "stderr" text? = some d.stderr :=
    optional_present hkeys rfl text?_ofText (by simp [ofText])
  have hlogs : Fields.optional ⟨present d.entries, false⟩ "logs" text? = some d.logs :=
    optional_present hkeys rfl text?_ofText (by simp [ofText])
  have hcount : Fields.optional ⟨present d.entries, false⟩ "blockingCount" natural? =
      some d.blockingCount := optional_present hkeys rfl natural?_ofNat (by simp [ofNat])
  rw [toJson_eq, ofJson?, hfields]
  simp only [Option.bind_eq_bind, Option.bind_some, hviolations, hexit, hstderr, hlogs, hcount]
  rfl

/-- The details of a check are well spelled. -/
theorem wellSpelled_toJson (d : CheckDetails) : d.toJson.WellSpelled := by
  rw [toJson_eq]
  refine wellSpelled_present ?_
  simp only [entries, List.forall_mem_cons, List.not_mem_nil, false_imp_iff, implies_true, and_true]
  refine ⟨fun json hjson => ?_, wellSpelled_of_mem_map fun n _ => wellSpelled_ofInt _,
    wellSpelled_of_mem_map fun s _ => wellSpelled_ofText s,
    wellSpelled_of_mem_map fun s _ => wellSpelled_ofText s,
    wellSpelled_of_mem_map fun n _ => wellSpelled_ofNat _⟩
  split at hjson
  · cases hjson
  · rw [← Option.some.inj hjson]
    exact wellSpelled_array (List.forall_mem_map.2 fun v _ => v.wellSpelled_toJson)

end CheckDetails

namespace Check

/-- The members of the document of a check. -/
def entries (c : Check) : List (String × Option Json) :=
  [("id", some (.ofText c.id)), ("status", some (.ofText c.status.text)),
   ("message", c.message.map .ofText), ("details", c.details.map CheckDetails.toJson)]

/-- A check is written as a record of the members that are there. -/
theorem toJson_eq (c : Check) : c.toJson = record (present c.entries) := by
  obtain ⟨id, status, message, details⟩ := c
  cases message <;> cases details <;> rfl

/-- No two members of a check have one name. -/
theorem nodup_entries (c : Check) : (c.entries.map Prod.fst).Nodup := by
  simp [entries]

/-- **A check is read from its document.** -/
theorem ofJson?_toJson (c : Check) : ofJson? c.toJson = some c := by
  have hkeys := c.nodup_entries
  have hfields : fields? ["id", "status", "message", "details"] (record (present c.entries)) =
      some ⟨present c.entries, false⟩ := fields?_present hkeys
  have hid : Fields.required ⟨present c.entries, false⟩ "id" text? = some c.id :=
    (required_present hkeys rfl).trans (text?_ofText _)
  have hstatus : Fields.required ⟨present c.entries, false⟩ "status" CheckStatus.ofJson? =
      some c.status := (required_present hkeys rfl).trans (CheckStatus.ofJson?_text _)
  have hmessage : Fields.optional ⟨present c.entries, false⟩ "message" text? = some c.message :=
    optional_present hkeys rfl text?_ofText (by simp [ofText])
  have hdetails : Fields.optional ⟨present c.entries, false⟩ "details" CheckDetails.ofJson? =
      some c.details :=
    optional_present hkeys rfl CheckDetails.ofJson?_toJson (by simp [CheckDetails.toJson, record])
  rw [toJson_eq, ofJson?, hfields]
  simp only [Option.bind_eq_bind, Option.bind_some, hid, hstatus, hmessage, hdetails]
  rfl

/-- The document of a check is well spelled. -/
theorem wellSpelled_toJson (c : Check) : c.toJson.WellSpelled := by
  rw [toJson_eq]
  refine wellSpelled_present ?_
  simp only [entries, List.forall_mem_cons, List.not_mem_nil, false_imp_iff, implies_true, and_true]
  exact ⟨wellSpelled_of_mem_some (wellSpelled_ofText _),
    wellSpelled_of_mem_some (wellSpelled_ofText _),
    wellSpelled_of_mem_map fun s _ => wellSpelled_ofText s,
    wellSpelled_of_mem_map fun d _ => d.wellSpelled_toJson⟩

end Check

/-! ### Clusters -/

/-- **An import across layers is read from its document.** -/
theorem LayerEdge.ofJson?_toJson (e : LayerEdge) : ofJson? e.toJson = some e := by
  have hfields : fields? ["file", "sourceLayer", "targetLayer", "target"] e.toJson = some _ :=
    fields?_record (by simp) (by simp)
  rw [ofJson?, hfields]
  simp [Fields.required, List.lookup_cons]

/-- Four texts under four keys. -/
theorem LayerEdge.wellSpelled_toJson (e : LayerEdge) : e.toJson.WellSpelled := by
  refine wellSpelled_record ?_
  simp only [List.forall_mem_cons, List.not_mem_nil, false_imp_iff, implies_true, and_true]
  exact ⟨wellSpelled_ofText _, wellSpelled_ofText _, wellSpelled_ofText _, wellSpelled_ofText _⟩

namespace Cluster

/-- The members of the document of a cluster besides its kind. -/
def evidence : Cluster → List (String × Json)
  | architectureContract modules missing files =>
    [("modules", .ofTexts modules), ("missingLayers", .ofTexts missing),
     ("unknownLayerFiles", .ofTexts files)]
  | layerBoundaryViolation files edges =>
    [("files", .ofTexts files), ("edges", .array (edges.map LayerEdge.toJson))]
  | importResolutionError files imports =>
    [("files", .ofTexts files), ("imports", .ofTexts imports)]
  | dependencyCycle cycles => [("cycles", .ofTexts cycles)]
  | runtimeMiddlewareApi message => [("message", .ofText message)]
  | testContractGap modules => [("modules", .ofTexts modules)]
  | typecheckFailure | buildFailure | testFailure => []

/-- A cluster is written as a record that begins with its kind. -/
theorem toJson_eq (c : Cluster) : c.toJson = record (("type", .ofText c.kind) :: c.evidence) := by
  cases c <;> rfl

/-- A record with a kind is read by that kind. -/
theorem ofJson?_tagged {kind : String} {members : List (String × Json)}
    (hkeepable : Keepable (maxDepth - depthAround) (record (("type", .ofText kind) :: members)))
    (hkeys : ∀ m ∈ members, m.1 ≠ "type") :
    ofJson? (record (("type", .ofText kind) :: members)) =
      ofEvidence? kind (record (("type", .ofText kind) :: members)) := by
  have hmembers := members?_record (("type", .ofText kind) :: members)
  have hnone : members.filter (fun m => m.1 = "type") = [] := by
    simpa [List.filter_eq_nil_iff] using hkeys
  rw [record] at hmembers hkeepable ⊢
  rw [ofJson?, if_neg (by simpa [Keepable, Option.isSome_iff_ne_none] using hkeepable)]
  simp only [hmembers, Option.bind_eq_bind, Option.bind_some, List.filter_cons]
  simp [hnone]

/-- What stands in the document of a cluster may be kept as a free value. -/
theorem keepable_evidence (c : Cluster) (depth : Nat) :
    ∀ m ∈ c.evidence, Keepable (depth + 2) m.2 := by
  have htexts (xs : List String) : Keepable (depth + 2) (ofTexts xs) :=
    keepable_array (List.forall_mem_map.2 fun x _ => keepable_ofText _ x)
  have hedges (edges : List LayerEdge) :
      Keepable (depth + 2) (array (edges.map LayerEdge.toJson)) := by
    refine keepable_array (List.forall_mem_map.2 fun e _ => keepable_record ?_)
    simp [keepable_ofText]
  cases c <;> simp [evidence, htexts, hedges, keepable_ofText]

/-- **A cluster is read from its document.** -/
theorem ofJson?_toJson (c : Cluster) : ofJson? c.toJson = some c := by
  have hkeepable : Keepable (maxDepth - depthAround)
      (record (("type", .ofText c.kind) :: c.evidence)) :=
    keepable_record (List.forall_mem_cons.2 ⟨keepable_ofText _ _, c.keepable_evidence 122⟩)
  have hkeys : ∀ m ∈ c.evidence, m.1 ≠ "type" := by
    cases c <;> simp [evidence]
  -- the kind is no field of the evidence, so it is passed over
  have hfields {names : List String} (htype : "type" ∉ names)
      (hnames : ∀ m ∈ c.evidence, m.1 ∈ names) (hnodup : (c.evidence.map Prod.fst).Nodup) :
      fields? names (record (("type", .ofText c.kind) :: c.evidence)) =
        some ⟨c.evidence, false⟩ :=
    (fields?_record_cons htype _ _).trans (fields?_record hnames hnodup)
  rw [toJson_eq, ofJson?_tagged hkeepable hkeys]
  cases c with
  | architectureContract modules missing files =>
    have hread := @hfields ["modules", "missingLayers", "unknownLayerFiles"] (by simp)
      (by simp [evidence]) (by simp [evidence])
    rw [kind] at hread ⊢
    rw [ofEvidence?, hread]
    simp [evidence, Fields.required, List.lookup_cons]
  | layerBoundaryViolation files edges =>
    have hread := @hfields ["files", "edges"] (by simp) (by simp [evidence]) (by simp [evidence])
    have hedges := list?_array LayerEdge.ofJson?_toJson edges
    rw [kind] at hread ⊢
    rw [ofEvidence?, hread]
    simp [evidence, Fields.required, List.lookup_cons, hedges]
  | importResolutionError files imports =>
    have hread := @hfields ["files", "imports"] (by simp) (by simp [evidence]) (by simp [evidence])
    rw [kind] at hread ⊢
    rw [ofEvidence?, hread]
    simp [evidence, Fields.required, List.lookup_cons]
  | dependencyCycle cycles =>
    have hread := @hfields ["cycles"] (by simp) (by simp [evidence]) (by simp [evidence])
    rw [kind] at hread ⊢
    rw [ofEvidence?, hread]
    simp [evidence, Fields.required]
  | runtimeMiddlewareApi message =>
    have hread := @hfields ["message"] (by simp) (by simp [evidence]) (by simp [evidence])
    rw [kind] at hread ⊢
    rw [ofEvidence?, hread]
    simp [evidence, Fields.required]
  | testContractGap modules =>
    have hread := @hfields ["modules"] (by simp) (by simp [evidence]) (by simp [evidence])
    rw [kind] at hread ⊢
    rw [ofEvidence?, hread]
    simp [evidence, Fields.required]
  | typecheckFailure | buildFailure | testFailure =>
    rw [kind, ofEvidence?]
    rfl

/-- The document of a cluster is well spelled. -/
theorem wellSpelled_toJson (c : Cluster) : c.toJson.WellSpelled := by
  have hevidence : ∀ m ∈ c.evidence, m.2.WellSpelled := by
    cases c <;> simp only [evidence, List.forall_mem_cons, List.not_mem_nil, false_imp_iff,
      implies_true, and_true]
    · exact ⟨wellSpelled_ofTexts _, wellSpelled_ofTexts _, wellSpelled_ofTexts _⟩
    · exact ⟨wellSpelled_ofTexts _,
        wellSpelled_array (List.forall_mem_map.2 fun e _ => e.wellSpelled_toJson)⟩
    · exact ⟨wellSpelled_ofTexts _, wellSpelled_ofTexts _⟩
    · exact wellSpelled_ofTexts _
    · exact wellSpelled_ofText _
    · exact wellSpelled_ofTexts _
  rw [toJson_eq]
  exact wellSpelled_record (List.forall_mem_cons.2 ⟨wellSpelled_ofText _, hevidence⟩)

end Cluster

/-! ### Profiles -/

namespace Profile

/-- The members of the document of a profile. -/
def entries (p : Profile) : List (String × Option Json) :=
  [("shouldAutoCorrect", some (.bool p.shouldAutoCorrect)),
   ("clusters", some (.array (p.clusters.map Cluster.toJson))),
   ("architectureCollapse", some (.bool p.architectureCollapse)),
   ("reason", some (.ofOption (fun r => .ofText r.text) p.reason)),
   ("blockingCount", some (.ofNat p.blockingCount.toNat)),
   ("architectureModules", p.architectureModules.map .ofTexts)]

/-- A profile is written as a record of the members that are there. -/
theorem toJson_eq (p : Profile) : p.toJson = record (present p.entries) := by
  obtain ⟨shouldAutoCorrect, clusters, collapse, reason, blockingCount, modules⟩ := p
  cases modules <;> rfl

/-- No two members of a profile have one name. -/
theorem nodup_entries (p : Profile) : (p.entries.map Prod.fst).Nodup := by
  simp [entries]

/-- **A profile is read from its document.** -/
theorem ofJson?_toJson (p : Profile) : ofJson? p.toJson = some p := by
  have hkeys := p.nodup_entries
  have hfields : fields? ["shouldAutoCorrect", "clusters", "architectureCollapse", "reason",
      "blockingCount", "architectureModules"] (record (present p.entries)) =
      some ⟨present p.entries, false⟩ := fields?_present hkeys
  have hcorrect : Fields.required ⟨present p.entries, false⟩ "shouldAutoCorrect" truth? =
      some p.shouldAutoCorrect := (required_present hkeys rfl).trans rfl
  have hclusters : Fields.required ⟨present p.entries, false⟩ "clusters"
      (list? Cluster.ofJson?) = some p.clusters :=
    (required_present hkeys rfl).trans (list?_array Cluster.ofJson?_toJson p.clusters)
  have hcollapse : Fields.required ⟨present p.entries, false⟩ "architectureCollapse" truth? =
      some p.architectureCollapse := (required_present hkeys rfl).trans rfl
  have hreason : Fields.nullable ⟨present p.entries, false⟩ "reason" FailureReason.ofJson? =
      some p.reason := by
    have hlookup : (present p.entries).lookup "reason" =
        some (.ofOption (fun r => .ofText r.text) p.reason) := by
      rw [lookup_present hkeys]
      rfl
    rw [Fields.nullable, if_neg (by simp)]
    -- no reason is written as `null`, which is read as an absent field
    cases hr : p.reason with
    | none =>
      rw [hr] at hlookup
      rw [Fields.optional, hlookup]
      rfl
    | some r =>
      rw [hr] at hlookup
      rw [optional_eq_map hlookup (by simp [ofOption, ofText])]
      exact congrArg (Option.map some) (FailureReason.ofJson?_text r)
  have hcount : Fields.required ⟨present p.entries, false⟩ "blockingCount" natural? =
      some p.blockingCount := (required_present hkeys rfl).trans (natural?_ofNat _)
  have hmodules : Fields.optional ⟨present p.entries, false⟩ "architectureModules" texts? =
      some p.architectureModules :=
    optional_present hkeys rfl texts?_ofTexts (by simp [ofTexts])
  rw [toJson_eq, ofJson?, hfields]
  simp only [Option.bind_eq_bind, Option.bind_some, hcorrect, hclusters, hcollapse, hreason,
    hcount, hmodules]
  rfl

/-- The document of a profile is well spelled. -/
theorem wellSpelled_toJson (p : Profile) : p.toJson.WellSpelled := by
  have hreason :
      (Json.ofOption (fun r : FailureReason => .ofText r.text) p.reason).WellSpelled := by
    cases p.reason with
    | none => exact wellSpelled_null
    | some r => exact wellSpelled_ofText _
  rw [toJson_eq]
  refine wellSpelled_present ?_
  simp only [entries, List.forall_mem_cons, List.not_mem_nil, false_imp_iff, implies_true, and_true]
  exact ⟨wellSpelled_of_mem_some (wellSpelled_bool _),
    wellSpelled_of_mem_some
      (wellSpelled_array (List.forall_mem_map.2 fun c _ => c.wellSpelled_toJson)),
    wellSpelled_of_mem_some (wellSpelled_bool _), wellSpelled_of_mem_some hreason,
    wellSpelled_of_mem_some (wellSpelled_ofNat _),
    wellSpelled_of_mem_map fun modules _ => wellSpelled_ofTexts modules⟩

end Profile

/-! ### Constraints -/

namespace Correction.Constraint

/-- **A constraint is read from its document.** -/
theorem ofJson?_toJson (c : Constraint) : ofJson? c.toJson = some c := by
  have hfields : fields? ["intent", "maxFiles", "maxTotalDiffBytes", "allowedPathPrefixes",
      "guidance"] c.toJson = some ⟨c.members, false⟩ :=
    fields?_record (by simp) (by simp)
  rw [ofJson?, hfields]
  simp [members, Fields.required, Fields.withDefault, List.lookup_cons, Intent.ofJson?_text]

/-- The document of a constraint is well spelled. -/
theorem wellSpelled_toJson (c : Constraint) : c.toJson.WellSpelled := by
  refine wellSpelled_record ?_
  simp only [List.forall_mem_cons, List.not_mem_nil, false_imp_iff, implies_true, and_true]
  exact ⟨wellSpelled_ofText _, wellSpelled_ofNat _, wellSpelled_ofNat _, wellSpelled_ofTexts _,
    wellSpelled_ofTexts _⟩

end Correction.Constraint

/-! ### Contracts -/

namespace Contract

/-- A matrix is a map, so its rows come back in the order of their keys. -/
theorem rows_ofList (rows : List (String × List String)) :
    (LayerMatrix.ofList rows).rows = sortMembers rows := by
  have hfrom : ∀ m : LayerMatrix,
      (rows.foldl (fun m row => m.insert row.1 row.2) m).rows =
        rows.foldl (fun sorted row => insertMember row.1 row.2 sorted) m.rows := by
    induction rows with
    | nil => intro m; rfl
    | cons row rows ih => intro m; exact ih (m.insert row.1 row.2)
  exact hfrom .empty

/-- A matrix is the matrix of its rows. -/
theorem ofList_rows (m : LayerMatrix) : LayerMatrix.ofList m.rows = m := by
  have hrows : (LayerMatrix.ofList m.rows).rows = m.rows :=
    (rows_ofList m.rows).trans (sortMembers_eq_self m.sorted)
  obtain ⟨rows, sorted⟩ := m
  generalize LayerMatrix.ofList rows = read at hrows
  obtain ⟨read, sortedRead⟩ := read
  obtain rfl := hrows
  rfl

/-- **A matrix is read from its document**: its rows are in order already. -/
theorem matrixOfJson?_matrixToJson (m : LayerMatrix) : matrixOfJson? (matrixToJson m) = some m := by
  have hrows : ((m.rows.map fun row => (row.1, ofTexts row.2)).mapM fun row =>
      (texts? row.2).map (row.1, ·)) = some m.rows := by
    refine mapM_map_eq_some (fun row => ?_) m.rows
    rw [texts?_ofTexts, Option.map_some]
  have hmembers := members?_record (m.rows.map fun row => (row.1, ofTexts row.2))
  have htable : table? texts? (matrixToJson m) = some m.rows := by
    rw [table?, matrixToJson, hmembers]
    dsimp only
    rw [hrows, Option.map_some, sortMembers_eq_self m.sorted]
  rw [matrixOfJson?, htable, Option.map_some, ofList_rows]

/-- **A contract is read from its document.** -/
theorem ofJson?_toJson (c : Contract) : ofJson? c.toJson = some c := by
  have hfields : fields? fieldNames c.toJson = some _ :=
    fields?_record (by simp [fieldNames]) (by simp)
  rw [ofJson?, hfields]
  simp [Fields.withDefault, List.lookup_cons, matrixOfJson?_matrixToJson]

/-- The document of a contract is well spelled. -/
theorem wellSpelled_toJson (c : Contract) : c.toJson.WellSpelled := by
  have hmatrix : (matrixToJson c.layerMatrix).WellSpelled :=
    wellSpelled_record (List.forall_mem_map.2 fun row _ => wellSpelled_ofTexts row.2)
  refine wellSpelled_record ?_
  simp only [List.forall_mem_cons, List.not_mem_nil, false_imp_iff, implies_true, and_true]
  exact ⟨wellSpelled_ofText _, wellSpelled_ofText _, wellSpelled_ofText _, wellSpelled_ofTexts _,
    wellSpelled_ofTexts _, hmatrix, wellSpelled_ofTexts _, wellSpelled_ofTexts _,
    wellSpelled_ofTexts _, wellSpelled_ofTexts _, wellSpelled_ofTexts _⟩

end Contract

/-! ### Texts -/

section

variable {α : Type} {write : α → Json} {read : Json → Option α}

/-- What is read from its document is read from the compact text of it. -/
theorem Json.parse?_compact_bind (hspelled : ∀ a, (write a).WellSpelled)
    (hread : ∀ a, read (write a) = some a) (a : α) :
    (parse? (write a).compact).bind read = some a := by
  rw [parse?_compact (hspelled a), Option.bind_some, hread]

/-- Values that are read back from their texts have different texts. -/
theorem Json.injective_compact (h : ∀ a, (parse? (write a).compact).bind read = some a) :
    Function.Injective fun a => (write a).compact := by
  intro a b hab
  have hab : (write a).compact = (write b).compact := hab
  exact Option.some.inj ((h a).symm.trans (hab ▸ h b))

end

/-- **Every document is read back**: each violation, check, profile, constraint and contract is
read from the compact text that it is written as. So different ones have different texts, and
the digest of a report is never taken of the same text for two lists of violations. Source:
specification, section 3, and section 4.4 for the fingerprint. -/
theorem documents_read_back :
    (∀ v : Violation, (parse? v.toJson.compact).bind Violation.ofJson? = some v) ∧
    (∀ c : Check, (parse? c.toJson.compact).bind Check.ofJson? = some c) ∧
    (∀ p : Profile, (parse? p.toJson.compact).bind Profile.ofJson? = some p) ∧
    (∀ c : Correction.Constraint,
      (parse? c.toJson.compact).bind Correction.Constraint.ofJson? = some c) ∧
    (∀ c : Contract, Contract.ofJsonText? c.toJson.compact = some c) ∧
    (Function.Injective fun v : Violation => v.toJson.compact) ∧
    (Function.Injective fun c : Check => c.toJson.compact) ∧
    (Function.Injective fun p : Profile => p.toJson.compact) ∧
    (Function.Injective fun c : Correction.Constraint => c.toJson.compact) ∧
    (Function.Injective fun c : Contract => c.toJson.compact) ∧
    Function.Injective Report.fingerprintText := by
  have hviolation := parse?_compact_bind Violation.wellSpelled_toJson Violation.ofJson?_toJson
  have hcheck := parse?_compact_bind Check.wellSpelled_toJson Check.ofJson?_toJson
  have hprofile := parse?_compact_bind Profile.wellSpelled_toJson Profile.ofJson?_toJson
  have hconstraint := parse?_compact_bind Correction.Constraint.wellSpelled_toJson
    Correction.Constraint.ofJson?_toJson
  have hcontract := parse?_compact_bind Contract.wellSpelled_toJson Contract.ofJson?_toJson
  have hlist := parse?_compact_bind
    (fun vs => wellSpelled_array (List.forall_mem_map.2 fun v _ => Violation.wellSpelled_toJson v))
    (list?_array Violation.ofJson?_toJson)
  exact ⟨hviolation, hcheck, hprofile, hconstraint, hcontract, injective_compact hviolation,
    injective_compact hcheck, injective_compact hprofile, injective_compact hconstraint,
    injective_compact hcontract, injective_compact hlist⟩

end Strata
