/-
# Every import is accounted for

Specification, section 4.3: what becomes of each specifier of a node.

Each import that a source states ends in one place:

| the import | it is found as |
| --- | --- |
| is relative and means a source | an edge |
| is relative and means no file | a violation of `missingTarget` |
| is relative and means another file | nothing |
| names code of the project without being relative or allowed | a violation of `nonRelativeImport` |
| any other | nothing |

No import is found twice, and the violations of the layer matrix and of the
isolation of modules answer one by one to the edges that break these rules
(`build_accounts`).
-/

import Strata.Proofs.Graph.CycleReport
import Strata.Proofs.Graph.Sources
import Strata.Proofs.Graph.Violations
import Strata.Proofs.Validator.Relisting

namespace Strata

/-- The violations of a rule answer one by one to what satisfies `P`: each is an
error about the file and the target that belong to it. -/
def OneEach {α : Type} (vs : List Violation) (rule : Rule) (P : α → Prop)
    (file target : α → String) : Prop :=
  ∃ xs : List α, xs.Nodup ∧ (∀ x, x ∈ xs ↔ P x) ∧
    List.Forall₂
      (fun x v => ∃ message, v = Violation.error rule (file x) message (some (target x))) xs
      (Diagnosis.ofRule rule vs)

/-- The accounting does not depend on how what it counts is described. -/
theorem OneEach.congr {α : Type} {vs : List Violation} {rule : Rule} {P Q : α → Prop}
    {file target : α → String} (h : OneEach vs rule P file target) (hPQ : ∀ x, P x ↔ Q x) :
    OneEach vs rule Q file target := by
  obtain ⟨xs, hnodup, hmem, hall⟩ := h
  exact ⟨xs, hnodup, fun x => (hmem x).trans (hPQ x), hall⟩

/-- The order of the violations does not matter. -/
theorem OneEach.of_perm {α : Type} {vs ws : List Violation} {rule : Rule} {P : α → Prop}
    {file target : α → String} (h : OneEach vs rule P file target)
    (hperm : (Diagnosis.ofRule rule ws).Perm (Diagnosis.ofRule rule vs)) :
    OneEach ws rule P file target := by
  obtain ⟨xs, hnodup, hmem, hall⟩ := h
  obtain ⟨ys, hys, hxs⟩ := List.perm_comp_forall₂ hperm hall.flip
  exact ⟨ys, hxs.nodup_iff.2 hnodup, fun x => hxs.mem_iff.trans (hmem x), hys.flip⟩

namespace ImportGraph

/-- Where a node lies, by its number. -/
def placeOf? (g : ImportGraph) (v : Nat) : Option PathClass := g.nodes[v]?.map Graph.Node.place

/-- The layer of a node, by its number. -/
def layerOf? (g : ImportGraph) (v : Nat) : Option String := (g.placeOf? v).bind PathClass.layer?

/-- The module of a node, by its number. -/
def moduleOf? (g : ImportGraph) (v : Nat) : Option String := (g.placeOf? v).bind PathClass.module?

/-- An edge breaks the layer matrix: the layer of its source may not import the
layer of its target. -/
def BreaksMatrix (g : ImportGraph) (c : Contract) (e : Graph.Edge) : Prop :=
  ∃ a b, g.layerOf? e.source = some a ∧ g.layerOf? e.target = some b ∧ c.allowsImport a b = false

/-- An edge breaks the isolation of modules: it leads to another module, neither
to what lies directly in that module nor to one of its surface layers. -/
def BreaksIsolation (g : ImportGraph) (c : Contract) (e : Graph.Edge) : Prop :=
  ∃ a b place, g.moduleOf? e.source = some a ∧ g.placeOf? e.target = some place ∧
    place.module? = some b ∧ a ≠ b ∧ (∀ m, place ≠ .moduleOnly m) ∧
    c.isSurface place.layer? = false

/-- Every import of some sources is accounted for in a graph. A pair of a number
and a specifier stands for the import of that specifier by that source. -/
structure Accounts (g : ImportGraph) (c : Contract) (sources : List SourceFile)
    (isKnown : Path → Bool) (names : Graph.InternalNames) : Prop where
  nodes : g.nodes.toList = sources.map (Graph.Node.ofSource c)
  distinct : (sources.map fun s => s.path.normalize).Nodup
  edge_iff : ∀ e, e ∈ g.edges ↔
    ∃ s t, sources[e.source]? = some s ∧ s.Imports e.specifier ∧
      Import.kindOf e.specifier = .relative ∧ sources[e.target]? = some t ∧
      Import.resolve s.path e.specifier isKnown = some t.path.normalize
  outside_iff : ∀ i s specifier file, sources[i]? = some s → s.Imports specifier →
    Import.kindOf specifier = .relative → Import.resolve s.path specifier isKnown = some file →
    ((∀ e ∈ g.edges, ¬ (e.source = i ∧ e.specifier = specifier)) ↔
      ∀ t ∈ sources, t.path.normalize ≠ file)
  once : (g.edges.map fun e => (e.source, e.specifier)).Nodup
  ends : ∀ e ∈ g.edges, e.source < g.nodes.size ∧ e.target < g.nodes.size
  missing : OneEach g.violations .missingTarget
    (fun i : Nat × String => ∃ s, sources[i.1]? = some s ∧ s.Imports i.2 ∧
      Import.kindOf i.2 = .relative ∧ Import.resolve s.path i.2 isKnown = none)
    (fun i => g.nameOf i.1) (fun i => i.2)
  aliased : OneEach g.violations .nonRelativeImport
    (fun i : Nat × String => ∃ s, sources[i.1]? = some s ∧ s.Imports i.2 ∧
      Import.kindOf i.2 = .nonRelative ∧ names.isInternal i.2 = true ∧
      Graph.isAllowedAlias c i.2 = false)
    (fun i => g.nameOf i.1) (fun i => i.2)
  matrix : OneEach g.violations .layerMatrix (fun e => e ∈ g.edges ∧ g.BreaksMatrix c e)
    (fun e => g.nameOf e.source) (fun e => g.nameOf e.target)
  isolation : OneEach g.violations .moduleIsolation (fun e => e ∈ g.edges ∧ g.BreaksIsolation c e)
    (fun e => g.nameOf e.source) (fun e => g.nameOf e.target)

end ImportGraph

namespace Graph

open Diagnosis Violation

/-! ### Outcomes -/

section

variable {w : Surroundings} {importer : Path} {specifier : String}

/-- An import has no target when it is relative and resolves to no file. -/
theorem outcome_eq_unresolved :
    w.outcome importer specifier = .unresolved ↔
      Import.kindOf specifier = .relative ∧
        Import.resolve importer specifier w.isKnown = none := by
  unfold Surroundings.outcome
  cases Import.kindOf specifier with
  | nonRelative =>
    simp only [reduceCtorEq, false_and, iff_false]
    split <;> exact Outcome.noConfusion
  | relative =>
    cases hfile : Import.resolve importer specifier w.isKnown with
    | none => simp
    | some file => cases hnumber : w.numberOf? file <;> simp [hnumber]

/-- An import is aliased when an internal name covers it and the contract does not allow it. -/
theorem outcome_eq_aliased :
    w.outcome importer specifier = .aliased ↔
      Import.kindOf specifier = .nonRelative ∧ w.names.isInternal specifier = true ∧
        isAllowedAlias w.contract specifier = false := by
  unfold Surroundings.outcome
  cases Import.kindOf specifier with
  | nonRelative => cases w.names.isInternal specifier <;>
      cases isAllowedAlias w.contract specifier <;> simp
  | relative =>
    cases hfile : Import.resolve importer specifier w.isKnown with
    | none => simp
    | some file => cases hnumber : w.numberOf? file <;> simp [hnumber]

/-- An import is an edge to the node of the file that it resolves to. -/
theorem outcome_eq_edge {target : Nat} :
    w.outcome importer specifier = .edge target ↔
      Import.kindOf specifier = .relative ∧ ∃ file,
        Import.resolve importer specifier w.isKnown = some file ∧
          w.numberOf? file = some target := by
  unfold Surroundings.outcome
  cases Import.kindOf specifier with
  | nonRelative =>
    simp only [reduceCtorEq, false_and, iff_false]
    split <;> exact Outcome.noConfusion
  | relative =>
    cases hfile : Import.resolve importer specifier w.isKnown with
    | none => simp
    | some file => cases hnumber : w.numberOf? file <;> simp [hnumber]

end

/-! ### Violations -/

variable {c : Contract} {configs : List AliasConfig} {nodes : Array Node}
  {records : List ImportRecord}

/-- The violations of a rule about imports come from the records alone, since nothing else of
the graph makes them. -/
theorem ofRule_violations_ofRecords {rule : Rule} (hrule : rule ∈ importRules) :
    (ofRule rule (ofRecords c configs nodes records).violations).Perm
      (ofRule rule (records.flatMap (ImportRecord.violations c nodes))) :=
  assembled_ofRecords.ofRule_perm (.tail _ (.tail _ (.head _))) hrule

/-- The violations of a rule answer to what the records of its kind are about. -/
theorem oneEach_ofRecords {α : Type} {rule : Rule} (hrule : rule ∈ importRules)
    (about : ImportRecord → Option α) {P : α → Prop} {file target : α → String}
    (hnodup : (records.filterMap about).Nodup) (hmem : ∀ x, x ∈ records.filterMap about ↔ P x)
    (hsome : ∀ r ∈ records, ∀ x, about r = some x → ∃ message,
      ofRule rule (r.violations c nodes) = [.error rule (file x) message (some (target x))])
    (hnone : ∀ r ∈ records, about r = none → ofRule rule (r.violations c nodes) = []) :
    OneEach (ofRecords c configs nodes records).violations rule P file target := by
  have hrecords : OneEach (records.flatMap (ImportRecord.violations c nodes)) rule P file
      target := by
    refine ⟨_, hnodup, hmem, forall₂_filter_flatMap (fun r hr x hx => ?_) hnone⟩
    obtain ⟨message, heq⟩ := hsome r hr x hx
    exact ⟨_, heq, message, rfl⟩
  exact hrecords.of_perm (ofRule_violations_ofRecords hrule)

/-- The rule of a violation of an import, by the outcome. -/
theorem importViolation_cases {r : ImportRecord} {v : Violation} (h : v ∈ r.violations c nodes) :
    (r.outcome = .unresolved ∧ v.ruleId = Rule.missingTarget.id) ∨
      (r.outcome = .aliased ∧ v.ruleId = Rule.nonRelativeImport.id) ∨
      ∃ target, r.outcome = .edge target ∧
        (v.ruleId = Rule.layerMatrix.id ∨ v.ruleId = Rule.moduleIsolation.id) := by
  unfold ImportRecord.violations at h
  split at h
  · exact absurd h List.not_mem_nil
  · split at h
    · exact absurd h List.not_mem_nil
    · exact absurd h List.not_mem_nil
    · rename_i houtcome
      exact .inr (.inl ⟨houtcome, congrArg ruleId (List.mem_singleton.1 h)⟩)
    · rename_i houtcome
      exact .inl ⟨houtcome, congrArg ruleId (List.mem_singleton.1 h)⟩
    · rename_i target houtcome
      refine .inr (.inr ⟨target, houtcome, ?_⟩)
      split at h
      · exact absurd h List.not_mem_nil
      · rcases List.mem_append.1 h with h | h
        · obtain ⟨file, message, file', rfl⟩ := matrixViolation_eq (Option.mem_toList.1 h)
          exact .inl rfl
        · obtain ⟨file, message, file', rfl⟩ := isolationViolation_eq (Option.mem_toList.1 h)
          exact .inr rfl

/-- The graph of some records names a node by its relative path. -/
theorem nameOf_ofRecords {v : Nat} {node : Node} (h : nodes[v]? = some node) :
    (ofRecords c configs nodes records).nameOf v = node.relativePath := by
  show (nodes[v]?.map Node.relativePath).getD "" = _
  rw [h]
  rfl

section Records

variable (himporter : ∀ r ∈ records, r.importer < nodes.size)
  (hnodup : (records.map fun r => (r.importer, r.specifier)).Nodup)
include himporter hnodup

/-- The violations that name a specifier answer to the records with the outcome of
their rule. -/
theorem oneEach_specifiers {rule : Rule} {outcome : Outcome} (hrule : rule ∈ importRules)
    (hviolations : ∀ r : ImportRecord, ∀ node, nodes[r.importer]? = some node →
      r.outcome = outcome → ∃ message,
        r.violations c nodes = [.error rule node.relativePath message (some r.specifier)])
    (hother : ∀ r : ImportRecord, r.outcome ≠ outcome → ∀ v ∈ r.violations c nodes,
      v.ruleId ≠ rule.id) :
    OneEach (ofRecords c configs nodes records).violations rule
      (fun i : Nat × String => (⟨i.1, i.2, outcome⟩ : ImportRecord) ∈ records)
      (fun i => (ofRecords c configs nodes records).nameOf i.1) (fun i => i.2) := by
  -- what a record is about, when it has the outcome of the rule
  let about (r : ImportRecord) : Option (Nat × String) :=
    if r.outcome = outcome then some (r.importer, r.specifier) else none
  have habout : ∀ r i, about r = some i ↔ r = ⟨i.1, i.2, outcome⟩ := by
    rintro ⟨importer, specifier, outcome'⟩ ⟨j, text⟩
    by_cases heq : outcome' = outcome <;> simp [about, heq]
  refine oneEach_ofRecords hrule about ?_ (fun i => ?_) (fun r hr i hi => ?_)
    fun r hr hnone => ?_
  · -- a file imports each specifier once, so no two records are about the same
    have hkeys := nodup_filterMap_of_key hnodup about id fun r _ i hi => by
      rw [(habout r i).1 hi]
      rfl
    rwa [List.map_id] at hkeys
  · rw [List.mem_filterMap]
    constructor
    · rintro ⟨r, hr, hi⟩
      exact (habout r i).1 hi ▸ hr
    · exact fun hr => ⟨_, hr, (habout _ i).2 rfl⟩
  · obtain rfl := (habout r i).1 hi
    have hnode := Array.getElem?_eq_getElem (himporter _ hr)
    obtain ⟨message, hviolation⟩ := hviolations _ _ hnode rfl
    refine ⟨message, ?_⟩
    rw [hviolation, nameOf_ofRecords hnode]
    exact ofRule_eq_self fun v hv => congrArg ruleId (List.mem_singleton.1 hv)
  · refine ofRule_eq_nil (hother r fun heq => ?_)
    simp [about, heq] at hnone

omit himporter in
/-- A file imports each specifier once, so no edge comes twice. -/
theorem nodup_edges :
    ((records.filterMap ImportRecord.edge?).map fun e => (e.source, e.specifier)).Nodup :=
  nodup_filterMap_of_key hnodup ImportRecord.edge? _ fun r _ e he => by
    rw [edge?_eq_some_iff.1 he]

variable (configs) in
/-- The violations that name two files answer to the edges that a check of their
ends finds at fault. -/
theorem oneEach_edges {rule : Rule} (check : Node → Node → Option Violation)
    (hrule : rule ∈ importRules)
    (htarget : ∀ r ∈ records, ∀ t, r.outcome = .edge t → t < nodes.size)
    (hcheck : ∀ a b v, check a b = some v → ∃ message,
      v = .error rule a.relativePath message (some b.relativePath))
    (hviolations : ∀ r : ImportRecord, ∀ a b t, nodes[r.importer]? = some a →
      r.outcome = .edge t → nodes[t]? = some b →
      ofRule rule (r.violations c nodes) = (check a b).toList)
    (hother : ∀ r : ImportRecord, (∀ t, r.outcome ≠ .edge t) → ∀ v ∈ r.violations c nodes,
      v.ruleId ≠ rule.id) :
    OneEach (ofRecords c configs nodes records).violations rule
      (fun e => e ∈ (ofRecords c configs nodes records).edges ∧ ∃ a b,
        nodes[e.source]? = some a ∧ nodes[e.target]? = some b ∧ (check a b).isSome)
      (fun e => (ofRecords c configs nodes records).nameOf e.source)
      (fun e => (ofRecords c configs nodes records).nameOf e.target) := by
  -- an edge is at fault when both ends are nodes and the check of them finds something
  let fault (e : Edge) : Bool :=
    ((nodes[e.source]?).bind fun a => (nodes[e.target]?).bind fun b => check a b).isSome
  have hfault : ∀ e, fault e = true ↔ ∃ a b, nodes[e.source]? = some a ∧
      nodes[e.target]? = some b ∧ (check a b).isSome := by
    intro e
    cases ha : nodes[e.source]? <;> cases hb : nodes[e.target]? <;> simp [fault, ha, hb]
  have habout : records.filterMap (fun r => r.edge?.filter fault) =
      (records.filterMap ImportRecord.edge?).filter fault := by
    rw [List.filter_filterMap]
  refine oneEach_ofRecords hrule (fun r => r.edge?.filter fault) ?_ (fun e => ?_)
    (fun r hr e he => ?_) fun r hr hnone => ?_
  · rw [habout]
    exact (List.Nodup.of_map _ (nodup_edges hnodup)).filter _
  · rw [habout, List.mem_filter, hfault]
    rfl
  · -- an edge at fault has the violation of its ends and no other of this rule
    obtain ⟨hedge, hbad⟩ := Option.filter_eq_some_iff.1 he
    obtain ⟨a, b, ha, hb, hsome⟩ := (hfault e).1 hbad
    obtain ⟨v, hv⟩ := Option.isSome_iff_exists.1 hsome
    obtain ⟨message, rfl⟩ := hcheck a b v hv
    obtain rfl := edge?_eq_some_iff.1 hedge
    refine ⟨message, ?_⟩
    rw [hviolations _ a b e.target ha rfl hb, hv, nameOf_ofRecords ha, nameOf_ofRecords hb]
    rfl
  · -- a record that is about no edge at fault has no violation of this rule
    by_cases hedge : ∃ t, r.outcome = .edge t
    · obtain ⟨t, houtcome⟩ := hedge
      have ha := Array.getElem?_eq_getElem (himporter r hr)
      have hb := Array.getElem?_eq_getElem (htarget r hr t houtcome)
      rw [hviolations r _ _ t ha houtcome hb, Option.toList_eq_nil_iff]
      by_contra hne
      have hbad : fault ⟨r.importer, t, r.specifier⟩ = true :=
        (hfault _).2 ⟨_, _, ha, hb, Option.ne_none_iff_isSome.1 hne⟩
      simp [ImportRecord.edge?, houtcome, hbad] at hnone
    · exact ofRule_eq_nil (hother r fun t heq => hedge ⟨t, heq⟩)

end Records

/-! ### Faults of edges -/

/-- The matrix is asked only where both ends lie in a layer. -/
theorem isSome_matrixViolation_iff {a b : Node} :
    (matrixViolation? c a b).isSome ↔
      ∃ x y, a.place.layer? = some x ∧ b.place.layer? = some y ∧ c.allowsImport x y = false := by
  rw [matrixViolation?, Option.isSome_map, deniedLayers?]
  cases a.place.layer? with
  | none => simp
  | some x =>
    cases b.place.layer? with
    | none => simp
    | some y => cases hallows : c.allowsImport x y <;> simp [hallows]

/-- A place is not public when it is more than a module and its layer is no surface. -/
theorem isPublic_eq_false_iff {place : PathClass} :
    isPublic c place = false ↔ (∀ m, place ≠ .moduleOnly m) ∧ c.isSurface place.layer? = false := by
  cases place <;> simp [isPublic]

/-- Isolation is about two modules, and about a target that is not public. -/
theorem isSome_isolationViolation_iff {a b : Node} :
    (isolationViolation? c a b).isSome ↔
      ∃ x y, a.place.module? = some x ∧ b.place.module? = some y ∧ x ≠ y ∧
        (∀ m, b.place ≠ .moduleOnly m) ∧ c.isSurface b.place.layer? = false := by
  rw [isolationViolation?, Option.isSome_map, invadedModules?, ← isPublic_eq_false_iff]
  cases a.place.module? with
  | none => simp
  | some x =>
    cases b.place.module? with
    | none => simp
    | some y => by_cases hfault : x ≠ y ∧ ¬ isPublic c b.place <;> simp_all

/-- In terms of the graph: the places of the ends are those of the nodes. -/
theorem breaksMatrix_ofRecords {e : Edge} :
    (∃ a b, nodes[e.source]? = some a ∧ nodes[e.target]? = some b ∧
      (matrixViolation? c a b).isSome) ↔
    (ofRecords c configs nodes records).BreaksMatrix c e := by
  have hlayer : ∀ v, (ofRecords c configs nodes records).layerOf? v =
      (nodes[v]?.map Node.place).bind PathClass.layer? := fun _ => rfl
  unfold ImportGraph.BreaksMatrix
  simp only [isSome_matrixViolation_iff, hlayer]
  cases nodes[e.source]? <;> cases nodes[e.target]? <;> simp

/-- In terms of the graph, isolation is about the modules of the nodes. -/
theorem breaksIsolation_ofRecords {e : Edge} :
    (∃ a b, nodes[e.source]? = some a ∧ nodes[e.target]? = some b ∧
      (isolationViolation? c a b).isSome) ↔
    (ofRecords c configs nodes records).BreaksIsolation c e := by
  have hplace : ∀ v, (ofRecords c configs nodes records).placeOf? v =
      nodes[v]?.map Node.place := fun _ => rfl
  unfold ImportGraph.BreaksIsolation ImportGraph.moduleOf?
  simp only [isSome_isolationViolation_iff, hplace]
  cases nodes[e.source]? with
  | none => simp
  | some a =>
    cases nodes[e.target]? with
    | none => simp
    | some b =>
      simp only [Option.some.injEq, Option.map_some, Option.bind_some]
      constructor
      · rintro ⟨_, _, rfl, rfl, x, y, hx, hy, hne, hpublic⟩
        exact ⟨x, y, _, hx, rfl, hy, hne, hpublic⟩
      · rintro ⟨x, y, _, hx, rfl, hy, hne, hpublic⟩
        exact ⟨_, _, rfl, rfl, x, y, hx, hy, hne, hpublic⟩

section Rules

/-- The violation of an import without a target names the importer and the specifier. -/
theorem missingTarget_of_unresolved {r : ImportRecord} {node : Node}
    (hnode : nodes[r.importer]? = some node) (houtcome : r.outcome = .unresolved) :
    ∃ message, r.violations c nodes =
      [.error .missingTarget node.relativePath message (some r.specifier)] := by
  simp only [ImportRecord.violations, hnode, houtcome]
  exact ⟨_, rfl⟩

/-- The violation of an aliased import names the same two. -/
theorem nonRelativeImport_of_aliased {r : ImportRecord} {node : Node}
    (hnode : nodes[r.importer]? = some node) (houtcome : r.outcome = .aliased) :
    ∃ message, r.violations c nodes =
      [.error .nonRelativeImport node.relativePath message (some r.specifier)] := by
  simp only [ImportRecord.violations, hnode, houtcome]
  exact ⟨_, rfl⟩

/-- An import without an edge breaks no rule about edges. -/
theorem ruleId_ne_of_no_edge {rule : Rule} (hrule : rule ∈ [Rule.layerMatrix, .moduleIsolation])
    {r : ImportRecord} (hnone : ∀ t, r.outcome ≠ .edge t) :
    ∀ v ∈ r.violations c nodes, v.ruleId ≠ rule.id := by
  intro v hv
  have hapart : ∀ rule ∈ [Rule.layerMatrix, .moduleIsolation],
      Rule.missingTarget ≠ rule ∧ Rule.nonRelativeImport ≠ rule := by decide
  rcases importViolation_cases hv with ⟨-, hid⟩ | ⟨-, hid⟩ | ⟨target, houtcome, -⟩
  · rw [hid]
    exact Rule.id_ne (hapart rule hrule).1
  · rw [hid]
    exact Rule.id_ne (hapart rule hrule).2
  · exact absurd houtcome (hnone target)

/-- The violations of an edge, each of its own rule. -/
theorem ofRule_violations_of_edge {r : ImportRecord} {a b : Node} {t : Nat}
    (ha : nodes[r.importer]? = some a) (houtcome : r.outcome = .edge t)
    (hb : nodes[t]? = some b) :
    ofRule .layerMatrix (r.violations c nodes) = (matrixViolation? c a b).toList ∧
      ofRule .moduleIsolation (r.violations c nodes) = (isolationViolation? c a b).toList := by
  have hmatrix : ∀ v ∈ (matrixViolation? c a b).toList, v.ruleId = Rule.layerMatrix.id := by
    intro v hv
    obtain ⟨file, message, file', rfl⟩ := matrixViolation_eq (Option.mem_toList.1 hv)
    rfl
  have hisolation : ∀ v ∈ (isolationViolation? c a b).toList,
      v.ruleId = Rule.moduleIsolation.id := by
    intro v hv
    obtain ⟨file, message, file', rfl⟩ := isolationViolation_eq (Option.mem_toList.1 hv)
    rfl
  have hapart : Rule.layerMatrix.id ≠ Rule.moduleIsolation.id := Rule.id_ne (by decide)
  have hviolations : r.violations c nodes =
      (matrixViolation? c a b).toList ++ (isolationViolation? c a b).toList := by
    simp only [ImportRecord.violations, ha, houtcome, hb]
  rw [hviolations, ofRule_append, ofRule_append]
  -- each of the two checks makes violations of its own rule, which are apart
  constructor
  · rw [ofRule_eq_self hmatrix, ofRule_eq_nil fun v hv => hisolation v hv ▸ hapart.symm,
      List.append_nil]
  · rw [ofRule_eq_self hisolation, ofRule_eq_nil fun v hv => hmatrix v hv ▸ hapart,
      List.nil_append]

variable (himporter : ∀ r ∈ records, r.importer < nodes.size)
  (hnodup : (records.map fun r => (r.importer, r.specifier)).Nodup)
include himporter hnodup

/-- The imports without a target are accounted for, one violation each. -/
theorem missingTarget_ofRecords :
    OneEach (ofRecords c configs nodes records).violations .missingTarget
      (fun i : Nat × String => (⟨i.1, i.2, .unresolved⟩ : ImportRecord) ∈ records)
      (fun i => (ofRecords c configs nodes records).nameOf i.1) (fun i => i.2) := by
  refine oneEach_specifiers himporter hnodup (by decide)
    (fun r node hnode houtcome => missingTarget_of_unresolved hnode houtcome) fun r hne v hv => ?_
  rcases importViolation_cases hv with ⟨houtcome, -⟩ | ⟨-, hid⟩ | ⟨target, -, hid | hid⟩
  · exact absurd houtcome hne
  all_goals
    rw [hid]
    exact Rule.id_ne (by decide)

/-- The aliased imports are accounted for, one violation each. -/
theorem nonRelativeImport_ofRecords :
    OneEach (ofRecords c configs nodes records).violations .nonRelativeImport
      (fun i : Nat × String => (⟨i.1, i.2, .aliased⟩ : ImportRecord) ∈ records)
      (fun i => (ofRecords c configs nodes records).nameOf i.1) (fun i => i.2) := by
  refine oneEach_specifiers himporter hnodup (by decide)
    (fun r node hnode houtcome => nonRelativeImport_of_aliased hnode houtcome) fun r hne v hv => ?_
  rcases importViolation_cases hv with ⟨-, hid⟩ | ⟨houtcome, -⟩ | ⟨target, -, hid | hid⟩
  · rw [hid]
    exact Rule.id_ne (by decide)
  · exact absurd houtcome hne
  all_goals
    rw [hid]
    exact Rule.id_ne (by decide)

variable (htarget : ∀ r ∈ records, ∀ t, r.outcome = .edge t → t < nodes.size)
include htarget

/-- The edges that break the layer matrix are accounted for, one violation each. -/
theorem layerMatrix_ofRecords :
    OneEach (ofRecords c configs nodes records).violations .layerMatrix
      (fun e => e ∈ (ofRecords c configs nodes records).edges ∧
        (ofRecords c configs nodes records).BreaksMatrix c e)
      (fun e => (ofRecords c configs nodes records).nameOf e.source)
      (fun e => (ofRecords c configs nodes records).nameOf e.target) := by
  have hedges := oneEach_edges configs himporter hnodup (matrixViolation? c)
    (by decide) htarget ?_
    (fun r a b t ha houtcome hb => (ofRule_violations_of_edge ha houtcome hb).1)
    fun r hnone => ruleId_ne_of_no_edge (by decide) hnone
  · exact hedges.congr fun e => and_congr_right fun _ => breaksMatrix_ofRecords
  · intro a b v hv
    obtain ⟨layers, -, rfl⟩ := Option.map_eq_some_iff.1 hv
    exact ⟨_, rfl⟩

/-- The edges that break the isolation of a module are accounted for, one violation each. -/
theorem moduleIsolation_ofRecords :
    OneEach (ofRecords c configs nodes records).violations .moduleIsolation
      (fun e => e ∈ (ofRecords c configs nodes records).edges ∧
        (ofRecords c configs nodes records).BreaksIsolation c e)
      (fun e => (ofRecords c configs nodes records).nameOf e.source)
      (fun e => (ofRecords c configs nodes records).nameOf e.target) := by
  have hedges := oneEach_edges configs himporter hnodup (isolationViolation? c)
    (by decide) htarget ?_
    (fun r a b t ha houtcome hb => (ofRule_violations_of_edge ha houtcome hb).2)
    fun r hnone => ruleId_ne_of_no_edge (by decide) hnone
  · exact hedges.congr fun e => and_congr_right fun _ => breaksIsolation_ofRecords
  · intro a b v hv
    obtain ⟨modules, -, rfl⟩ := Option.map_eq_some_iff.1 hv
    exact ⟨_, rfl⟩

end Rules

/-! ### The accounts -/

section

variable {w : Surroundings} {sources : List SourceFile}

/-- The edges are the records with a target. -/
theorem mem_edges_recordsOf {e : Edge} :
    e ∈ (recordsOf w sources).filterMap ImportRecord.edge? ↔
      (⟨e.source, e.specifier, .edge e.target⟩ : ImportRecord) ∈ recordsOf w sources := by
  simp only [List.mem_filterMap, edge?_eq_some_iff, exists_eq_right]

/-- The records without a target are the relative imports that mean no file. -/
theorem mem_unresolved_iff {i : Nat × String} :
    (⟨i.1, i.2, .unresolved⟩ : ImportRecord) ∈ recordsOf w sources ↔
      ∃ s, sources[i.1]? = some s ∧ s.Imports i.2 ∧ Import.kindOf i.2 = .relative ∧
        Import.resolve s.path i.2 w.isKnown = none := by
  rw [mem_recordsOf]
  simp only [eq_comm (a := Outcome.unresolved), outcome_eq_unresolved]

/-- The records of aliases are the imports that name code of the project otherwise. -/
theorem mem_aliased_iff {i : Nat × String} :
    (⟨i.1, i.2, .aliased⟩ : ImportRecord) ∈ recordsOf w sources ↔
      ∃ s, sources[i.1]? = some s ∧ s.Imports i.2 ∧ Import.kindOf i.2 = .nonRelative ∧
        w.names.isInternal i.2 = true ∧ isAllowedAlias w.contract i.2 = false := by
  rw [mem_recordsOf]
  simp only [eq_comm (a := Outcome.aliased), outcome_eq_aliased]

section Numbered

-- every source has the number of its place, and nothing else has a number
variable (hnumber : ∀ p i, w.numberOf? p = some i ↔
  ∃ s, sources[i]? = some s ∧ s.path.normalize = p)
include hnumber

/-- The target of an edge is the number of a node. -/
theorem lt_of_edge {r : ImportRecord} (hr : r ∈ recordsOf w sources) {t : Nat}
    (houtcome : r.outcome = .edge t) : t < sources.length := by
  obtain ⟨s, -, -, heq⟩ := mem_recordsOf.1 hr
  obtain ⟨-, file, -, hfile⟩ := outcome_eq_edge.1 (heq.symm.trans houtcome)
  obtain ⟨target, htarget, -⟩ := (hnumber _ _).1 hfile
  exact (List.getElem?_eq_some_iff.1 htarget).1

/-- The edges are the relative imports whose target is a source. -/
theorem mem_edges_recordsOf_iff {e : Edge} :
    e ∈ (recordsOf w sources).filterMap ImportRecord.edge? ↔
      ∃ s t, sources[e.source]? = some s ∧ s.Imports e.specifier ∧
        Import.kindOf e.specifier = .relative ∧ sources[e.target]? = some t ∧
        Import.resolve s.path e.specifier w.isKnown = some t.path.normalize := by
  rw [mem_edges_recordsOf, mem_recordsOf]
  constructor
  · rintro ⟨s, hs, hstated, houtcome⟩
    obtain ⟨hkind, file, hfile, hnum⟩ := outcome_eq_edge.1 houtcome.symm
    obtain ⟨t, ht, rfl⟩ := (hnumber _ _).1 hnum
    exact ⟨s, t, hs, hstated, hkind, ht, hfile⟩
  · rintro ⟨s, t, hs, hstated, hkind, ht, hfile⟩
    exact ⟨s, hs, hstated,
      (outcome_eq_edge.2 ⟨hkind, _, hfile, (hnumber _ _).2 ⟨t, ht, rfl⟩⟩).symm⟩

/-- A relative import with a target has no edge when the target is no source. -/
theorem no_edge_iff {i : Nat} {s : SourceFile} {specifier : String} {file : Path}
    (hs : sources[i]? = some s) (hstated : s.Imports specifier)
    (hkind : Import.kindOf specifier = .relative)
    (hfile : Import.resolve s.path specifier w.isKnown = some file) :
    (∀ e ∈ (recordsOf w sources).filterMap ImportRecord.edge?,
        ¬ (e.source = i ∧ e.specifier = specifier)) ↔
      ∀ t ∈ sources, t.path.normalize ≠ file := by
  constructor
  · rintro hnone t ht rfl
    obtain ⟨j, hj, rfl⟩ := List.getElem_of_mem ht
    have hedge := (mem_edges_recordsOf_iff hnumber (e := ⟨i, j, specifier⟩)).2
      ⟨s, _, hs, hstated, hkind, List.getElem?_eq_getElem hj, hfile⟩
    exact hnone _ hedge ⟨rfl, rfl⟩
  · rintro hoff e he ⟨rfl, rfl⟩
    obtain ⟨s', t, hs', -, -, ht, hfile'⟩ := (mem_edges_recordsOf_iff hnumber).1 he
    obtain rfl := Option.some.inj (hs.symm.trans hs')
    exact hoff t (List.mem_of_getElem? ht) (Option.some.inj (hfile'.symm.trans hfile))

/-- The records of some sources make a graph that accounts for their imports. -/
theorem accounts_ofRecords (c : Contract) (configs : List AliasConfig) (hcontract : w.contract = c)
    (hdistinct : (sources.map fun s => s.path.normalize).Nodup) :
    (ofRecords c configs (sources.map (Node.ofSource c)).toArray (recordsOf w sources)).Accounts c
      sources w.isKnown w.names := by
  set nodes := (sources.map (Node.ofSource c)).toArray with hnodes
  have hsize : nodes.size = sources.length := by simp [hnodes]
  have himporter : ∀ r ∈ recordsOf w sources, r.importer < nodes.size := fun r hr =>
    hsize ▸ importer_lt_of_mem_recordsOf hr
  have hnodup := nodup_recordsOf w sources
  have htarget : ∀ r ∈ recordsOf w sources, ∀ t, r.outcome = .edge t → t < nodes.size :=
    fun r hr t houtcome => hsize ▸ lt_of_edge hnumber hr houtcome
  refine ⟨by simp [hnodes, ofRecords], hdistinct, fun e => mem_edges_recordsOf_iff hnumber,
    fun i s specifier file => no_edge_iff hnumber, nodup_edges hnodup, fun e he => ?_, ?_, ?_,
    layerMatrix_ofRecords himporter hnodup htarget,
    moduleIsolation_ofRecords himporter hnodup htarget⟩
  · have hr := mem_edges_recordsOf.1 he
    exact ⟨himporter _ hr, htarget _ hr _ rfl⟩
  · exact (missingTarget_ofRecords himporter hnodup).congr fun i => mem_unresolved_iff
  · exact (nonRelativeImport_ofRecords himporter hnodup).congr fun i => hcontract ▸ mem_aliased_iff

end Numbered

/-- The graph of the files below a source root accounts for the imports of the
production files among them. -/
theorem accounts_assemble {c : Contract} {root : Path} {entries : List (String × Entry)}
    (h : (Entry.directory entries).WellNamed) (all : List FoundFile) (configs : List AliasConfig) :
    (assemble c root (filesOfEntries (c.sourceDirectory root) entries) all configs).Accounts c
      (sourcesBelow root (c.sourceDirectory root) entries)
      (fun p => (knownPaths all).contains p.text)
      { sourceRoot := c.sourceRoot
        aliases := configs.flatMap AliasConfig.aliases
        sourceDirectories := sourceDirectories (c.sourceDirectory root)
          (filesOfEntries (c.sourceDirectory root) entries) } := by
  have hdistinct := nodup_normalize_sourcesBelow root (c.sourceDirectory root) h
  exact accounts_ofRecords (fun p i => get?_numbering hdistinct) c configs rfl hdistinct

end

end Graph

/-- **Every import is accounted for.** A graph that is built is empty, when the source root is
no directory, or it accounts for the imports of the production files below the source root:
relative imports are resolved against the files of a walk from the project root, and the names
of project code are those of the source root, of the declared aliases and of the directories in
the source root. Source: specification, section 4.3, specifiers and edges. -/
theorem ImportGraph.build_accounts {files : Files} {root : Path} {c : Contract} {g : ImportGraph}
    (hnames : files.top.WellNamed) (h : ImportGraph.build files root c = .ok g) :
    (files.isDirectory (c.sourceDirectory root) = false ∧ g = .empty) ∨
      ∃ below all configs production sources isKnown,
        files.walk (c.sourceDirectory root) = .ok below ∧ files.walk root = .ok all ∧
        Graph.AliasConfig.readAll files root = .ok configs ∧
        productionFiles files root c = .ok production ∧ sources.Perm production ∧
        (∀ p, isKnown p = true ↔ ∃ f ∈ all, f.path.normalize = p) ∧
        g.Accounts c sources isKnown
          { sourceRoot := c.sourceRoot
            aliases := configs.flatMap Graph.AliasConfig.aliases
            sourceDirectories := Graph.sourceDirectories (c.sourceDirectory root) below } := by
  rcases build_cases h with hempty | ⟨entries, all, configs, hfind, hall, hconfigs, rfl⟩
  · exact .inl hempty
  · have hwell := Files.wellNamed_of_find hnames hfind
    have hwalk := Files.walk_eq hfind
    have hproduction : productionFiles files root c =
        .ok (selectProduction root (filesOfEntries (c.sourceDirectory root) entries)) := by
      rw [productionFiles, hwalk]
      rfl
    -- the nodes are the production files in the order of their paths
    exact .inr ⟨_, all, configs, _, Graph.sourcesBelow root (c.sourceDirectory root) entries,
      fun p => (Graph.knownPaths all).contains p.text, hwalk, hall, hconfigs, hproduction,
      selectProduction_perm root (List.mergeSort_perm _ _), fun p => Graph.contains_knownPaths,
      Graph.accounts_assemble hwell all configs⟩

/-- The violations of the layer matrix answer to the edges that break it. -/
theorem ImportGraph.matrix_of_build {files : Files} {root : Path} {c : Contract} {g : ImportGraph}
    (hwell : files.top.WellNamed) (h : ImportGraph.build files root c = .ok g) :
    OneEach g.violations .layerMatrix (fun e => e ∈ g.edges ∧ g.BreaksMatrix c e)
      (fun e => g.nameOf e.source) (fun e => g.nameOf e.target) := by
  rcases build_cases h with ⟨-, rfl⟩ | ⟨entries, all, configs, hfind, -, -, rfl⟩
  · refine ⟨[], .nil, fun e => ?_, .nil⟩
    simp [ImportGraph.empty]
  · exact (Graph.accounts_assemble (Files.wellNamed_of_find hwell hfind) all configs).matrix

/-- Violations that answer to one thing alone are one violation. -/
theorem OneEach.eq_singleton {α : Type} {vs : List Violation} {rule : Rule} {P : α → Prop}
    {file target : α → String} (h : OneEach vs rule P file target) {x : α}
    (hx : ∀ y, P y ↔ y = x) :
    ∃ message, Diagnosis.ofRule rule vs = [.error rule (file x) message (some (target x))] := by
  obtain ⟨xs, hnodup, hmem, hall⟩ := h
  obtain rfl : xs = [x] := List.perm_singleton.1
    ((List.perm_ext_iff_of_nodup hnodup (List.nodup_singleton x)).2 fun y => by
      rw [hmem, hx, List.mem_singleton])
  obtain ⟨_, _, ⟨message, rfl⟩, hnil, hvs⟩ := List.forall₂_cons_left_iff.1 hall
  exact ⟨message, hvs.trans (List.forall₂_nil_left_iff.1 hnil ▸ rfl)⟩

namespace ImportGraph

/-! ### A project with a fault of each kind -/

/-- Three files: the first imports a file that is missing, the second a layer that it
may not import, the third code of the project by no relative path. -/
def faultyFiles : Files where
  top :=
    .directory
      [("src", .directory
        [("controller", .directory [("a.ts", .file (some "import './missing';"))]),
         ("repository", .directory [("b.ts", .file (some "import '../controller/a';"))]),
         ("service", .directory [("c.ts", .file (some "import 'src/x';"))])])]
  workingDirectory := ⟨"/"⟩

/-- Its names are names of files. -/
theorem wellNamed_faultyFiles : faultyFiles.top.WellNamed := by
  refine .singleton (by decide) (.directory (by decide) (by decide) ?_)
  simp only [List.forall_mem_cons, List.not_mem_nil, false_imp_iff, implies_true, and_true]
  exact ⟨.singleton (by decide) (.file _), .singleton (by decide) (.file _),
    .singleton (by decide) (.file _)⟩

/-- The three files as walks find them. -/
def faultyFound : List FoundFile :=
  [⟨⟨"/src/controller/a.ts"⟩, some "import './missing';"⟩,
   ⟨⟨"/src/repository/b.ts"⟩, some "import '../controller/a';"⟩,
   ⟨⟨"/src/service/c.ts"⟩, some "import 'src/x';"⟩]

/-- The three files as sources. -/
def faultySources : List SourceFile := faultyFound.map (SourceFile.ofFound ⟨"/"⟩)

/-- All files that are found are sources. -/
theorem selectProduction_faultyFound :
    selectProduction ⟨"/"⟩ (sortByPath faultyFound) = faultySources :=
  selectProduction_eq (by decide +kernel) (by decide +kernel) (by decide +kernel)

/-- What the imports of the three files depend on. -/
def faultySurroundings : Graph.Surroundings :=
  Graph.surroundingsOf .standard ⟨"/"⟩ faultyFound faultyFound [] faultySources

/-- The three imports and what becomes of each of them. -/
theorem recordsOf_faultySources :
    Graph.recordsOf faultySurroundings faultySources =
      [⟨0, "./missing", .unresolved⟩, ⟨1, "../controller/a", .edge 0⟩, ⟨2, "src/x", .aliased⟩] := by
  decide +kernel

/-- The graph of the project has its three files as nodes. -/
theorem build_faultyFiles :
    ∃ g, ImportGraph.build faultyFiles ⟨"/"⟩ .standard = .ok g ∧
      g.nodes.toList = faultySources.map (Graph.Node.ofSource .standard) := by
  refine ⟨Graph.assemble .standard ⟨"/"⟩ faultyFound faultyFound [], rfl, ?_⟩
  rw [Graph.assemble, selectProduction_faultyFound]
  rfl

/-- Each of the three imports is found in its place: one edge, which breaks the layer
matrix, and two violations. -/
theorem build_accounts_faulty :
    ∃ g, ImportGraph.build faultyFiles ⟨"/"⟩ .standard = .ok g ∧
      g.edges = [⟨1, 0, "../controller/a"⟩] ∧
      (∃ message, Diagnosis.ofRule .missingTarget g.violations =
        [.error .missingTarget "src/controller/a.ts" message (some "./missing")]) ∧
      (∃ message, Diagnosis.ofRule .nonRelativeImport g.violations =
        [.error .nonRelativeImport "src/service/c.ts" message (some "src/x")]) ∧
      ∃ message, Diagnosis.ofRule .layerMatrix g.violations =
        [.error .layerMatrix "src/repository/b.ts" message (some "src/controller/a.ts")] := by
  obtain ⟨g, hbuild, hnodes⟩ := build_faultyFiles
  rcases build_accounts wellNamed_faultyFiles hbuild with
    ⟨hnone, -⟩ | ⟨below, all, configs, production, sources, isKnown, hbelow, hall, hconfigs,
      hproduction, hperm, hknown, haccounts⟩
  · cases hnone
  obtain rfl : below = faultyFound := (Except.ok.inj hbelow).symm
  obtain rfl : all = faultyFound := (Except.ok.inj hall).symm
  obtain rfl : configs = [] := (Except.ok.inj hconfigs).symm
  obtain rfl : production = selectProduction ⟨"/"⟩ faultyFound := (Except.ok.inj hproduction).symm
  -- the nodes show in which order the sources stand
  obtain rfl : sources = faultySources := by
    have hsources : sources.Perm faultySources := by
      rw [← selectProduction_faultyFound]
      exact hperm.trans (selectProduction_perm _ (List.mergeSort_perm _ _).symm)
    refine eq_of_perm_of_map_eq hsources (f := Graph.Node.ofSource .standard) ?_ (by decide +kernel)
    exact haccounts.nodes.symm.trans hnodes
  obtain rfl : isKnown = faultySurroundings.isKnown := funext fun p =>
    Bool.eq_iff_iff.2 ((hknown p).trans Graph.contains_knownPaths.symm)
  replace haccounts : g.Accounts faultySurroundings.contract faultySources
      faultySurroundings.isKnown faultySurroundings.names := haccounts
  have hnumber : ∀ p i, faultySurroundings.numberOf? p = some i ↔
      ∃ s, faultySources[i]? = some s ∧ s.path.normalize = p := fun p i =>
    Graph.get?_numbering haccounts.distinct
  have hname : ∀ v, g.nameOf v = ((faultySources.map SourceFile.relativePath)[v]?).getD "" := by
    intro v
    rw [nameOf_eq, hnodes, List.map_map]
    rfl
  have hfirst : g.nameOf 0 = "src/controller/a.ts" := (hname 0).trans (by decide +kernel)
  have hsecond : g.nameOf 1 = "src/repository/b.ts" := (hname 1).trans (by decide +kernel)
  have hthird : g.nameOf 2 = "src/service/c.ts" := (hname 2).trans (by decide +kernel)
  have hedges : g.edges = [⟨1, 0, "../controller/a"⟩] := by
    refine List.perm_singleton.1 ((List.perm_ext_iff_of_nodup (.of_map _ haccounts.once)
      (List.nodup_singleton _)).2 fun e => ?_)
    rw [haccounts.edge_iff, ← Graph.mem_edges_recordsOf_iff hnumber, recordsOf_faultySources]
    rfl
  refine ⟨g, hbuild, hedges, ?_, ?_, ?_⟩
  · have hone := haccounts.missing.eq_singleton (x := (0, "./missing")) fun i => by
      rw [← Graph.mem_unresolved_iff, recordsOf_faultySources]
      simp [Prod.ext_iff]
    rwa [hfirst] at hone
  · have hone := haccounts.aliased.eq_singleton (x := (2, "src/x")) fun i => by
      rw [← Graph.mem_aliased_iff, recordsOf_faultySources]
      simp [Prod.ext_iff]
    rwa [hthird] at hone
  · have hone := haccounts.matrix.eq_singleton (x := ⟨1, 0, "../controller/a"⟩) fun e => ?_
    · rwa [hsecond, hfirst] at hone
    rw [hedges, List.mem_singleton]
    refine and_iff_left_of_imp ?_
    rintro rfl
    have hlayer : ∀ v, g.layerOf? v = ((faultySources.map
        (Graph.Node.ofSource .standard))[v]?.map Graph.Node.place).bind PathClass.layer? := by
      intro v
      rw [layerOf?, placeOf?, ← Array.getElem?_toList, hnodes]
    exact ⟨"repository", "controller", (hlayer 1).trans (by decide +kernel),
      (hlayer 0).trans (by decide +kernel), by decide +kernel⟩

end ImportGraph

end Strata
