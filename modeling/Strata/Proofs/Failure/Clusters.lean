/-
# What the clusters of a report show

Specification, section 4.5, items 1 to 4 and 6.

The clusters of a profile are read off the violations of the report alone. Each of
them is there exactly when the tree or the graph holds something to show, and shows
all of it:

| cluster | shows |
| --- | --- |
| architecture contract | the layers that modules lack, the nodes in no layer, the modules of both |
| layer boundary | the edges that break the layer matrix, with the layers of their ends |
| import resolution | the files and targets of the imports without a target |
| dependency cycle | the cycles of the graph, in order; all of them, unless names hold arrows |
| test contract gap | the modules with faulty tests |

There is one signal for each kind of damage to the structure (`length_signals`).
-/

import Strata.Proofs.Failure.Evidence
import Strata.Proofs.Graph.CycleText

namespace Strata

open Text

namespace Diagnosis

/-! ### What a profile should show -/

/-- A list holds what satisfies `P`, in increasing order. -/
def Lists (xs : List String) (P : String → Prop) : Prop :=
  xs.Pairwise (· < ·) ∧ ∀ x, x ∈ xs ↔ P x

theorem lists_ordered {texts : List String} {P : String → Prop} (h : ∀ x, x ∈ texts ↔ P x) :
    Lists (ordered texts) P := ⟨pairwise_ordered texts, fun x => mem_ordered.trans (h x)⟩

/-- A cluster is there exactly when there is something to show, and shows it. -/
inductive Shows (something : Prop) (shown : Cluster → Prop) : Option Cluster → Prop where
  | nothing : ¬ something → Shows something shown none
  | cluster {cluster : Cluster} : something → shown cluster → Shows something shown (some cluster)

variable (files : Files) (root : Path) (c : Contract) (g : ImportGraph) (r : Report)

/-- A module lacks a layer. -/
def IsMissing (layer : String) : Prop := ∃ d, Lacks files root c d layer

/-- A node lies in no layer. -/
def IsStray (g : ImportGraph) (n : Graph.Node) : Prop := n ∈ g.nodes ∧ n.place.unknownLayer?.isSome

/-- The structure: the layers that modules lack, the nodes in no layer, and the
modules of both. -/
def ShowsArchitecture : Option Cluster → Prop :=
  Shows ((∃ layer, IsMissing files root c layer) ∨ ∃ n, IsStray g n) fun cluster =>
    ∃ modules layers strays, cluster = .architectureContract modules layers strays ∧
      Lists modules (fun m => (∃ d layer, Lacks files root c d layer ∧ d.name = m) ∨
        ∃ n, IsStray g n ∧ n.place.module? = some m) ∧
      Lists layers (IsMissing files root c) ∧
      Lists strays fun file => ∃ n, IsStray g n ∧ n.relativePath = file

/-- A denied import stands for an edge: its files are those of the ends and its
layers are those of the nodes. -/
def IsDenied (e : Graph.Edge) (l : LayerEdge) : Prop :=
  l.file = g.nameOf e.source ∧ l.target = g.nameOf e.target ∧
    g.layerOf? e.source = some l.sourceLayer ∧ g.layerOf? e.target = some l.targetLayer ∧
    c.allowsImport l.sourceLayer l.targetLayer = false

/-- The layers: one denied import for each violation of the layer matrix, which is
one for each edge that breaks it. -/
def ShowsBoundary : Option Cluster → Prop :=
  Shows (∃ e ∈ g.edges, g.BreaksMatrix c e) fun cluster =>
    ∃ sources imports, cluster = .layerBoundaryViolation sources imports ∧
      Lists sources (fun file => ∃ e ∈ g.edges, g.BreaksMatrix c e ∧ g.nameOf e.source = file) ∧
      List.Forall₂ (fun v l => v.file = l.file ∧ v.target = some l.target)
        (ofRule .layerMatrix r.violations) imports ∧
      ∃ edges : List Graph.Edge, edges.Nodup ∧
        (∀ e, e ∈ edges ↔ e ∈ g.edges ∧ g.BreaksMatrix c e) ∧
        List.Forall₂ (IsDenied c g) edges imports

/-- The imports: the files and the targets of the violations about them. -/
def ShowsImports : Option Cluster → Prop :=
  Shows (∃ v, v ∈ ofRule .missingTarget r.violations) fun cluster =>
    ∃ sources targets, cluster = .importResolutionError sources targets ∧
      Lists sources (fun file => ∃ v ∈ ofRule .missingTarget r.violations, v.file = file) ∧
      Lists targets fun text => ∃ v ∈ ofRule .missingTarget r.violations, v.target = some text

/-- The cycles: those of the report in their order, equal texts once. Where no node
has an arrow in its name, no two texts are equal and none is left out. -/
def ShowsCycles : Option Cluster → Prop :=
  Shows (r.cycles ≠ []) fun cluster =>
    ∃ texts, cluster = .dependencyCycle texts ∧
      texts = (r.cycles.map (join " -> ")).eraseDups ∧
      ((∀ n ∈ g.nodes, ¬ " -> ".toList <:+: n.relativePath.toList) →
        texts = r.cycles.map (join " -> "))

/-- Something is wrong with the tests of a module. -/
def HasFaultyTests (d : ModuleDirectory) : Prop :=
  IsModule files root c d ∧ ∃ vs, Tests.scanModule files root c d = .ok vs ∧ vs ≠ []

/-- The tests: the modules of the violations about them, which are those with faulty
tests. -/
def ShowsGap : Option Cluster → Prop :=
  Shows (∃ d, HasFaultyTests files root c d) fun cluster =>
    ∃ modules, cluster = .testContractGap modules ∧
      Lists modules (fun m => ∃ v ∈ r.violations,
        startsWith Rule.testFamily v.ruleId = true ∧ v.target = some m) ∧
      Lists modules fun m => ∃ d, HasFaultyTests files root c d ∧ d.name = m

/-- Some module holds a directory that is no layer. -/
def HasUnknownLayer : Prop := ∃ n ∈ g.nodes, ∃ m segment, n.place = .unknownModuleLayer m segment

/-- Some directory of the source root is neither a layer nor allowed. -/
def HasUnknownTopLevel : Prop := ∃ n ∈ g.nodes, ∃ segment, n.place = .unknownTopLevel segment

open Classical in
/-- How many kinds of damage there are: one for each missing layer, and one for each
of the two ways in which nodes lie in no layer. -/
noncomputable def damage (layers : List String) : Nat :=
  layers.length + (if HasUnknownLayer g then 1 else 0) + if HasUnknownTopLevel g then 1 else 0

/-! ### The evidence -/

/-- The signals of missing layers and those of rules differ, so a list of them is as
long as the lists of both. -/
theorem length_of_mem_iff {signals layers : List String} {rules : List Rule}
    (hsignals : signals.Nodup) (hlayers : layers.Nodup) (hrules : rules.Nodup)
    (hplace : ∀ rule ∈ rules, rule ∈ Graph.placeRules)
    (hmem : ∀ signal, signal ∈ signals ↔
      (∃ layer ∈ layers, "missing_layer:" ++ layer = signal) ∨ ∃ rule ∈ rules, rule.id = signal) :
    signals.length = layers.length + rules.length := by
  have hapart : ∀ rule ∈ Graph.placeRules, ∀ layer, "missing_layer:" ++ layer ≠ rule.id := by
    have hhead : ∀ rule ∈ Graph.placeRules, rule.id.toList.head? ≠ some 'm' := by decide
    intro rule hrule layer heq
    refine hhead rule hrule ?_
    rw [← heq, String.toList_append]
    rfl
  have hnodup : (layers.map ("missing_layer:" ++ ·) ++ rules.map Rule.id).Nodup := by
    refine List.nodup_append.2 ⟨?_, ?_, ?_⟩
    · exact hlayers.map fun a b heq => (String.append_right_inj _).1 heq
    · exact hrules.map fun a b heq => Rule.id_injective heq
    · intro s hs s' hs' heq
      obtain ⟨layer, -, rfl⟩ := List.mem_map.1 hs
      obtain ⟨rule, hrule, rfl⟩ := List.mem_map.1 hs'
      exact hapart rule (hplace rule hrule) layer heq
  have hperm : signals.Perm (layers.map ("missing_layer:" ++ ·) ++ rules.map Rule.id) := by
    refine (List.perm_ext_iff_of_nodup hsignals hnodup).2 fun signal => ?_
    rw [hmem, List.mem_append, List.mem_map, List.mem_map]
  rw [hperm.length_eq, List.length_append, List.length_map, List.length_map]

section Evidence

variable {files : Files} {root : Path} {c : Contract} {g : ImportGraph} {r : Report}
  {layout tests others : List Violation} (hp : Report.Parts files root c r g layout tests others)
include hp

theorem exists_missing_iff {P : Violation → Prop} :
    (∃ v ∈ r.violations.filter isMissingLayer, P v) ↔
      ∃ d layer, Lacks files root c d layer ∧ P (Structure.missingLayer c d.name layer) := by
  simp only [hp.mem_missing_iff]
  constructor
  · rintro ⟨_, ⟨d, layer, hlacks, rfl⟩, hP⟩
    exact ⟨d, layer, hlacks, hP⟩
  · rintro ⟨d, layer, hlacks, hP⟩
    exact ⟨_, ⟨d, layer, hlacks, rfl⟩, hP⟩

theorem exists_unknown_iff {P : Violation → Prop} {Q : Graph.Node → Prop}
    (hPQ : ∀ n ∈ g.nodes, ∀ v, Graph.unknownLayerViolation? n = some v → (P v ↔ Q n)) :
    (∃ v ∈ r.violations.filter isUnknownLayer, P v) ↔ ∃ n, IsStray g n ∧ Q n := by
  simp only [hp.mem_unknown_iff]
  constructor
  · rintro ⟨v, ⟨n, hn, hv⟩, hP⟩
    have hsome : n.place.unknownLayer?.isSome := by
      rw [← Graph.isSome_unknownLayerViolation, hv]
      rfl
    exact ⟨n, ⟨hn, hsome⟩, (hPQ n hn v hv).1 hP⟩
  · rintro ⟨n, ⟨hn, hsome⟩, hQ⟩
    rw [← Graph.isSome_unknownLayerViolation] at hsome
    obtain ⟨v, hv⟩ := Option.isSome_iff_exists.1 hsome
    exact ⟨v, ⟨n, hn, hv⟩, (hPQ n hn v hv).2 hQ⟩

variable (hwell : files.top.WellNamed)
include hwell

theorem lists_modules :
    Lists (Evidence.ofViolations c r.violations).modules fun m =>
      (∃ d layer, Lacks files root c d layer ∧ d.name = m) ∨
        ∃ n, IsStray g n ∧ n.place.module? = some m := by
  refine lists_ordered fun m => ?_
  rw [List.mem_append, List.mem_map, List.mem_filterMap, exists_missing_iff hp]
  refine or_congr ?_ (exists_unknown_iff hp fun n hn v hv => ?_)
  · refine exists_congr fun d => exists_congr fun layer => and_congr_right fun hlacks => ?_
    have hname : lastSegment (c.modulePath d.name) = d.name :=
      lastSegment_modulePath (hlacks.isModule.isName hwell)
    show lastSegment (c.modulePath d.name) = m ↔ _
    rw [hname]
  · obtain ⟨hfile, -⟩ := Graph.unknownLayerViolation_place hv
    rw [hfile, (ImportGraph.place_of_mem_nodes hp.build hn).2]

theorem lists_missingLayers :
    Lists (Evidence.ofViolations c r.violations).missingLayers (IsMissing files root c) := by
  refine lists_ordered fun layer => ?_
  rw [List.mem_filter, List.mem_map, exists_missing_iff hp, decide_eq_true_eq]
  constructor
  · rintro ⟨⟨d, _, hlacks, rfl⟩, -⟩
    exact ⟨d, hlacks⟩
  · rintro ⟨d, hlacks⟩
    exact ⟨⟨d, layer, hlacks, rfl⟩, Structure.layer_ne_empty_of_lacks hwell hp.scanLayout hlacks⟩

omit hwell in
theorem lists_unknownLayerFiles :
    Lists (Evidence.ofViolations c r.violations).unknownLayerFiles fun file =>
      ∃ n, IsStray g n ∧ n.relativePath = file := by
  refine lists_ordered fun file => ?_
  rw [List.mem_map]
  refine exists_unknown_iff hp fun n _ v hv => ?_
  rw [(Graph.unknownLayerViolation_place hv).1]

omit hwell in
theorem exists_unknown_ruleId_iff {id : String} :
    (∃ v ∈ r.violations.filter isUnknownLayer, v.ruleId = id) ↔
      HasUnknownLayer g ∧ id = Rule.unknownLayer.id ∨
        HasUnknownTopLevel g ∧ id = Rule.unknownTopLevel.id := by
  have hnode : ∀ n ∈ g.nodes, ∀ v, Graph.unknownLayerViolation? n = some v →
      (v.ruleId = id ↔
        (∃ m segment, n.place = .unknownModuleLayer m segment) ∧ id = Rule.unknownLayer.id ∨
          (∃ segment, n.place = .unknownTopLevel segment) ∧ id = Rule.unknownTopLevel.id) := by
    intro n _ v hv
    rcases Graph.unknownLayerViolation_place hv with
      ⟨-, ⟨hid, m, segment, hplace⟩ | ⟨hid, segment, hplace⟩⟩ <;> simp [hid, hplace, eq_comm]
  rw [exists_unknown_iff hp hnode]
  constructor
  · rintro ⟨n, ⟨hn, -⟩, ⟨hplace, hid⟩ | ⟨hplace, hid⟩⟩
    · exact .inl ⟨⟨n, hn, hplace⟩, hid⟩
    · exact .inr ⟨⟨n, hn, hplace⟩, hid⟩
  · rintro (⟨⟨n, hn, m, segment, hplace⟩, hid⟩ | ⟨⟨n, hn, segment, hplace⟩, hid⟩)
    · exact ⟨n, ⟨hn, by rw [hplace]; rfl⟩, .inl ⟨⟨m, segment, hplace⟩, hid⟩⟩
    · exact ⟨n, ⟨hn, by rw [hplace]; rfl⟩, .inr ⟨⟨segment, hplace⟩, hid⟩⟩

omit hwell in
/-- The kinds of damage in the evidence. -/
theorem mem_signals_iff {signal : String} :
    signal ∈ (Evidence.ofViolations c r.violations).signals ↔
      (∃ layer, IsMissing files root c layer ∧ "missing_layer:" ++ layer = signal) ∨
        HasUnknownLayer g ∧ signal = Rule.unknownLayer.id ∨
          HasUnknownTopLevel g ∧ signal = Rule.unknownTopLevel.id := by
  rw [← exists_unknown_ruleId_iff hp]
  refine mem_ordered.trans ?_
  rw [List.mem_append, List.mem_map, List.mem_map, exists_missing_iff hp]
  refine or_congr_left ?_
  constructor
  · rintro ⟨d, layer, hlacks, rfl⟩
    exact ⟨layer, ⟨d, hlacks⟩, rfl⟩
  · rintro ⟨layer, ⟨d, hlacks⟩, rfl⟩
    exact ⟨d, layer, hlacks, rfl⟩

/-- There is one signal for each kind of damage. -/
theorem length_signals :
    (Evidence.ofViolations c r.violations).signals.length =
      damage g (Evidence.ofViolations c r.violations).missingLayers := by
  classical
  obtain ⟨hincreasing, hlayers⟩ := lists_missingLayers hp hwell
  set layers := (Evidence.ofViolations c r.violations).missingLayers
  let rules : List Rule :=
    (if HasUnknownLayer g then [.unknownLayer] else []) ++
      if HasUnknownTopLevel g then [.unknownTopLevel] else []
  have hrules : rules.Nodup ∧ ∀ rule ∈ rules, rule ∈ Graph.placeRules := by
    simp only [rules]
    split_ifs <;> decide
  have hsignals : (Evidence.ofViolations c r.violations).signals.Nodup :=
    nodup_of_increasing (pairwise_ordered _)
  rw [length_of_mem_iff hsignals (nodup_of_increasing hincreasing) hrules.1 hrules.2, damage,
    Nat.add_assoc]
  · simp only [rules]
    split_ifs <;> rfl
  · intro signal
    rw [mem_signals_iff hp]
    refine or_congr (exists_congr fun layer => and_congr_left' (hlayers layer).symm) ?_
    by_cases hlayer : HasUnknownLayer g <;> by_cases htop : HasUnknownTopLevel g <;>
      simp [rules, hlayer, htop, eq_comm]

omit hwell in
/-- There is evidence when a layer is missing or a node lies in none. -/
theorem isEmpty_eq_false_iff :
    (Evidence.ofViolations c r.violations).isEmpty = false ↔
      (∃ layer, IsMissing files root c layer) ∨ ∃ n, IsStray g n := by
  have hmissing : (∃ v, v ∈ r.violations.filter isMissingLayer) ↔
      ∃ layer, IsMissing files root c layer := by
    have h := exists_missing_iff hp (P := fun _ => True)
    simp only [and_true] at h
    exact h.trans exists_comm
  have hunknown : (∃ v, v ∈ r.violations.filter isUnknownLayer) ↔ ∃ n, IsStray g n := by
    have h := exists_unknown_iff hp (P := fun _ => True) (Q := fun _ => True)
      fun _ _ _ _ => Iff.rfl
    simpa only [and_true] using h
  rw [← hmissing, ← hunknown, ← exists_or]
  unfold Evidence.isEmpty
  rw [List.isEmpty_eq_false_iff_exists_mem]
  -- there is a signal exactly when one of the two kinds of violations was picked
  constructor
  · rintro ⟨signal, hsignal⟩
    rcases List.mem_append.1 (mem_ordered.1 hsignal) with hmem | hmem
    · obtain ⟨v, hv, -⟩ := List.mem_map.1 hmem
      exact ⟨v, .inl hv⟩
    · obtain ⟨v, hv, -⟩ := List.mem_map.1 hmem
      exact ⟨v, .inr hv⟩
  · rintro ⟨v, hv | hv⟩
    · exact ⟨_, mem_ordered.2 (List.mem_append_left _ (List.mem_map_of_mem hv))⟩
    · exact ⟨_, mem_ordered.2 (List.mem_append_right _ (List.mem_map_of_mem hv))⟩

/-- **The cluster of the structure** shows the missing layers and the nodes in no
layer. -/
theorem showsArchitecture :
    ShowsArchitecture files root c g (Evidence.ofViolations c r.violations).cluster? := by
  have hsome := isEmpty_eq_false_iff hp
  unfold Evidence.cluster?
  split
  · rename_i hempty
    exact .nothing fun hthere => by simp [hsome.2 hthere] at hempty
  · rename_i hempty
    exact .cluster (hsome.1 (Bool.eq_false_iff.2 hempty))
      ⟨_, _, _, rfl, lists_modules hp hwell, lists_missingLayers hp hwell,
        lists_unknownLayerFiles hp⟩

omit hwell in
/-- The layers that a diagnosis reads off the paths are those of the nodes. -/
theorem layerText_nameOf {v : Nat} {layer : String} (h : g.layerOf? v = some layer) :
    layerText c (g.nameOf v) = layer := by
  obtain ⟨place, hplace, hlayer⟩ := Option.bind_eq_some_iff.1 h
  obtain ⟨n, hn, rfl⟩ := Option.map_eq_some_iff.1 hplace
  have hname : g.nameOf v = n.relativePath := by
    rw [ImportGraph.nameOf, hn]
    rfl
  have hclass := (ImportGraph.place_of_mem_nodes hp.build (Array.mem_of_getElem? hn)).2
  rw [layerText, hname, ← hclass, hlayer]
  rfl

omit hwell in
/-- The violation of an edge that breaks the layer matrix shows the denied import. -/
theorem isDenied_layerEdge {e : Graph.Edge} (h : g.BreaksMatrix c e) (message : String) :
    IsDenied c g e (layerEdge c
      (.error .layerMatrix (g.nameOf e.source) message (some (g.nameOf e.target)))) := by
  obtain ⟨a, b, ha, hb, hdenied⟩ := h
  have hsource : layerText c (g.nameOf e.source) = a := layerText_nameOf hp ha
  have htarget : layerText c (g.nameOf e.target) = b := layerText_nameOf hp hb
  refine ⟨rfl, rfl, ha.trans (congrArg some hsource.symm),
    hb.trans (congrArg some htarget.symm), ?_⟩
  rw [← hdenied, ← hsource, ← htarget]
  rfl

/-- **The cluster of the layers** shows the edges that break the layer matrix. -/
theorem showsBoundary : ShowsBoundary c g r (layerBoundary? c r.violations) := by
  obtain ⟨edges, hnodup, hmem, hall⟩ := hp.matrix hwell
  have hdenied : List.Forall₂ (IsDenied c g) edges
      ((ofRule .layerMatrix r.violations).map (layerEdge c)) := by
    refine List.forall₂_map_right_iff.2 (((List.forall₂_and_left _ _).2
      ⟨fun e he => (hmem e).1 he, hall⟩).imp ?_)
    rintro e _ ⟨⟨-, hbreaks⟩, message, rfl⟩
    exact isDenied_layerEdge hp hbreaks message
  have hrecords : List.Forall₂ (fun v l => v.file = LayerEdge.file l ∧ v.target = some l.target)
      (ofRule .layerMatrix r.violations)
      ((ofRule .layerMatrix r.violations).map (layerEdge c)) := by
    refine List.forall₂_map_right_iff.2 (List.forall₂_same.2 fun v hv => ⟨rfl, ?_⟩)
    obtain ⟨hv, hid⟩ := mem_ofRule.1 hv
    exact (hp.regular v hv).target_eq hid rfl
  have hfiles : (ofRule .layerMatrix r.violations).map Violation.file =
      edges.map fun e => g.nameOf e.source := by
    rw [← List.forall₂_eq_eq_eq, List.forall₂_map_left_iff, List.forall₂_map_right_iff]
    refine hall.flip.imp ?_
    rintro _ e ⟨message, rfl⟩
    rfl
  -- the cluster is left out just when no edge is denied
  unfold layerBoundary?
  split
  · rename_i hnil
    rw [hnil, List.forall₂_nil_right_iff] at hall
    exact .nothing fun ⟨e, he⟩ => by simp [hall, ← hmem] at he
  · rename_i hne
    have hedges : edges ≠ [] := by
      rintro rfl
      exact hne (List.forall₂_nil_left_iff.1 hall)
    obtain ⟨e, he⟩ := List.exists_mem_of_ne_nil edges hedges
    refine .cluster ⟨e, (hmem e).1 he⟩
      ⟨_, _, rfl, lists_ordered fun file => ?_, hrecords, edges, hnodup, hmem, hdenied⟩
    rw [hfiles, List.mem_map]
    simp only [hmem, and_assoc]

omit hp hwell in
/-- **The cluster of the imports** shows the files and targets of the violations. -/
theorem showsImports : ShowsImports r (importResolution? r.violations []) := by
  have hfiles : Lists (ordered ((ofRule .missingTarget r.violations).map Violation.file))
      fun file => ∃ v ∈ ofRule .missingTarget r.violations, v.file = file :=
    lists_ordered fun file => List.mem_map
  have htargets : Lists (ordered ((ofRule .missingTarget r.violations).filterMap Violation.target))
      fun text => ∃ v ∈ ofRule .missingTarget r.violations, v.target = some text :=
    lists_ordered fun text => List.mem_filterMap
  unfold importResolution?
  simp only [List.flatMap_nil, List.filterMap_nil, List.map_nil, List.append_nil]
  split
  · rename_i hempty
    refine .nothing fun ⟨v, hv⟩ => ?_
    have hfile := (hfiles.2 v.file).2 ⟨v, hv, rfl⟩
    rw [Bool.and_eq_true, List.isEmpty_iff] at hempty
    rw [hempty.1] at hfile
    exact absurd hfile List.not_mem_nil
  · rename_i hempty
    refine .cluster ?_ ⟨_, _, rfl, hfiles, htargets⟩
    refine List.exists_mem_of_ne_nil _ fun hnil => hempty ?_
    rw [hnil]
    rfl

/-- **The cluster of the cycles** shows the cycles of the report. -/
theorem showsCycles
    (hplain : ∀ tree, files.find (c.sourceDirectory root) = .ok tree → tree.Plain) :
    ShowsCycles g r (dependencyCycle? r.violations) := by
  have hdistinct := ImportGraph.distinctNames_of_build hwell hplain hp.build
  have hcycles : r.cycles = (Graph.shownCycles g).map Graph.Cycle.path :=
    hp.cycles.trans (ImportGraph.reportsCycles hp.build).cycles
  have htexts : ((ofRule .cycle r.violations).map cycleText) = r.cycles.map (join " -> ") := by
    rw [hp.ofRule_cycle hdistinct, hcycles, List.map_map, List.map_map]
    rfl
  unfold dependencyCycle?
  split
  · rename_i hnil
    rw [hnil] at htexts
    exact .nothing fun hne => hne (List.map_eq_nil_iff.1 htexts.symm)
  · rename_i hne
    refine .cluster (fun hnil => ?_) ⟨_, rfl, by rw [← htexts], fun harrows => ?_⟩
    · rw [hnil] at htexts
      exact hne (List.map_eq_nil_iff.1 htexts)
    · have hnodup := ImportGraph.nodup_cycleTexts hwell hplain hp.build harrows
      rw [← hp.cycles] at hnodup
      rw [htexts, eraseDups_eq_self hnodup]

omit hwell in
/-- The modules of the violations about tests are those with faulty tests. -/
theorem exists_gap_target_iff {m : String} :
    (∃ v ∈ r.violations.filter fun v => startsWith Rule.testFamily v.ruleId,
        v.target = some m) ↔
      ∃ d, HasFaultyTests files root c d ∧ d.name = m := by
  constructor
  · rintro ⟨v, hv, htarget⟩
    obtain ⟨d, hd, found, hfound, hv⟩ := hp.mem_gap_iff.1 hv
    rw [Tests.target_of_mem_scanModule hfound hv] at htarget
    exact ⟨d, ⟨hd, found, hfound, List.ne_nil_of_mem hv⟩, Option.some.inj htarget⟩
  · rintro ⟨d, ⟨hd, found, hfound, hne⟩, rfl⟩
    obtain ⟨v, hv⟩ := List.exists_mem_of_ne_nil found hne
    exact ⟨v, hp.mem_gap_iff.2 ⟨d, hd, found, hfound, hv⟩,
      Tests.target_of_mem_scanModule hfound hv⟩

omit hwell in
/-- **The cluster of the tests** shows the modules with faulty tests. -/
theorem showsGap : ShowsGap files root c r (testGap? r.violations) := by
  -- every violation about tests has a target, so the file is never read for the module
  have htargets : ∀ v ∈ r.violations.filter fun v => startsWith Rule.testFamily v.ruleId,
      v.target = some (v.target.getD (lastSegment v.file)) := by
    intro v hv
    obtain ⟨d, -, found, hfound, hv⟩ := hp.mem_gap_iff.1 hv
    rw [Tests.target_of_mem_scanModule hfound hv]
    rfl
  have hrecords : Lists (ordered ((r.violations.filter fun v =>
        startsWith Rule.testFamily v.ruleId).map fun v => v.target.getD (lastSegment v.file)))
      fun m => ∃ v ∈ r.violations.filter fun v => startsWith Rule.testFamily v.ruleId,
        v.target = some m := by
    refine lists_ordered fun m => ?_
    rw [List.mem_map]
    refine exists_congr fun v => and_congr_right fun hv => ?_
    rw [htargets v hv, Option.getD_some, Option.some_inj]
  unfold testGap?
  split
  · rename_i hnil
    refine .nothing fun ⟨d, hd⟩ => ?_
    obtain ⟨v, hv, -⟩ := (exists_gap_target_iff hp).2 ⟨d, hd, rfl⟩
    rw [hnil] at hv
    exact absurd hv List.not_mem_nil
  · rename_i hne
    obtain ⟨v, hv⟩ := List.exists_mem_of_ne_nil _ hne
    obtain ⟨d, hd, -⟩ := (exists_gap_target_iff hp).1 ⟨v, hv, htargets v hv⟩
    refine .cluster ⟨d, hd⟩ ⟨_, rfl, ?_, ?_⟩
    · simpa only [List.mem_filter, and_assoc] using hrecords
    · simpa only [exists_gap_target_iff hp] using hrecords

end Evidence

end Diagnosis

end Strata
