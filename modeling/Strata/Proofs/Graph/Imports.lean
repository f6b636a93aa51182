/-
# Imports as a relation between nodes

The edges of an import graph relate its nodes; several edges may relate the same
two. The adjacency that the component search works on holds the same relation
(`mem_successors_adjacency`), so its components are those of the relation
(`mem_components_iff`).
-/

import Mathlib.Logic.Relation
import Strata.Graph.Basic
import Strata.Proofs.Graph.Components
import Strata.Proofs.Sorting

namespace Strata
namespace Graph

/-! ### Adjacency -/

/-- Inserting a number in order adds this number and no other. -/
theorem mem_insertNumber {n m : Nat} {numbers : List Nat} :
    m ∈ insertNumber n numbers ↔ m = n ∨ m ∈ numbers := by
  induction numbers with
  | nil => simp [insertNumber]
  | cons k rest ih =>
    unfold insertNumber
    split
    · simp
    · split
      · simp_all
      · simp only [List.mem_cons, ih]
        exact or_left_comm

/-- An edge that is inserted adds its target to the successors of its source, if that is a node. -/
theorem mem_successors_modify (g : Adjacency) (e : Edge) (v w : Nat) :
    w ∈ successors (g.modify e.source (insertNumber e.target)) v ↔
      w ∈ successors g v ∨ v < g.size ∧ e.source = v ∧ e.target = w := by
  rw [successors, successors, Array.getD_eq_getD_getElem?, Array.getD_eq_getD_getElem?,
    Array.getElem?_modify]
  by_cases hv : v < g.size
  · rw [Array.getElem?_eq_getElem hv]
    by_cases hsource : e.source = v
    · simp only [hsource, hv, if_pos, Option.map_some, Option.getD_some, mem_insertNumber,
        true_and]
      rw [or_comm, eq_comm (a := w)]
    · simp [hsource]
  · rw [Array.getElem?_eq_none (Nat.not_lt.1 hv)]
    simp [hv]

/-- Inserting edges adds no node. -/
theorem size_foldl_modify (edges : List Edge) (g : Adjacency) :
    (edges.foldl (fun g e => g.modify e.source (insertNumber e.target)) g).size = g.size := by
  induction edges generalizing g with
  | nil => rfl
  | cons e rest ih => exact (ih _).trans Array.size_modify

/-- After edges are inserted, the successors are those from before and the targets of the edges. -/
theorem mem_successors_foldl (edges : List Edge) (g : Adjacency) (v w : Nat) :
    w ∈ successors (edges.foldl (fun g e => g.modify e.source (insertNumber e.target)) g) v ↔
      w ∈ successors g v ∨ v < g.size ∧ ∃ e ∈ edges, e.source = v ∧ e.target = w := by
  induction edges generalizing g with
  | nil => simp
  | cons e rest ih =>
    rw [List.foldl_cons, ih, mem_successors_modify, Array.size_modify, or_assoc,
      ← and_or_left]
    simp

/-- An adjacency has a row for every node. -/
theorem size_adjacencyOf (size : Nat) (edges : List Edge) :
    (adjacencyOf size edges).size = size :=
  (size_foldl_modify edges _).trans Array.size_replicate

/-- The successors of a node are the targets of its edges. -/
theorem mem_successors_adjacencyOf {size : Nat} {edges : List Edge} {v w : Nat} :
    w ∈ successors (adjacencyOf size edges) v ↔
      v < size ∧ ∃ e ∈ edges, e.source = v ∧ e.target = w := by
  have hempty : w ∉ successors (Array.replicate size []) v := by
    rw [successors, Array.getD_eq_getD_getElem?, Array.getElem?_replicate]
    split <;> exact List.not_mem_nil
  rw [adjacencyOf, mem_successors_foldl, Array.size_replicate]
  exact or_iff_right hempty

end Graph

namespace ImportGraph

variable {g : ImportGraph}

/-- One node imports another, or itself. -/
def Imports (g : ImportGraph) (v w : Nat) : Prop := ∃ e ∈ g.edges, e.source = v ∧ e.target = w

/-- The source of every edge is a node. -/
def WellFormed (g : ImportGraph) : Prop := ∀ e ∈ g.edges, e.source < g.nodes.size

/-- A strongly connected component of the nodes under the imports, as an
increasing list: with each node all nodes that it reaches and that reach it. -/
structure IsStrongComponent (g : ImportGraph) (c : List Nat) : Prop where
  nonempty : c ≠ []
  increasing : c.Pairwise (· < ·)
  isNode : ∀ v ∈ c, v < g.nodes.size
  mem_iff : ∀ v ∈ c, ∀ w, w ∈ c ↔
    Relation.ReflTransGen g.Imports v w ∧ Relation.ReflTransGen g.Imports w v

/-- A component holds a cycle when it has two nodes, or a node that imports
itself. -/
def HoldsCycle (g : ImportGraph) (c : List Nat) : Prop :=
  2 ≤ c.length ∨ ∃ v ∈ c, g.Imports v v

/-- The adjacency of a graph relates the nodes that its imports relate. -/
theorem mem_successors_adjacency (h : g.WellFormed) {v w : Nat} :
    w ∈ Graph.successors g.adjacency v ↔ g.Imports v w := by
  rw [adjacency, Graph.mem_successors_adjacencyOf]
  refine and_iff_right_of_imp ?_
  rintro ⟨e, he, rfl, -⟩
  exact h e he

/-- One node reaches another in the adjacency when imports lead from one to the other. -/
theorem reaches_adjacency (h : g.WellFormed) {v w : Nat} :
    Graph.Reaches g.adjacency v w ↔ Relation.ReflTransGen g.Imports v w := by
  constructor
  · intro hreach
    induction hreach with
    | refl => exact .refl
    | step hs _ ih => exact .head ((mem_successors_adjacency h).1 hs) ih
  · intro hreach
    induction hreach using Relation.ReflTransGen.head_induction_on with
    | refl => exact .refl _
    | head hs _ ih => exact .step ((mem_successors_adjacency h).2 hs) ih

/-- Components that share a node are the same. -/
theorem IsStrongComponent.eq_of_mem {c c' : List Nat} (hc : g.IsStrongComponent c)
    (hc' : g.IsStrongComponent c') {v : Nat} (hv : v ∈ c) (hv' : v ∈ c') : c = c' := by
  refine eq_of_increasing (fun _ _ => Nat.lt_asymm) hc.increasing hc'.increasing fun w => ?_
  rw [hc.mem_iff v hv, hc'.mem_iff v hv']

/-- **The component search finds the components of the imports.** -/
theorem mem_components_iff (h : g.WellFormed) {c : List Nat} :
    c ∈ Graph.components g.adjacency ↔ g.IsStrongComponent c := by
  have hsize : g.adjacency.size = g.nodes.size := Graph.size_adjacencyOf _ _
  have hfound : ∀ c ∈ Graph.components g.adjacency, g.IsStrongComponent c := by
    intro c hc
    have hcomponent := Graph.isComponent_of_mem_components hc
    refine ⟨hcomponent.nonempty, hcomponent.increasing, fun v hv => ?_, fun v hv w => ?_⟩
    · rw [← hsize, ← Graph.mem_flatten_components]
      exact List.mem_flatten.2 ⟨c, hc, hv⟩
    · rw [hcomponent.mem_iff v hv w, reaches_adjacency h, reaches_adjacency h]
  refine ⟨hfound c, fun hstrong => ?_⟩
  obtain ⟨v, hv⟩ := List.exists_mem_of_ne_nil c hstrong.nonempty
  obtain ⟨c', hc', hv'⟩ := List.mem_flatten.1
    ((Graph.mem_flatten_components g.adjacency v).2 (hsize ▸ hstrong.isNode v hv))
  exact hstrong.eq_of_mem (hfound c' hc') hv hv' ▸ hc'

/-- No component is reported twice. -/
theorem nodup_components (g : ImportGraph) : (Graph.components g.adjacency).Nodup := by
  have hflat := Graph.nodup_flatten_components g.adjacency
  refine (List.nodup_flatten.1 hflat).2.imp_of_mem fun {c c'} hc _ hdisjoint heq => ?_
  obtain ⟨v, hv⟩ := List.exists_mem_of_ne_nil c (Graph.isComponent_of_mem_components hc).nonempty
  exact hdisjoint hv (heq ▸ hv)

/-- Every node lies in a strong component. -/
theorem exists_strongComponent (h : g.WellFormed) {v : Nat} (hv : v < g.nodes.size) :
    ∃ c, g.IsStrongComponent c ∧ v ∈ c := by
  have hsize : g.adjacency.size = g.nodes.size := Graph.size_adjacencyOf _ _
  obtain ⟨c, hc, hmem⟩ := List.mem_flatten.1
    ((Graph.mem_flatten_components g.adjacency v).2 (hsize ▸ hv))
  exact ⟨c, (mem_components_iff h).1 hc, hmem⟩

/-- Nodes that reach each other and import nothing else are a component. -/
theorem isStrongComponent_of_closed {c : List Nat} (hne : c ≠ []) (hincreasing : c.Pairwise (· < ·))
    (hnode : ∀ v ∈ c, v < g.nodes.size) (hclosed : ∀ v ∈ c, ∀ w, g.Imports v w → w ∈ c)
    (hreach : ∀ v ∈ c, ∀ w ∈ c, Relation.ReflTransGen g.Imports v w) : g.IsStrongComponent c := by
  refine ⟨hne, hincreasing, hnode, fun v hv w => ⟨fun hw => ?_, fun ⟨hvw, _⟩ => ?_⟩⟩
  · exact ⟨hreach v hv w hw, hreach w hw v hv⟩
  · clear * - hvw hv hclosed
    induction hvw with
    | refl => exact hv
    | tail _ hstep ih => exact hclosed _ ih _ hstep

/-- A component with a node on a cycle holds a cycle. -/
theorem IsStrongComponent.holdsCycle {c : List Nat} (hc : g.IsStrongComponent c) {v w : Nat}
    (hv : v ∈ c) (hvw : g.Imports v w) (hwv : Relation.ReflTransGen g.Imports w v) :
    g.HoldsCycle c := by
  have hw : w ∈ c := (hc.mem_iff v hv w).2 ⟨.single hvw, hwv⟩
  by_cases heq : w = v
  · exact .inr ⟨v, hv, heq ▸ hvw⟩
  · left
    match c, hv, hw with
    | [u], hv, hw =>
      exact absurd ((List.mem_singleton.1 hw).trans (List.mem_singleton.1 hv).symm) heq
    | _ :: _ :: _, _, _ => simp

/-- A component that holds a cycle has a node on a cycle. -/
theorem IsStrongComponent.exists_transGen {c : List Nat} (hc : g.IsStrongComponent c)
    (h : g.HoldsCycle c) : ∃ v, Relation.TransGen g.Imports v v := by
  rcases h with hlen | ⟨v, -, hself⟩
  · match c, hlen, hc with
    | v :: w :: rest, _, hc =>
      have hne : v < w := (List.pairwise_cons.1 hc.increasing).1 w List.mem_cons_self
      obtain ⟨hvw, hwv⟩ := (hc.mem_iff v List.mem_cons_self w).1 (by simp)
      rcases Relation.reflTransGen_iff_eq_or_transGen.1 hvw with heq | hvw
      · omega
      · exact ⟨v, hvw.trans_left hwv⟩
  · exact ⟨v, .single hself⟩

/-- **The imports are acyclic when no component holds a cycle.** -/
theorem acyclic_iff (h : g.WellFormed) :
    (∀ v, ¬ Relation.TransGen g.Imports v v) ↔
      ∀ c, g.IsStrongComponent c → ¬ g.HoldsCycle c := by
  constructor
  · intro hacyclic c hc hcycle
    obtain ⟨v, hv⟩ := hc.exists_transGen hcycle
    exact hacyclic v hv
  · intro hnone v hv
    obtain ⟨w, hvw, hwv⟩ := Relation.TransGen.head'_iff.1 hv
    obtain ⟨e, he, rfl, rfl⟩ := hvw
    obtain ⟨c, hc, hmem⟩ := exists_strongComponent h (h e he)
    exact hnone c hc (hc.holdsCycle hmem ⟨e, he, rfl, rfl⟩ hwv)

end ImportGraph

end Strata
