/-
# The order in which components are reported

Specification, section 4.3: the components as the algorithm of Tarjan finds them.

Nobody sorts the components: their order follows from when they are reported. A step
reports at most one component, and its nodes were open until then
(`Search.Invariant.reported_step`). What was reported before is closed, and a closed node
leads to closed nodes only. So nothing leads from a component to one that is reported
later, at every moment of the search (`Search.ReportsBackward.step`,
`Search.reportsBackward_foldl`), and at its end every edge between two components leads to
the one that was reported first (`components_reverse_topological`).
-/

import Strata.Proofs.Graph.Components

namespace Strata
namespace Graph

variable {g : Adjacency}

namespace Search

variable {s : Search}

/-- Nothing leads from a reported component to one that was reported later. -/
def ReportsBackward (g : Adjacency) (s : Search) : Prop :=
  s.reported.Pairwise fun later earlier => ∀ v ∈ earlier, ∀ w ∈ later, ¬ Reaches g v w

theorem reported_look (f : Frame) (outer : List Frame) (w : Nat) (rest : List Nat) :
    (s.look g f outer w rest).reported = s.reported := by
  unfold Search.look
  split <;> rfl

/-- **A step reports open nodes.** It leaves the reported components as they are, or adds
one to them whose nodes were open. -/
theorem Invariant.reported_step (h : Invariant g s) :
    (s.step g).reported = s.reported ∨
      ∃ c, (s.step g).reported = c :: s.reported ∧ ∀ v ∈ c, ∃ n, s.markOf v = .open n := by
  unfold Search.step
  split
  · exact .inl rfl
  · rename_i f outer hf
    split
    · obtain ⟨above, below, hstack, hlayer, -, -⟩ := (hf ▸ h.layered).exists_layer
      unfold Search.finish
      split
      · refine .inr ⟨_, h.reported_report hstack, fun v hv => ?_⟩
        exact exists_number_of_mem_top hlayer (List.mem_mergeSort.1 hv)
      · exact .inl rfl
    · exact .inl (reported_look f outer _ _)

/-- **A step reports against the edges**: an open node is not reached from one that was
reported before. -/
theorem ReportsBackward.step (k : ReportsBackward g s) (h : Invariant g s) :
    ReportsBackward g (s.step g) := by
  rcases h.reported_step with hsame | ⟨c, hc, hopen⟩
  · rw [ReportsBackward, hsame]
    exact k
  · rw [ReportsBackward, hc]
    refine List.pairwise_cons.2 ⟨fun earlier hearlier v hv w hw hreach => ?_, k⟩
    have hclosed : s.markOf v = .closed :=
      ((h.mem_reported v).1 (List.mem_flatten.2 ⟨earlier, hearlier, hv⟩)).2
    obtain ⟨n, hn⟩ := hopen w hw
    rw [hreach.keeps h.closed hclosed] at hn
    cases hn

theorem ReportsBackward.explore (k : ReportsBackward g s) (h : Resting g s) (v : Nat) :
    ReportsBackward g (explore g s v) := by
  unfold Search.explore
  split
  · rename_i hfresh
    have hrun : Invariant g (run g (s.discover g v)) ∧
        ReportsBackward g (run g (s.discover g v)) :=
      run_keeps (P := fun s => Invariant g s ∧ ReportsBackward g s)
        (fun _ hs => ⟨hs.1.step, hs.2.step hs.1⟩) ⟨h.discover hfresh, k⟩
    exact hrun.2
  · exact k
  · exact k

theorem reportsBackward_foldl (k : ReportsBackward g s) (h : Resting g s) (vs : List Nat) :
    ReportsBackward g (vs.foldl (explore g) s) := by
  induction vs generalizing s with
  | nil => exact k
  | cons v rest ih => exact ih (k.explore h v) (h.explore v)

end Search

/-- Nothing leads from a component to one behind it. -/
theorem components_pairwise (g : Adjacency) :
    (components g).Pairwise fun earlier later => ∀ v ∈ earlier, ∀ w ∈ later, ¬ Reaches g v w :=
  List.pairwise_reverse.2
    (Search.reportsBackward_foldl (s := .start g.size) .nil (.start g) (List.range g.size))

/-- **Components are reported in reverse topological order.** The two ends of an edge each lie
in a component. When these are different, the one that the edge leads to is reported first; and
they are the same exactly when a path leads back. Source: specification, section 4.3, cycle
detection. -/
theorem components_reverse_topological {v w : Nat} (hedge : w ∈ successors g v)
    (hw : w < g.size) :
    (∃ c ∈ components g, v ∈ c) ∧ (∃ c ∈ components g, w ∈ c) ∧
    ∀ (i j : Nat) (hi : i < (components g).length) (hj : j < (components g).length),
      v ∈ (components g)[i] → w ∈ (components g)[j] →
        (i ≠ j → j < i) ∧ (i = j ↔ Reaches g w v) := by
  have hv : v < g.size := by
    refine Nat.lt_of_not_le fun hle => ?_
    simp [successors, Array.getElem?_eq_none hle] at hedge
  have hholds {u : Nat} (hu : u < g.size) : ∃ c ∈ components g, u ∈ c :=
    List.mem_flatten.1 ((mem_flatten_components g u).2 hu)
  refine ⟨hholds hv, hholds hw, fun i j hi hj hvi hwj => ?_⟩
  have horder := List.pairwise_iff_getElem.1 (components_pairwise g)
  have hle : j ≤ i := Nat.le_of_not_lt fun hlt =>
    horder i j hi hj hlt v hvi w hwj (.single hedge)
  refine ⟨fun hne => Nat.lt_of_le_of_ne hle (Ne.symm hne), ?_⟩
  constructor
  · rintro rfl
    have hcomponent := isComponent_of_mem_components (List.getElem_mem hi)
    exact ((hcomponent.mem_iff v hvi w).1 hwj).2
  · intro hback
    refine Nat.le_antisymm (Nat.le_of_not_lt fun hlt => ?_) hle
    exact horder j i hj hi hlt w hwj v hvi hback

/-- Two nodes that lead to each other, one in front of them and one behind them. -/
def betweenTwo : Adjacency := #[[1], [2], [1, 3], []]

/-- The node behind the two is reported before them. -/
theorem components_reverse_topological_betweenTwo :
    3 ∈ successors betweenTwo 2 ∧ 3 < betweenTwo.size ∧
      components betweenTwo = [[3], [1, 2], [0]] ∧ (1 ≠ 0 → 0 < 1) ∧
      (1 = 0 ↔ Reaches betweenTwo 3 2) := by
  have hcomponents : components betweenTwo = [[3], [1, 2], [0]] := by
    simp [betweenTwo, components, successors, cutStack, closeAll, Search.start, Search.markOf,
      Search.explore, Search.run, Search.step, Search.discover, Search.look, Search.finish,
      Search.report, Search.withFrames, Frame.enter, Frame.lower, Frame.leaving, List.range,
      List.range.loop, List.mergeSort]
  have hedge : 3 ∈ successors betweenTwo 2 := by decide
  have hnode : 3 < betweenTwo.size := by decide
  obtain ⟨-, -, horder⟩ := components_reverse_topological hedge hnode
  exact ⟨hedge, hnode, hcomponents, horder 1 0 (by simp [hcomponents]) (by simp [hcomponents])
    (by simp [hcomponents]) (by simp [hcomponents])⟩

end Graph
end Strata
