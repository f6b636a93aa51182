/-
# The reported components are the strongly connected components

Specification, section 4.3: the components as the algorithm of Tarjan finds them.

Exploring from every node keeps the invariant of the search
(`Search.Invariant.explore`) and leaves no node fresh (`Search.foldl_explore`). No
frame is left between two explorations, so no node is open at the end: all are
closed, and the invariant says of the reported components what is claimed of
them (`components_exact`).
-/

import Strata.Proofs.Graph.Search

namespace Strata
namespace Graph

variable {g : Adjacency}

namespace Search

variable {s : Search}

/-- Between two explorations the search has no frame. -/
structure Resting (g : Adjacency) (s : Search) : Prop where
  invariant : Invariant g s
  frames : s.frames = []

theorem Resting.start (g : Adjacency) : Resting g (start g.size) := ⟨.start g, rfl⟩

/-- A resting search has no open node. -/
theorem Resting.markOf_ne_open (h : Resting g s) (v n : Nat) : s.markOf v ≠ .open n := by
  intro hopen
  have hmem : v ∈ s.stack := (h.invariant.mem_stack v).2 ⟨n, hopen⟩
  have hlayered : Layered g s.markOf [] s.stack := h.frames ▸ h.invariant.layered
  cases hstack : s.stack with
  | nil =>
    rw [hstack] at hmem
    exact absurd hmem List.not_mem_nil
  | cons w below =>
    rw [hstack] at hlayered
    cases hlayered

/-- An exploration begins with the invariant. -/
theorem Resting.discover (h : Resting g s) {v : Nat} (hfresh : s.markOf v = .fresh) :
    Invariant g (s.discover g v) := by
  refine Invariant.discover hfresh h.invariant
    (layered_discover hfresh h.invariant h.invariant.layered) ?_
  intro e he
  rw [h.frames] at he
  cases he

theorem Resting.explore (h : Resting g s) (v : Nat) : Resting g (explore g s v) := by
  unfold Search.explore
  split
  · rename_i hfresh
    obtain ⟨-, -, hframes⟩ := run_eq_iterate g (s.discover g v)
    exact ⟨run_keeps (fun _ => Invariant.step) (h.discover hfresh), hframes⟩
  · exact h
  · exact h

theorem markOf_explore_ne_fresh {w : Nat} (h : s.markOf w ≠ .fresh) (v : Nat) :
    (explore g s v).markOf w ≠ .fresh := by
  unfold Search.explore
  split
  · rename_i hfresh
    refine run_keeps (P := fun s => s.markOf w ≠ .fresh) (fun _ => markOf_step_ne_fresh) ?_
    rw [markOf_discover hfresh]
    split
    · simp
    · exact h
  · exact h
  · exact h

theorem markOf_explore_self (g : Adjacency) (s : Search) (v : Nat) :
    (explore g s v).markOf v ≠ .fresh := by
  by_cases hfresh : s.markOf v = .fresh
  · have hexplore : explore g s v = run g (s.discover g v) := by
      unfold Search.explore
      rw [hfresh]
    rw [hexplore]
    refine run_keeps (P := fun s => s.markOf v ≠ .fresh) (fun _ => markOf_step_ne_fresh) ?_
    rw [markOf_discover hfresh, if_pos rfl]
    simp
  · exact markOf_explore_ne_fresh hfresh v

/-- Exploring from some nodes discovers them all. -/
theorem foldl_explore (h : Resting g s) (vs : List Nat) :
    Resting g (vs.foldl (explore g) s) ∧
      ∀ w, w ∈ vs ∨ s.markOf w ≠ .fresh → (vs.foldl (explore g) s).markOf w ≠ .fresh := by
  induction vs generalizing s with
  | nil => exact ⟨h, fun w hw => hw.resolve_left List.not_mem_nil⟩
  | cons v rest ih =>
    obtain ⟨hrest, hmarks⟩ := ih (h.explore v)
    refine ⟨hrest, fun w hw => hmarks w ?_⟩
    rcases hw with hw | hw
    · rcases List.mem_cons.1 hw with rfl | hw
      · exact .inr (markOf_explore_self g s w)
      · exact .inl hw
    · exact .inr (markOf_explore_ne_fresh hw v)

end Search

/-- The search after all explorations. -/
theorem exists_final (g : Adjacency) :
    ∃ s, components g = s.reported.reverse ∧ Search.Invariant g s ∧ ∀ v, s.markOf v = .closed := by
  obtain ⟨hrest, hmarks⟩ := Search.foldl_explore (.start g) (List.range g.size)
  refine ⟨_, rfl, hrest.invariant, fun v => ?_⟩
  have hfresh :
      ((List.range g.size).foldl (Search.explore g) (.start g.size)).markOf v ≠ .fresh := by
    refine hmarks v ?_
    by_cases hv : v < g.size
    · exact .inl (List.mem_range.2 hv)
    · refine .inr ?_
      rw [Search.markOf_start, if_neg hv]
      simp
  cases hmark : ((List.range g.size).foldl (Search.explore g) (.start g.size)).markOf v with
  | fresh => exact absurd hmark hfresh
  | «open» n => exact absurd hmark (hrest.markOf_ne_open v n)
  | closed => rfl

theorem mem_flatten_components (g : Adjacency) (v : Nat) :
    v ∈ (components g).flatten ↔ v < g.size := by
  obtain ⟨s, hs, hinv, hclosed⟩ := exists_final g
  have hreported := hinv.mem_reported v
  simpa [hs, hclosed v, List.mem_flatten] using hreported

theorem nodup_flatten_components (g : Adjacency) : (components g).flatten.Nodup := by
  obtain ⟨s, hs, hinv, -⟩ := exists_final g
  rw [hs]
  exact (s.reported.reverse_perm.flatten).nodup_iff.2 hinv.nodup_reported

theorem isComponent_of_mem_components {c : List Nat} (h : c ∈ components g) :
    IsComponent g c := by
  obtain ⟨s, hs, hinv, -⟩ := exists_final g
  rw [hs] at h
  exact hinv.isComponent c (List.mem_reverse.1 h)

/-- **The component search is exact.** Each run of it ends after finitely many steps; every node
is in one component, once; each component is increasing; and two nodes are in the same component
when each is reached from the other. Source: specification, section 4.3, cycle detection. -/
theorem components_exact (g : Adjacency) :
    (∀ s : Search, ∃ n, s.run g = (Search.step g)^[n] s ∧ (s.run g).frames = []) ∧
    (∀ v, (components g).flatten.count v = if v < g.size then 1 else 0) ∧
    (∀ c ∈ components g, c ≠ [] ∧ c.Pairwise (· < ·)) ∧
    ∀ v < g.size, ∀ w < g.size,
      (∃ c ∈ components g, v ∈ c ∧ w ∈ c) ↔ Reaches g v w ∧ Reaches g w v := by
  refine ⟨Search.run_eq_iterate g, fun v => ?_, fun c hc => ?_, fun v hv w _ => ?_⟩
  · rw [(nodup_flatten_components g).count]
    simp only [mem_flatten_components]
  · have hcomponent := isComponent_of_mem_components hc
    exact ⟨hcomponent.nonempty, hcomponent.increasing⟩
  · constructor
    · rintro ⟨c, hc, hvc, hwc⟩
      exact ((isComponent_of_mem_components hc).mem_iff v hvc w).1 hwc
    · intro hreach
      obtain ⟨c, hc, hvc⟩ := List.mem_flatten.1 ((mem_flatten_components g v).2 hv)
      exact ⟨c, hc, hvc, ((isComponent_of_mem_components hc).mem_iff v hvc w).2 hreach⟩

end Graph
end Strata
