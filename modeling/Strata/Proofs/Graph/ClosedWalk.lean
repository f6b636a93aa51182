/-
# The walk that shows a component

The walk of a component goes on along successors within the component only, so
all its nodes are members (`mem_of_mem_walkOf`). The members that it misses are
listed beside it, so that both together name every member
(`cycleOf_names`).
-/

import Strata.Graph.Build

namespace Strata
namespace Graph

section Within

-- what the target and all successors have, all nodes of a walk have
variable {P : Nat → Prop} {next : Nat → List Nat} (hnext : ∀ v, ∀ w ∈ next v, P w)
include hnext

omit hnext in
theorem retrace_within {source : Nat} {origins : Origins} (horigins : ∀ e ∈ origins, P e.2)
    {fuel v : Nat} (hv : P v) {back : List Nat} (h : retrace origins source fuel v = some back) :
    ∀ u ∈ back, P u := by
  induction fuel generalizing v back with
  | zero =>
    rw [retrace] at h
    split at h <;> cases h
    exact fun _ hu => absurd hu List.not_mem_nil
  | succ fuel ih =>
    rw [retrace] at h
    split at h
    · cases h
      exact fun _ hu => absurd hu List.not_mem_nil
    · split at h
      · rename_i x hlookup
        obtain ⟨rest, hrest, rfl⟩ := Option.map_eq_some_iff.1 h
        obtain ⟨before, after, rfl, -⟩ := List.lookup_eq_some_iff.1 hlookup
        exact List.forall_mem_cons.2 ⟨hv, ih (horigins (v, x) (by simp)) hrest⟩
      · cases h

theorem searchBack?_within {source target : Nat} (htarget : P target) {fuel : Nat}
    {queue : List Nat} {origins : Origins} (hqueue : ∀ v ∈ queue, P v)
    (horigins : ∀ e ∈ origins, P e.2) {path : List Nat}
    (h : searchBack? next source target fuel queue origins = some path) : ∀ u ∈ path, P u := by
  induction fuel generalizing queue origins with
  | zero => cases h
  | succ fuel ih =>
    cases queue with
    | nil => cases h
    | cons v queue =>
      obtain ⟨hv, hqueue⟩ := List.forall_mem_cons.1 hqueue
      rw [searchBack?] at h
      split at h
      · obtain ⟨back, hback, rfl⟩ := Option.map_eq_some_iff.1 h
        intro u hu
        rcases List.mem_cons.1 (List.mem_reverse.1 hu) with rfl | hu
        · exact htarget
        · exact retrace_within horigins hv hback u hu
      · refine ih (List.forall_mem_append.2 ⟨hqueue, fun w hw => ?_⟩)
          (List.forall_mem_append.2 ⟨fun e he => ?_, horigins⟩) h
        · exact hnext v w (List.mem_filter.1 (List.mem_eraseDups.1 hw)).1
        · obtain ⟨w, -, rfl⟩ := List.mem_map.1 (List.mem_reverse.1 he)
          exact hv

theorem pathBack_within {size source target : Nat} (hsource : P source) (htarget : P target) :
    ∀ u ∈ pathBack next size source target, P u := by
  rw [pathBack]
  cases hpath : pathBack? next size source target with
  | none => exact fun u hu => List.mem_singleton.1 hu ▸ htarget
  | some path =>
    exact searchBack?_within hnext htarget (List.forall_mem_singleton.2 hsource)
      (fun _ he => absurd he List.not_mem_nil) hpath

/-- The walk so far, closed by a path back. -/
theorem reverse_append_pathBack_within {size current start : Nat} (hstart : P start)
    {earlier : List Nat} (hwalk : ∀ u ∈ current :: earlier, P u) :
    ∀ u ∈ (current :: earlier).reverse ++ pathBack next size current start, P u :=
  List.forall_mem_append.2 ⟨fun u hu => hwalk u (List.mem_reverse.1 hu),
    pathBack_within hnext (hwalk current List.mem_cons_self) hstart⟩

theorem wander_within {size start : Nat} (hstart : P start) {fuel current : Nat}
    {earlier : List Nat} (hwalk : ∀ u ∈ current :: earlier, P u) :
    ∀ u ∈ wander next size start fuel current earlier, P u := by
  induction fuel generalizing current earlier with
  | zero => exact reverse_append_pathBack_within hnext hstart hwalk
  | succ fuel ih =>
    unfold wander
    split
    · rename_i w hfind
      have hw : P w := hnext current w (List.mem_of_find?_eq_some hfind)
      exact ih (List.forall_mem_cons.2 ⟨hw, hwalk⟩)
    · split
      · intro u hu
        rcases List.mem_cons.1 (List.mem_reverse.1 hu) with rfl | hu
        · exact hstart
        · exact hwalk u hu
      · exact reverse_append_pathBack_within hnext hstart hwalk

theorem closedWalk_within {size start : Nat} (hstart : P start) :
    ∀ u ∈ closedWalk next size start, P u :=
  wander_within hnext hstart fun _ hu => List.mem_singleton.1 hu ▸ hstart

end Within

theorem smallestBy_mem (name : Nat → String) (v : Nat) (rest : List Nat) :
    smallestBy name v rest ∈ v :: rest := by
  induction rest generalizing v with
  | nil => exact List.mem_cons_self
  | cons w rest ih =>
    rw [smallestBy]
    rcases List.mem_cons.1 (ih (if name w < name v then w else v)) with heq | hmem
    · rw [heq]
      split <;> simp
    · exact List.mem_cons_of_mem _ (List.mem_cons_of_mem _ hmem)

/-- One successor needs no sorting. -/
theorem innerSuccessors_eq_filter {g : Adjacency} (name : Nat → String) (c : List Nat) {v : Nat}
    (h : (successors g v).length ≤ 1) :
    innerSuccessors g name c v = (successors g v).filter c.contains := by
  have hlength := Nat.le_trans (List.length_filter_le c.contains (successors g v)) h
  rw [innerSuccessors]
  match hfound : (successors g v).filter c.contains, hlength with
  | [], _ => exact List.mergeSort_nil
  | [w], _ => exact List.mergeSort_singleton w

/-- The walk of a component stays in the component. -/
theorem mem_of_mem_walkOf {g : Adjacency} {name : Nat → String} {c : List Nat} {v : Nat}
    (h : v ∈ walkOf g name c) : v ∈ c := by
  have hinner : ∀ v, ∀ w ∈ innerSuccessors g name c v, w ∈ c := by
    intro v w hw
    have hw := List.mem_filter.1 (List.mem_mergeSort.1 hw)
    simpa using hw.2
  match c, hinner, h with
  | start :: rest, hinner, h => exact closedWalk_within hinner (smallestBy_mem name start rest) v h

/-- **A cycle names every member of its component**, on its path or beside it,
and nothing else. -/
theorem cycleOf_names (g : Adjacency) (name : Nat → String) (c : List Nat) (n : String) :
    n ∈ (cycleOf g name c).path ∨ n ∈ (cycleOf g name c).others ↔ ∃ v ∈ c, name v = n := by
  have hothers : n ∈ (cycleOf g name c).others ↔
      (∃ v ∈ c, name v = n) ∧ n ∉ (cycleOf g name c).path := by
    simp [cycleOf]
  rw [hothers]
  constructor
  · rintro (hpath | ⟨hmember, -⟩)
    · obtain ⟨v, hv, rfl⟩ := List.mem_map.1 hpath
      exact ⟨v, mem_of_mem_walkOf hv, rfl⟩
    · exact hmember
  · intro hmember
    by_cases hpath : n ∈ (cycleOf g name c).path
    · exact .inl hpath
    · exact .inr ⟨hmember, hpath⟩

/-! ### Where a path begins -/

/-- A walk has a first node. -/
theorem wander_ne_nil (next : Nat → List Nat) (size start fuel current : Nat)
    (earlier : List Nat) : wander next size start fuel current earlier ≠ [] := by
  induction fuel generalizing current earlier with
  | zero => simp [wander]
  | succ fuel ih =>
    unfold wander
    split
    · exact ih _ _
    · split <;> simp

/-- The path of a cycle begins in the component. -/
theorem path_cycleOf_eq (g : Adjacency) (name : Nat → String) {k : List Nat} (hk : k ≠ []) :
    ∃ v ∈ k, ∃ rest, (cycleOf g name k).path = name v :: rest := by
  have hne : walkOf g name k ≠ [] := by
    obtain ⟨v, more, rfl⟩ := List.exists_cons_of_ne_nil hk
    exact wander_ne_nil _ _ _ _ _ _
  obtain ⟨v, rest, hwalk⟩ := List.exists_cons_of_ne_nil hne
  refine ⟨v, mem_of_mem_walkOf (hwalk ▸ List.mem_cons_self), rest.map name, ?_⟩
  rw [cycleOf, hwalk, List.map_cons]

end Graph
end Strata
