/-
# When the walk of a component is elementary

Specification, section 4.3: a path that is stuck falls back to a shortest way to the
start.

The walk of a component goes ahead as long as there is a successor that it has not visited,
and then takes a way back to its start. On neither part it visits a member twice: going ahead
it looks for that, and the way back follows the notes of a search that notes every member once
(`nodup_pathBack`). The two parts may share members, though. All successors of the member where
going ahead ends were visited, so unless the start is one of them the first member of the way
back is one that the walk visits for the second time:

| where going ahead ends | way back | members visited twice |
| --- | --- | --- |
| an edge leads to the start | this edge | none |
| no edge leads to the start | begins at a member that was visited | at least this one |

So the closed walk is elementary exactly in the first case (`walkOf_elementary_iff`).
-/

import Strata.Proofs.Graph.CycleWalk

namespace Strata
namespace Graph

variable {next : Nat → List Nat} {source target v w : Nat} {origins : Origins}

/-! ### The way back -/

/-- The way back from a node runs through nodes that were found, from the latest to the
earliest. -/
theorem Traced.sublist_of_retrace (h : Traced next source origins) (hv : v ∈ met source origins)
    {fuel : Nat} {back : List Nat} (hback : retrace origins source fuel v = some back) :
    back.Sublist (origins.map Prod.fst) := by
  induction h generalizing v fuel back with
  | nil =>
    obtain rfl : v = source := by simpa [met] using hv
    rw [Traced.retrace_source] at hback
    obtain rfl := Option.some.inj hback
    exact .slnil
  | @cons u w origins htraced hw hu _ ih =>
    rw [List.map_cons]
    rcases mem_met_cons.1 hv with rfl | hv
    · have hne : v ≠ source := fun heq => hw (heq ▸ source_mem_met)
      cases fuel with
      | zero =>
        rw [retrace, if_neg hne] at hback
        cases hback
      | succ fuel =>
        rw [retrace, if_neg hne, List.lookup_cons_self] at hback
        simp only [htraced.retrace_cons hw u hu] at hback
        obtain ⟨rest, hrest, rfl⟩ := Option.map_eq_some_iff.1 hback
        exact (ih hu hrest).cons_cons v
    · rw [htraced.retrace_cons hw u hv] at hback
      exact (ih hv hback).cons w

/-- **A search returns a path that visits no node twice.** -/
theorem nodup_searchBack? {fuel : Nat} {queue path : List Nat}
    (htraced : Traced next source origins) (hqueue : ∀ v ∈ queue, v ∈ met source origins)
    (hmissed : target ∉ origins.map Prod.fst)
    (h : searchBack? next source target fuel queue origins = some path) : path.Nodup := by
  -- on the fuel; the target is not noted yet, so it comes once, behind what leads to it
  induction fuel generalizing queue origins with
  | zero => cases h
  | succ fuel ih =>
    cases queue with
    | nil => cases h
    | cons v queue =>
      obtain ⟨hv, hqueue⟩ := List.forall_mem_cons.1 hqueue
      rw [searchBack?] at h
      split at h
      · obtain ⟨back, hback, rfl⟩ := Option.map_eq_some_iff.1 h
        have hsublist := htraced.sublist_of_retrace hv hback
        have hfound : (origins.map Prod.fst).Nodup := (List.nodup_append.1 htraced.nodup_met).1
        rw [List.nodup_reverse, List.nodup_cons]
        exact ⟨fun hmem => hmissed (hsublist.subset hmem), hfound.sublist hsublist⟩
      · -- no successor is the target, so the notes miss it still
        rename_i hedge
        refine ih (htraced.append hv (nodup_eraseDups _) fun w hw => mem_discoveries.1 hw) ?_ ?_ h
        · rw [met_append]
          intro w hw
          rcases List.mem_append.1 hw with hw | hw
          · exact List.mem_append_right _ (hqueue w hw)
          · exact List.mem_append_left _ (List.mem_reverse.2 hw)
        · simp only [List.map_append, List.map_reverse, List.map_map, List.mem_append,
            List.mem_reverse, not_or]
          refine ⟨fun hmem => ?_, hmissed⟩
          obtain ⟨w, hw, rfl⟩ := List.mem_map.1 hmem
          exact hedge (List.contains_iff_mem.2 (mem_discoveries.1 hw).1)

theorem nodup_pathBack? {size : Nat} {path : List Nat}
    (h : pathBack? next size source target = some path) : path.Nodup := by
  refine nodup_searchBack? .nil (fun v hv => ?_) List.not_mem_nil h
  obtain rfl := List.mem_singleton.1 hv
  exact source_mem_met

/-- The way back takes no node twice. -/
theorem nodup_pathBack (next : Nat → List Nat) (size source target : Nat) :
    (pathBack next size source target).Nodup := by
  unfold pathBack
  cases hpath : pathBack? next size source target with
  | none => exact List.nodup_singleton target
  | some path => exact nodup_pathBack? hpath

/-- An edge to the target is the way back. -/
theorem pathBack_of_edge {size : Nat} (hsize : 0 < size) (h : target ∈ next source) :
    pathBack next size source target = [target] := by
  obtain ⟨size, rfl⟩ := Nat.exists_eq_add_of_le' hsize
  have hretrace := Traced.retrace_source [] source ([] : Origins).length
  rw [pathBack, pathBack?, searchBack?, if_pos (List.contains_iff_mem.2 h), hretrace]
  rfl

/-! ### Going ahead -/

/-- Where a walk stands when no successor is left that it has not visited, and the nodes
before that, the latest first. -/
def ahead (next : Nat → List Nat) : (fuel : Nat) → (current : Nat) → (earlier : List Nat) →
    Nat × List Nat
  | 0, current, earlier => (current, earlier)
  | fuel + 1, current, earlier =>
    match (next current).find? fun w => !(current :: earlier).contains w with
    | some w => ahead next fuel w (current :: earlier)
    | none => (current, earlier)

variable {c : List Nat} {start current : Nat} {earlier : List Nat}

/-- **A walk goes ahead and then takes the way back.** -/
theorem wander_eq_append {size : Nat} (hsize : 0 < size) (fuel current : Nat)
    (earlier : List Nat) :
    wander next size start fuel current earlier =
      ((ahead next fuel current earlier).1 :: (ahead next fuel current earlier).2).reverse ++
        pathBack next size (ahead next fuel current earlier).1 start := by
  induction fuel generalizing current earlier with
  | zero => rfl
  | succ fuel ih =>
    rw [wander, ahead]
    cases hfind : (next current).find? fun w => !(current :: earlier).contains w with
    | some w => exact ih w (current :: earlier)
    | none =>
      dsimp only
      split
      · rename_i hedge
        rw [pathBack_of_edge hsize (List.contains_iff_mem.1 hedge), List.reverse_cons]
      · rfl

/-- Going ahead leads to a member all of whose successors were visited. -/
theorem Wandering.ahead {fuel : Nat} (h : Wandering next c start current earlier)
    (hinner : ∀ v ∈ c, ∀ w ∈ next v, w ∈ c) (hfuel : c.length ≤ fuel + earlier.length) :
    Wandering next c start (ahead next fuel current earlier).1
        (Graph.ahead next fuel current earlier).2 ∧
      ∀ w ∈ next (Graph.ahead next fuel current earlier).1,
        w ∈ (Graph.ahead next fuel current earlier).1 ::
          (Graph.ahead next fuel current earlier).2 := by
  induction fuel generalizing current earlier with
  | zero =>
    have hlength := h.length_lt
    omega
  | succ fuel ih =>
    rw [Graph.ahead]
    split
    · rename_i w hfind
      exact ih (h.step hinner hfind) (by rw [List.length_cons]; omega)
    · rename_i hnone
      refine ⟨h, fun w hw => ?_⟩
      have hvisited := List.find?_eq_none.1 hnone w hw
      rw [Bool.not_eq_true, Bool.not_eq_false'] at hvisited
      exact List.contains_iff_mem.1 hvisited

/-! ### The walk of a component -/

/-- A closed walk that visits no node twice, but for the start, which also ends it. -/
def IsElementary (walk : List Nat) : Prop := walk.dropLast.Nodup

/-- Two parts without repetitions hold every node at most twice. -/
theorem count_append_le_two {xs ys : List Nat} (hxs : xs.Nodup) (hys : ys.Nodup) (v : Nat) :
    (xs ++ ys).count v ≤ 2 := by
  have hx := List.nodup_iff_count_le_one.1 hxs v
  have hy := List.nodup_iff_count_le_one.1 hys v
  rw [List.count_append]
  omega

/-- **A closed walk is elementary exactly when it closes where going ahead ends.** -/
theorem isElementary_append_iff {last : Nat} {before back : List Nat}
    (hahead : (before ++ [last]).Nodup) (hvisited : ∀ w ∈ next last, w ∈ before ++ [last])
    (hback : (last :: back).IsChain fun v w => w ∈ next v) (hend : back.getLast? = some start)
    (hedge : start ∈ next last → back = [start]) :
    IsElementary (before ++ last :: back) ↔ start ∈ next last := by
  have hsplit : before ++ last :: back = before ++ [last] ++ back := by simp
  have hne : back ≠ [] := by
    rintro rfl
    cases hend
  rw [IsElementary, hsplit, List.dropLast_append_of_ne_nil hne]
  constructor
  · intro hnodup
    obtain ⟨u, rest, rfl⟩ := List.exists_cons_of_ne_nil hne
    have hu : u ∈ next last := (List.isChain_cons_cons.1 hback).1
    cases rest with
    | nil =>
      obtain rfl : u = start := Option.some.inj hend
      exact hu
    | cons x rest =>
      -- the way back begins at a member that was visited
      have hdisjoint := (List.nodup_append.1 hnodup).2.2
      exact absurd rfl (hdisjoint u (hvisited u hu) u List.mem_cons_self)
  · intro hstart
    rw [hedge hstart]
    simpa using hahead

/-- **When the walk of a component is elementary.** Let the members of a component lead to each
other within it, and let there be two of them or one with an edge to itself. Then its walk goes
ahead from its start, visiting no member twice, to a member all of whose successors in the
component it has visited; from there it goes back to the start, again visiting no member twice.
So it visits every member at most twice, and it is elementary exactly when the member where
going ahead ends has an edge to the start. Source: specification, section 4.3, rendering of a
cycle. -/
theorem walkOf_elementary_iff {g : Adjacency} (h : Connected g c)
    (hcycle : (∃ v ∈ c, ∃ w ∈ c, v ≠ w) ∨ ∃ v ∈ c, v ∈ successors g v) (name : Nat → String) :
    ∃ start before last back, walkOf g name c = before ++ last :: back ∧
      (before ++ [last]).head? = some start ∧ back.getLast? = some start ∧
      (before ++ [last]).Nodup ∧ back.Nodup ∧
      (∀ w ∈ successors g last, w ∈ c → w ∈ before ++ [last]) ∧
      (∀ v, (walkOf g name c).count v ≤ 2) ∧
      (IsElementary (walkOf g name c) ↔ start ∈ successors g last) := by
  obtain ⟨v, rest, rfl⟩ := exists_cons_of_cycle hcycle
  have hstart := smallestBy_mem name v rest
  have hinner : ∀ u ∈ v :: rest, ∀ w ∈ innerSuccessors g name (v :: rest) u, w ∈ v :: rest :=
    fun u _ w hw => (mem_innerSuccessors.1 hw).2
  -- going ahead is not cut off: there are no more members than steps
  obtain ⟨hwander, hvisited⟩ := (Wandering.begins hstart).ahead hinner (Nat.le_refl _)
  have hwalk : walkOf g name (v :: rest) = _ :=
    wander_eq_append (Nat.succ_pos rest.length) (v :: rest).length (smallestBy name v rest) []
  generalize ahead (innerSuccessors g name (v :: rest)) (v :: rest).length
    (smallestBy name v rest) [] = stop at hwander hvisited hwalk
  obtain ⟨last, earlier⟩ := stop
  have hlast := hwander.within last List.mem_cons_self
  -- neither is the search for the way back
  obtain ⟨path, hpath, hend, hfound⟩ :=
    exists_pathBack? hinner hlast (h.transGen hcycle name hlast hstart)
  have hback : pathBack (innerSuccessors g name (v :: rest)) (rest.length + 1) last
      (smallestBy name v rest) = path := by
    rw [pathBack, hfound (rest.length + 1) (Nat.le_refl _)]
    rfl
  have hahead : (earlier.reverse ++ [last]).Nodup := by
    rw [← List.reverse_cons, List.nodup_reverse]
    exact hwander.nodup
  have hnodup : path.Nodup := hback ▸ nodup_pathBack _ _ _ _
  have hwalk : walkOf g name (v :: rest) = earlier.reverse ++ last :: path := by
    rw [hwalk, hback, List.reverse_cons, List.append_assoc]
    rfl
  have hvisited (w : Nat) (hw : w ∈ innerSuccessors g name (v :: rest) last) :
      w ∈ earlier.reverse ++ [last] := by simpa [or_comm] using hvisited w hw
  refine ⟨smallestBy name v rest, earlier.reverse, last, path, hwalk, ?_, hend, hahead, hnodup,
    fun w hw hmem => hvisited w (mem_innerSuccessors.2 ⟨hw, hmem⟩), fun u => ?_, ?_⟩
  · rw [← List.reverse_cons, List.head?_reverse]
    exact hwander.first
  · rw [hwalk, List.append_cons]
    exact count_append_le_two hahead hnodup u
  · rw [hwalk, isElementary_append_iff hahead hvisited hpath hend fun hedge =>
      hback ▸ pathBack_of_edge (Nat.succ_pos rest.length) hedge]
    exact mem_innerSuccessors.trans (and_iff_left hstart)

/-- The walk of three nodes, the last of which leads to the second only, takes none of them
more than twice. -/
theorem walkOf_elementary_iff_deadEnd :
    Connected deadEnd [0, 1, 2] ∧ ∀ v, [0, 1, 2, 1, 0].count v ≤ 2 := by
  obtain ⟨-, -, -, -, -, -, -, -, -, -, htwice, -⟩ := walkOf_elementary_iff connected_deadEnd
    (.inl ⟨0, by simp, 1, by simp, by simp⟩) deadEndName
  exact ⟨connected_deadEnd, walkOf_deadEnd ▸ htwice⟩

theorem mem_components_deadEnd : [0, 1, 2] ∈ components deadEnd := by
  obtain ⟨c, hc, hzero⟩ := List.mem_flatten.1 ((mem_flatten_components deadEnd 0).2 (by decide))
  have hcomponent := isComponent_of_mem_components hc
  have hthere : Reaches deadEnd 0 1 ∧ Reaches deadEnd 1 0 :=
    ⟨.single (by decide), .single (by decide)⟩
  have hbehind : Reaches deadEnd 1 2 ∧ Reaches deadEnd 2 1 :=
    ⟨.single (by decide), .single (by decide)⟩
  -- no other node leads anywhere
  have hinner {v : Nat} (h : Reaches deadEnd v 0) : v ∈ [0, 1, 2] := by
    cases h with
    | refl => simp
    | step hedge _ =>
      match v with
      | 0 | 1 | 2 => simp
      | 3 => exact absurd hedge List.not_mem_nil
      | n + 4 => exact absurd hedge List.not_mem_nil
  have heq : c = [0, 1, 2] := by
    refine eq_of_increasing (fun _ _ => Nat.lt_asymm) hcomponent.increasing (by decide) fun v => ?_
    refine (hcomponent.mem_iff 0 hzero v).trans ⟨fun h => hinner h.2, fun hv => ?_⟩
    simp only [List.mem_cons, List.not_mem_nil, or_false] at hv
    rcases hv with rfl | rfl | rfl
    · exact ⟨.refl 0, .refl 0⟩
    · exact hthere
    · exact ⟨hthere.1.trans hbehind.1, hbehind.2.trans hthere.2⟩
  exact heq ▸ hc

/-- These three nodes are a component, and its walk takes the second of them twice. -/
theorem walkOf_not_elementary :
    [0, 1, 2] ∈ components deadEnd ∧ isCyclic deadEnd [0, 1, 2] = true ∧
      walkOf deadEnd deadEndName [0, 1, 2] = [0, 1, 2, 1, 0] ∧
      ¬ IsElementary (walkOf deadEnd deadEndName [0, 1, 2]) := by
  refine ⟨mem_components_deadEnd, rfl, walkOf_deadEnd, ?_⟩
  rw [walkOf_deadEnd, IsElementary]
  decide

end Graph
end Strata
