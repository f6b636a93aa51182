/-
# The walk that shows a component closes

Specification, section 4.3: the path of a cycle starts at the smallest member and closes
there.

A walk goes on to members that it has not visited, so it ends after as many nodes as
there are members at the latest (`Wandering.length_lt`). Where it ends, an edge leads
to the start or the search for a way back finds one, as long as every member leads to
the start within the component. So the walk of a component whose members lead to each
other, and that has two members or an edge from one to itself, is a closed walk along
edges from the member with the smallest name (`walkOf_closes`). Neither the bound on
its length nor the answer for a search that finds nothing plays a part.

The components that a graph reports as cycles are of this kind (`IsComponent.connected`),
so every reported cycle is a closed walk along imports (`ReportsCycles.closedWalk`).
-/

import Strata.Proofs.Graph.CycleReport
import Strata.Proofs.Graph.WayBack

namespace Strata
namespace Graph

variable {next : Nat → List Nat} {c : List Nat} {start current w : Nat} {earlier : List Nat}

/-- A walk is a chain of successors. -/
theorem isWalk_iff_isChain {xs : List Nat} :
    IsWalk next xs ↔ xs.IsChain fun v w => w ∈ next v := by
  induction xs with
  | nil => simp [IsWalk]
  | cons v xs ih =>
    cases xs with
    | nil => simp [IsWalk]
    | cons w xs => rw [IsWalk, List.isChain_cons_cons, ih]

/-- A walk of at least one step that begins and ends at `start`. -/
structure IsClosedWalk (next : Nat → List Nat) (start : Nat) (xs : List Nat) : Prop where
  walk : IsWalk next xs
  first : xs.head? = some start
  last : xs.getLast? = some start
  length : 2 ≤ xs.length

/-- A closed walk stays one where there are more successors. -/
theorem IsClosedWalk.mono {more : Nat → List Nat} {xs : List Nat} (h : IsClosedWalk next start xs)
    (hmore : ∀ v, ∀ w ∈ next v, w ∈ more v) : IsClosedWalk more start xs where
  walk := isWalk_iff_isChain.2 ((isWalk_iff_isChain.1 h.walk).imp fun v w => hmore v w)
  first := h.first
  last := h.last
  length := h.length

/-! ### Going on as long as possible -/

/-- A walk of `wander` so far: it begins at `start`, follows successors and visits
members only, each of them once. -/
structure Wandering (next : Nat → List Nat) (c : List Nat) (start current : Nat)
    (earlier : List Nat) : Prop where
  chain : (current :: earlier).reverse.IsChain fun v w => w ∈ next v
  first : (current :: earlier).getLast? = some start
  nodup : (current :: earlier).Nodup
  within : ∀ v ∈ current :: earlier, v ∈ c

namespace Wandering

/-- Every walk begins at its start, with nothing behind it. -/
theorem begins (hstart : start ∈ c) : Wandering next c start start [] where
  chain := .singleton start
  first := rfl
  nodup := List.nodup_singleton start
  within _ hv := List.mem_singleton.1 hv ▸ hstart

/-- A walk that visits no member twice is shorter than the component. -/
theorem length_lt (h : Wandering next c start current earlier) : earlier.length < c.length :=
  h.nodup.length_le_of_subset h.within

/-- Along an edge to a node that was not visited the walk goes on. -/
theorem step (h : Wandering next c start current earlier) (hinner : ∀ v ∈ c, ∀ w ∈ next v, w ∈ c)
    (hfind : (next current).find? (fun w => !(current :: earlier).contains w) = some w) :
    Wandering next c start w (current :: earlier) := by
  have hw : w ∈ next current := List.mem_of_find?_eq_some hfind
  have hnew : w ∉ current :: earlier := by simpa using List.find?_some hfind
  refine ⟨?_, ?_, List.nodup_cons.2 ⟨hnew, h.nodup⟩, List.forall_mem_cons.2 ⟨?_, h.within⟩⟩
  · rw [List.reverse_cons, List.isChain_append]
    refine ⟨h.chain, .singleton w, fun x hx y hy => ?_⟩
    obtain rfl : current = x := by simpa using hx
    obtain rfl : w = y := Option.some.inj hy
    exact hw
  · rw [List.getLast?_cons_cons, h.first]
  · exact hinner current (h.within current List.mem_cons_self) w hw

/-- A walk is closed by a path from its last node to its first. -/
theorem closes (h : Wandering next c start current earlier) {path : List Nat}
    (hpath : (current :: path).IsChain fun v w => w ∈ next v) (hlast : path.getLast? = some start) :
    IsClosedWalk next start ((current :: earlier).reverse ++ path) := by
  have hne : path ≠ [] := by
    rintro rfl
    cases hlast
  refine ⟨isWalk_iff_isChain.2 (List.isChain_append.2 ⟨h.chain, hpath.tail, ?_⟩), ?_, ?_, ?_⟩
  · intro x hx y hy
    obtain rfl : current = x := by simpa using hx
    exact (List.isChain_cons.1 hpath).1 y hy
  · rw [List.head?_append, List.head?_reverse, h.first]
    rfl
  · rw [List.getLast?_append, hlast]
    rfl
  · have hpos := List.length_pos_iff.2 hne
    rw [List.length_append, List.length_reverse, List.length_cons]
    omega

end Wandering

section Closing

variable (hinner : ∀ v ∈ c, ∀ w ∈ next v, w ∈ c)
  (hback : ∀ v ∈ c, Relation.TransGen (fun v w => w ∈ next v) v start)
include hinner hback

/-- **A walk closes when every member leads to its start.** -/
theorem Wandering.isClosedWalk_wander {size fuel : Nat}
    (h : Wandering next c start current earlier) (hsize : c.length ≤ size)
    (hfuel : c.length ≤ fuel + earlier.length) :
    IsClosedWalk next start (wander next size start fuel current earlier) := by
  induction fuel generalizing current earlier with
  | zero =>
    have hlength := h.length_lt
    omega
  | succ fuel ih =>
    rw [wander]
    split
    · rename_i w hfind
      exact ih (h.step hinner hfind) (by rw [List.length_cons]; omega)
    · split
      · rename_i hedge
        rw [List.reverse_cons]
        refine h.closes (.cons_cons (List.contains_iff_mem.1 hedge) (.singleton start)) rfl
      · have hcurrent := h.within current List.mem_cons_self
        obtain ⟨path, hpath, hlast, hfound⟩ := exists_pathBack? hinner hcurrent (hback _ hcurrent)
        rw [pathBack, hfound size hsize]
        exact h.closes hpath hlast

/-- The bounds on the steps of a walk play no part once they are as large as the
component. -/
theorem Wandering.wander_eq {size size' fuel fuel' : Nat}
    (h : Wandering next c start current earlier) (hsize : c.length ≤ size)
    (hsize' : c.length ≤ size') (hfuel : c.length ≤ fuel + earlier.length)
    (hfuel' : c.length ≤ fuel' + earlier.length) :
    wander next size start fuel current earlier =
      wander next size' start fuel' current earlier := by
  have hlength := h.length_lt
  induction fuel generalizing current earlier fuel' with
  | zero => omega
  | succ fuel ih =>
    obtain ⟨fuel', rfl⟩ : ∃ more, fuel' = more + 1 := Nat.exists_eq_add_of_le' (by omega)
    rw [wander, wander]
    split
    · rename_i w hfind
      have hstep := h.step hinner hfind
      exact ih hstep (by rw [List.length_cons]; omega) (by rw [List.length_cons]; omega)
        hstep.length_lt
    · have hcurrent := h.within current List.mem_cons_self
      obtain ⟨path, -, -, hfound⟩ := exists_pathBack? hinner hcurrent (hback _ hcurrent)
      rw [pathBack, pathBack, hfound size hsize, hfound size' hsize']

end Closing

/-! ### Components -/

/-- Every member leads to every other along members. -/
def Connected (g : Adjacency) (c : List Nat) : Prop :=
  ∀ v ∈ c, ∀ w ∈ c, Relation.ReflTransGen (fun u x => x ∈ successors g u ∧ x ∈ c) v w

/-- The members of a strongly connected component lead to each other within it. -/
theorem IsComponent.connected {g : Adjacency} (h : IsComponent g c) : Connected g c := by
  intro v hv w hw
  have hvw : Reaches g v w := ((h.mem_iff v hv w).1 hw).1
  induction hvw with
  | refl => exact .refl
  | @step u x w hstep hreach ih =>
    -- the node behind the first edge leads to `w` and so back to where the path began
    have hx : x ∈ c := (h.mem_iff u hv x).2
      ⟨.single hstep, hreach.trans ((h.mem_iff u hv w).1 hw).2⟩
    exact .head ⟨hstep, hx⟩ (ih hx hw)

/-- The successors within a component are the successors that are members. -/
theorem mem_innerSuccessors {g : Adjacency} {name : Nat → String} {v : Nat} :
    w ∈ innerSuccessors g name c v ↔ w ∈ successors g v ∧ w ∈ c := by
  rw [innerSuccessors, List.mem_mergeSort, List.mem_filter, List.contains_iff_mem]

/-- A component that holds a cycle has a member. -/
theorem exists_cons_of_cycle {g : Adjacency}
    (hcycle : (∃ v ∈ c, ∃ w ∈ c, v ≠ w) ∨ ∃ v ∈ c, v ∈ successors g v) :
    ∃ v rest, c = v :: rest := by
  refine List.exists_cons_of_ne_nil ?_
  rintro rfl
  rcases hcycle with ⟨v, hv, -⟩ | ⟨v, hv, -⟩ <;> exact List.not_mem_nil hv

/-- In a connected component with two members or an edge from one to itself, every
member lies on a way back to each. -/
theorem Connected.transGen {g : Adjacency} (h : Connected g c)
    (hcycle : (∃ v ∈ c, ∃ w ∈ c, v ≠ w) ∨ ∃ v ∈ c, v ∈ successors g v) (name : Nat → String)
    {v : Nat} (hv : v ∈ c) (hw : w ∈ c) :
    Relation.TransGen (fun u x => x ∈ innerSuccessors g name c u) v w := by
  have hreach {v w : Nat} (hv : v ∈ c) (hw : w ∈ c) :
      Relation.ReflTransGen (fun u x => x ∈ innerSuccessors g name c u) v w :=
    Relation.ReflTransGen.mono (fun _ _ hstep => mem_innerSuccessors.2 hstep) v w (h v hv w hw)
  have hforth {v w : Nat} (hv : v ∈ c) (hw : w ∈ c) (hne : v ≠ w) :
      Relation.TransGen (fun u x => x ∈ innerSuccessors g name c u) v w :=
    (Relation.reflTransGen_iff_eq_or_transGen.1 (hreach hv hw)).resolve_left (Ne.symm hne)
  rcases hcycle with ⟨x, hx, y, hy, hne⟩ | ⟨x, hx, hself⟩
  · have haway := Relation.TransGen.trans_right (hreach hv hx) (hforth hx hy hne)
    exact haway.trans_left (hreach hy hw)
  · have hloop : x ∈ innerSuccessors g name c x := mem_innerSuccessors.2 ⟨hself, hx⟩
    exact (Relation.TransGen.trans_right (hreach hv hx) (.single hloop)).trans_left (hreach hx hw)

/-- The smallest member has no larger name than any other. -/
theorem smallestBy_le (name : Nat → String) (v : Nat) (rest : List Nat) :
    ∀ w ∈ v :: rest, name (smallestBy name v rest) ≤ name w := by
  induction rest generalizing v with
  | nil =>
    intro w hw
    exact List.mem_singleton.1 hw ▸ String.le_refl _
  | cons x rest ih =>
    intro w hw
    rw [smallestBy]
    by_cases hlt : name x < name v
    · rw [if_pos hlt]
      rcases List.mem_cons.1 hw with rfl | hw
      · exact String.le_trans (ih x x List.mem_cons_self) (Std.le_of_lt hlt)
      · exact ih x w hw
    · rw [if_neg hlt]
      rcases List.mem_cons.1 hw with rfl | hw
      · exact ih w w List.mem_cons_self
      · rcases List.mem_cons.1 hw with rfl | hw
        · exact String.le_trans (ih v v List.mem_cons_self) (Std.not_lt.1 hlt)
        · exact ih v w (List.mem_cons_of_mem v hw)

/-- The walk of a connected component that holds a cycle, however large the bounds on
its steps are chosen. -/
theorem Connected.isClosedWalk {g : Adjacency} (h : Connected g c)
    (hcycle : (∃ v ∈ c, ∃ w ∈ c, v ≠ w) ∨ ∃ v ∈ c, v ∈ successors g v) (name : Nat → String) :
    ∃ start ∈ c, (∀ v ∈ c, name start ≤ name v) ∧
      IsClosedWalk (successors g) start (walkOf g name c) ∧
      ∀ size, c.length ≤ size →
        closedWalk (innerSuccessors g name c) size start = walkOf g name c := by
  obtain ⟨v, rest, rfl⟩ := exists_cons_of_cycle hcycle
  have hstart := smallestBy_mem name v rest
  have hinner : ∀ u ∈ v :: rest, ∀ w ∈ innerSuccessors g name (v :: rest) u, w ∈ v :: rest :=
    fun u _ w hw => (mem_innerSuccessors.1 hw).2
  have hback := fun u hu => h.transGen hcycle name (v := u) hu hstart
  have hbegins : Wandering (innerSuccessors g name (v :: rest)) (v :: rest)
      (smallestBy name v rest) (smallestBy name v rest) [] := .begins hstart
  have hfuel {size : Nat} (hsize : (v :: rest).length ≤ size) :
      (v :: rest).length ≤ size + ([] : List Nat).length := hsize
  refine ⟨smallestBy name v rest, hstart, smallestBy_le name v rest, ?_, fun size hsize => ?_⟩
  · have hclosed := hbegins.isClosedWalk_wander hinner hback (Nat.le_refl _) (hfuel (Nat.le_refl _))
    exact hclosed.mono fun u w hw => (mem_innerSuccessors.1 hw).1
  · exact hbegins.wander_eq hinner hback hsize (Nat.le_refl _) (hfuel hsize) (hfuel (Nat.le_refl _))

/-- **The walk of a component closes.** Let the members of a component lead to each other within
it, and let there be two of them or one with an edge to itself. Then its walk has at least two
nodes, all of them members; it begins and ends at the member with the smallest name, and each of
its nodes is a successor of the one before. The walk is the same for every bound on its steps
that is not below the number of members, and the search for a way back finds one between any two
members. Source: specification, section 4.3, rendering of a cycle. -/
theorem walkOf_closes {g : Adjacency} {c : List Nat} (h : Connected g c)
    (hcycle : (∃ v ∈ c, ∃ w ∈ c, v ≠ w) ∨ ∃ v ∈ c, v ∈ successors g v) (name : Nat → String) :
    (∃ start ∈ c, (∀ v ∈ c, name start ≤ name v) ∧
      IsClosedWalk (successors g) start (walkOf g name c) ∧
      ∀ size, c.length ≤ size →
        closedWalk (innerSuccessors g name c) size start = walkOf g name c) ∧
    (∀ v ∈ walkOf g name c, v ∈ c) ∧
    ∀ v ∈ c, ∀ w ∈ c, ∃ path,
      pathBack? (innerSuccessors g name c) c.length v w = some path ∧
        IsWalk (successors g) (v :: path) ∧ path.getLast? = some w := by
  refine ⟨h.isClosedWalk hcycle name, fun _ hv => mem_of_mem_walkOf hv, fun v hv w hw => ?_⟩
  obtain ⟨path, hpath, hlast, hfound⟩ := exists_pathBack?
    (fun _ _ _ hx => (mem_innerSuccessors.1 hx).2) hv (h.transGen hcycle name hv hw)
  refine ⟨path, hfound _ (Nat.le_refl _), isWalk_iff_isChain.2 ?_, hlast⟩
  exact hpath.imp fun _ _ hx => (mem_innerSuccessors.1 hx).1

/-- Three nodes that lead to each other, the last of them to the second only, and one
beside them. -/
def deadEnd : Adjacency := #[[1, 3], [0, 2], [1], []]

/-- The three nodes lead to each other. -/
theorem connected_deadEnd : Connected deadEnd [0, 1, 2] := by
  have hedge {v w : Nat} (h : w ∈ successors deadEnd v ∧ w ∈ [0, 1, 2]) :
      Relation.ReflTransGen (fun u x => x ∈ successors deadEnd u ∧ x ∈ [0, 1, 2]) v w := .single h
  -- each of them has edges to the second and from it
  have hsecond : ∀ v ∈ [0, 1, 2],
      Relation.ReflTransGen (fun u x => x ∈ successors deadEnd u ∧ x ∈ [0, 1, 2]) v 1 ∧
        Relation.ReflTransGen (fun u x => x ∈ successors deadEnd u ∧ x ∈ [0, 1, 2]) 1 v := by
    simp only [List.forall_mem_cons, List.not_mem_nil, IsEmpty.forall_iff, implies_true, and_true]
    exact ⟨⟨hedge (by decide), hedge (by decide)⟩, ⟨.refl, .refl⟩,
      hedge (by decide), hedge (by decide)⟩
  exact fun v hv w hw => (hsecond v hv).1.trans (hsecond w hw).2

/-- Their names, in the order of their numbers. -/
def deadEndName (v : Nat) : String := ["a", "b", "c"].getD v ""

/-- The walk reaches the third node, from which no edge leads to the start, and goes back by the
second. -/
theorem walkOf_deadEnd : walkOf deadEnd deadEndName [0, 1, 2] = [0, 1, 2, 1, 0] := by
  have hinner : innerSuccessors deadEnd deadEndName [0, 1, 2] =
      fun v => (successors deadEnd v).filter [0, 1, 2].contains := by
    funext v
    refine List.mergeSort_of_pairwise ?_
    match v with
    | 0 | 1 | 2 | 3 => decide +kernel
    | n + 4 => exact .nil
  have hsmallest : smallestBy deadEndName 0 [1, 2] = 0 := by decide +kernel
  rw [walkOf, hinner, hsmallest]
  decide

/-- From the last of the three the walk goes back over the second. -/
theorem walkOf_closes_deadEnd :
    ∃ start ∈ [0, 1, 2], IsClosedWalk (successors deadEnd) start [0, 1, 2, 1, 0] := by
  obtain ⟨⟨start, hstart, -, hclosed, -⟩, -⟩ :=
    walkOf_closes connected_deadEnd (.inl ⟨0, by simp, 1, by simp, by simp⟩) deadEndName
  exact ⟨start, hstart, walkOf_deadEnd ▸ hclosed⟩

end Graph

/-! ### The reported cycles -/

namespace ImportGraph

variable {g : ImportGraph}

/-- **Every reported cycle is a closed walk along imports.** -/
theorem ReportsCycles.closedWalk (h : g.ReportsCycles) {path : List String}
    (hpath : path ∈ g.cycles) :
    ∃ start walk, walk.map g.nameOf = path ∧ Graph.IsClosedWalk (Graph.successors g.adjacency)
      start walk ∧ walk.IsChain g.Imports := by
  obtain ⟨k, ⟨hk, hcycle⟩, rfl⟩ := h.mem_cycles_iff.1 hpath
  have hcomponent := Graph.isComponent_of_mem_components ((mem_components_iff h.wellFormed).2 hk)
  have himports {v w : Nat} : w ∈ Graph.successors g.adjacency v ↔ g.Imports v w :=
    mem_successors_adjacency h.wellFormed
  have hmembers : (∃ v ∈ k, ∃ w ∈ k, v ≠ w) ∨ ∃ v ∈ k, v ∈ Graph.successors g.adjacency v := by
    refine hcycle.imp (fun hlength => ?_) fun ⟨v, hv, hself⟩ => ⟨v, hv, himports.2 hself⟩
    match k, hlength, hk.increasing with
    | v :: w :: rest, _, hincreasing =>
      have hlt : v < w := (List.pairwise_cons.1 hincreasing).1 w List.mem_cons_self
      exact ⟨v, by simp, w, by simp, Nat.ne_of_lt hlt⟩
  have hconnected := Graph.IsComponent.connected hcomponent
  obtain ⟨start, -, -, hclosed, -⟩ := hconnected.isClosedWalk hmembers g.nameOf
  refine ⟨start, _, rfl, hclosed, ?_⟩
  exact (Graph.isWalk_iff_isChain.1 hclosed.walk).imp fun _ _ => himports.1

end ImportGraph

end Strata
