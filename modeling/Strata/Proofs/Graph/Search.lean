/-
# The invariant of the component search

`Search.Invariant` is what holds of the marks, the stack, the frames and the
reported components together, at every moment of the search:

| part | what holds |
| --- | --- |
| the stack | the open nodes in the order of their discovery, cut into the layers of the frames |
| the closed nodes | their successors are closed |
| the reported components | they are components, and hold every closed node once |

A step discovers a node (`Invariant.discover`), looks at a successor
(`Invariant.look`), reports the top layer (`Invariant.report`) or joins it with
the one below (`Invariant.finish`), and keeps the invariant each time
(`Invariant.step`). A run ends after finitely many steps (`run_eq_iterate`), so it
keeps whatever the steps keep (`run_keeps`).
-/

import Mathlib.Logic.Function.Iterate
import Strata.Proofs.Graph.TopLayer

namespace Strata
namespace Graph

variable {g : Adjacency}

/-! ### Marks and the stack -/

/-- A node that is not in the graph counts as closed, and stays so. -/
theorem getD_setIfInBounds (marks : Array Mark) (v w : Nat) (mark : Mark) :
    (marks.setIfInBounds v mark).getD w .closed =
      if v = w ∧ v < marks.size then mark else marks.getD w .closed := by
  rw [Array.getD_eq_getD_getElem?, Array.getD_eq_getD_getElem?]
  grind

/-- Closing marks adds none. -/
theorem size_closeAll (component : List Nat) (marks : Array Mark) :
    (closeAll component marks).size = marks.size := by
  induction component generalizing marks with
  | nil => rfl
  | cons v rest ih => exact (ih _).trans Array.size_setIfInBounds

/-- Exactly the nodes of a component are closed with it. -/
theorem getD_closeAll (component : List Nat) (marks : Array Mark) (w : Nat) :
    (closeAll component marks).getD w .closed =
      if w ∈ component then .closed else marks.getD w .closed := by
  induction component generalizing marks with
  | nil => rfl
  | cons v rest ih =>
    refine (ih _).trans ?_
    rw [getD_setIfInBounds]
    by_cases hw : w ∈ rest
    · simp [hw]
    · by_cases hvw : w = v
      · subst hvw
        by_cases hv : w < marks.size
        · simp [hv]
        · simp [hv]
      · simp [hw, hvw, Ne.symm hvw]

/-- A stack is cut behind the first place of a node. -/
theorem cutStack_append {v : Nat} {above : List Nat} (h : v ∉ above) (below : List Nat) :
    cutStack v (above ++ v :: below) = (above ++ [v], below) := by
  induction above with
  | nil => simp [cutStack]
  | cons w above ih =>
    obtain ⟨hne, habove⟩ := List.ne_and_not_mem_of_not_mem_cons h
    rw [List.cons_append, cutStack, if_neg (Ne.symm hne), ih habove]
    rfl

/-- Only nodes of the graph are fresh or open. -/
theorem Search.lt_size_of_ne_closed {s : Search} {v : Nat} (h : s.markOf v ≠ .closed) :
    v < s.marks.size := by
  refine Nat.lt_of_not_le fun hle => ?_
  simp [Search.markOf, Array.getElem?_eq_none hle] at h

/-- A node that is discovered is open with the next number; all others keep their marks. -/
theorem Search.markOf_discover {s : Search} {v : Nat} (h : s.markOf v = .fresh) (w : Nat) :
    (s.discover g v).markOf w = if w = v then .open s.next else s.markOf w := by
  have hset := getD_setIfInBounds s.marks v w (.open s.next)
  have hsize : v < s.marks.size := Search.lt_size_of_ne_closed (by rw [h]; simp)
  simp only [hsize, and_true, eq_comm (a := v)] at hset
  exact hset

namespace Search

variable {s : Search}

/-- The invariant of the search: the stack holds the open nodes in the order of
their discovery and in layers, closed nodes have closed successors, and the
reported components hold every closed node once. -/
structure Invariant (g : Adjacency) (s : Search) : Prop where
  size_marks : s.marks.size = g.size
  mem_stack : ∀ v, v ∈ s.stack ↔ ∃ n, s.markOf v = .open n
  sorted : s.stack.Pairwise fun v w => Earlier s.markOf w v
  number_lt : ∀ v n, s.markOf v = .open n → n < s.next
  layered : Layered g s.markOf s.frames s.stack
  closed : ∀ v, s.markOf v = .closed → ∀ w ∈ successors g v, s.markOf w = .closed
  mem_reported : ∀ v, v ∈ s.reported.flatten ↔ v < g.size ∧ s.markOf v = .closed
  nodup_reported : s.reported.flatten.Nodup
  isComponent : ∀ c ∈ s.reported, IsComponent g c

/-- In the beginning every node of the graph is fresh. -/
theorem markOf_start (size v : Nat) :
    (start size).markOf v = if v < size then .fresh else .closed := by
  rw [markOf, start, Array.getD_eq_getD_getElem?, Array.getElem?_replicate]
  split <;> rfl

/-- Nothing is open, and nothing was reported, so the invariant holds. -/
theorem Invariant.start (g : Adjacency) : Invariant g (start g.size) where
  size_marks := Array.size_replicate
  mem_stack v := by
    rw [markOf_start]
    split <;> simp [Search.start]
  sorted := .nil
  number_lt v n h := by
    rw [markOf_start] at h
    split at h <;> cases h
  layered := .nil
  closed v hv w hw := by
    rw [markOf_start] at hv
    split at hv
    · cases hv
    · rename_i hsize
      rw [successors, Array.getD_eq_getD_getElem?,
        Array.getElem?_eq_none (Nat.not_lt.1 hsize)] at hw
      exact absurd hw List.not_mem_nil
  mem_reported v := by
    rw [markOf_start]
    split <;> simp_all [Search.start]
  nodup_reported := List.nodup_nil
  isComponent _ h := absurd h List.not_mem_nil

/-- The frames may change as long as they cut the same stack into layers. -/
theorem Invariant.withFrames (h : Invariant g s) {frames : List Frame}
    (hlayered : Layered g s.markOf frames s.stack) : Invariant g (s.withFrames frames) :=
  { h with layered := hlayered }

/-- Every open node stands on the stack once. -/
theorem Invariant.nodup_stack (h : Invariant g s) : s.stack.Nodup := by
  refine h.sorted.imp fun {v w} hearlier heq => ?_
  rw [heq] at hearlier
  exact Earlier.irrefl hearlier

/-! ### Discovery -/

section Discover

variable {v : Nat} (hv : s.markOf v = .fresh)
include hv

/-- A settled node stays so: what it leads to was discovered before. -/
theorem settled_discover {low w : Nat} (h : Settled s.markOf low w) :
    Settled (s.discover g v).markOf low w := by
  have hne : w ≠ v := by
    rintro rfl
    rcases h with h | ⟨m, h, -⟩ <;> · rw [hv] at h; cases h
  unfold Settled
  rw [markOf_discover hv, if_neg hne]
  exact h

/-- The new node was not on the stack, so the marks there stay. -/
theorem markOf_discover_of_mem (h : Invariant g s) {w : Nat} (hw : w ∈ s.stack) :
    (s.discover g v).markOf w = s.markOf w := by
  obtain ⟨n, hn⟩ := (h.mem_stack w).1 hw
  rw [markOf_discover hv, if_neg]
  rintro rfl
  rw [hv] at hn
  cases hn

/-- No node is closed by a discovery. -/
theorem closed_discover (w : Nat) :
    (s.discover g v).markOf w = .closed ↔ s.markOf w = .closed := by
  rw [markOf_discover hv]
  by_cases hw : w = v
  · subst hw
    simp [hv]
  · rw [if_neg hw]

/-- The layers below the new one stay as they were. -/
theorem layered_discover (h : Invariant g s) {frames : List Frame}
    (hlayered : Layered g s.markOf frames s.stack) :
    Layered g (s.discover g v).markOf frames s.stack :=
  hlayered.mono (fun _ hw => markOf_discover_of_mem hv h hw) fun _ _ => settled_discover hv

/-- **Discovery keeps the invariant**, when the frames so far stand for the
stack so far and the latest of them reaches the discovered node. -/
theorem Invariant.discover (h : Invariant g s) {frames : List Frame}
    (hlayered : Layered g (s.discover g v).markOf frames s.stack)
    (hreach : ∀ e ∈ frames.head?, Reaches g e.node v) :
    Invariant g ((s.withFrames frames).discover g v) := by
  have hmark : ((s.withFrames frames).discover g v).markOf = (s.discover g v).markOf := rfl
  have hnew : (s.discover g v).markOf v = .open s.next := by
    rw [markOf_discover hv, if_pos rfl]
  have hold : ∀ w ∈ s.stack, (s.discover g v).markOf w = s.markOf w := fun w hw =>
    markOf_discover_of_mem hv h hw
  -- only the mark of the new node changes, and it gets the next number
  constructor
  case size_marks =>
    exact Array.size_setIfInBounds.trans h.size_marks
  case mem_stack =>
    intro w
    rw [hmark, markOf_discover hv]
    by_cases hw : w = v
    · subst hw
      simp [Search.discover]
    · rw [if_neg hw, ← h.mem_stack w]
      exact List.mem_cons.trans (or_iff_right hw)
  case sorted =>
    refine List.pairwise_cons.2 ⟨fun w hw => ?_, h.sorted.imp_of_mem ?_⟩
    · obtain ⟨n, hn⟩ := (h.mem_stack w).1 hw
      exact ⟨n, s.next, (hold w hw).trans hn, hnew, h.number_lt w n hn⟩
    · rintro x w hx hw ⟨m, n, hm, hn, hlt⟩
      exact ⟨m, n, (hold w hw).trans hm, (hold x hx).trans hn, hlt⟩
  case number_lt =>
    intro w n hn
    have hnext : ((s.withFrames frames).discover g v).next = s.next + 1 := rfl
    rw [hnext]
    rw [hmark, markOf_discover hv] at hn
    split at hn
    · have := Mark.open.inj hn
      omega
    · have := h.number_lt w n hn
      omega
  -- the new node is a layer of its own on top
  case layered =>
    exact .cons (.enter hnew s.stack) hreach hlayered
  case closed =>
    intro w hw x hx
    rw [hmark, closed_discover hv] at hw ⊢
    exact h.closed w hw x hx
  case mem_reported =>
    intro w
    rw [hmark, closed_discover hv]
    exact h.mem_reported w
  case nodup_reported => exact h.nodup_reported
  case isComponent => exact h.isComponent

end Discover

/-! ### The other steps -/

/-- **A look at a successor keeps the invariant.** -/
theorem Invariant.look (h : Invariant g s) {f : Frame} {outer : List Frame} {w : Nat}
    {rest : List Nat} (hf : s.frames = f :: outer) (hp : f.pending = w :: rest) :
    Invariant g (s.look g f outer w rest) := by
  have hlayered : Layered g s.markOf (f :: outer) s.stack := hf ▸ h.layered
  obtain ⟨above, below, hstack, hlayer, hreach, houter⟩ := hlayered.exists_layer
  have hw : w ∈ successors g f.node := by
    obtain ⟨done, hdone, -⟩ := hlayer.looked
    rw [hdone, hp]
    simp
  unfold Search.look
  -- by the mark of the successor: fresh, open or closed
  split
  · rename_i hfresh
    have hnew : (s.discover g w).markOf w = .open s.next := by
      rw [markOf_discover hfresh, if_pos rfl]
    have hlow : f.low ≤ s.next := by
      have := h.number_lt f.node f.number hlayer.isOpen
      have := hlayer.low_le
      omega
    -- the frame below has looked at one successor more before the new frame is put on top
    have hpass : Layered g (s.discover g w).markOf (f.leaving rest :: outer) s.stack := by
      obtain ⟨above, below, hstack, hlayer, hreach, houter⟩ :=
        (layered_discover hfresh h hlayered).exists_layer
      rw [hstack]
      exact .cons (hlayer.pass hp (.inr ⟨s.next, hnew, hlow⟩)) hreach houter
    refine h.discover hfresh hpass ?_
    rintro e he
    obtain rfl := Option.some.inj he
    exact .single hw
  · rename_i number hopen
    refine h.withFrames ?_
    have hmem : w ∈ above ++ f.node :: below := hstack ▸ (h.mem_stack w).2 ⟨number, hopen⟩
    -- an open successor with a smaller number lies below the layer
    have hlower : Layer g s.markOf (f.lower number) above below := by
      refine hlayer.lower fun hlt => ⟨w, ?_, hopen, .single hw⟩
      have hlt : number < f.number := Nat.lt_of_lt_of_le hlt hlayer.low_le
      exact List.mem_cons_of_mem _ (hlayer.mem_below_of_lt (hstack ▸ h.sorted) hmem hopen hlt)
    rw [hstack]
    exact .cons (hlower.pass hp (.inr ⟨number, hopen, Nat.min_le_right _ _⟩)) hreach houter
  · rename_i hclosed
    refine h.withFrames ?_
    rw [hstack]
    exact .cons (hlayer.pass hp (.inl hclosed)) hreach houter

/-- Lowering the `low` of the latest frame to a number that is not below those of
the stack changes nothing. -/
theorem layered_modifyHead {mark : Nat → Mark} {outer : List Frame} {below : List Nat}
    (h : Layered g mark outer below) {number : Nat}
    (hlate : ∀ v ∈ below, ∀ n, mark v = .open n → n ≤ number) :
    Layered g mark (outer.modifyHead (·.lower number)) below := by
  cases h with
  | nil => exact .nil
  | @cons e outer above below hlayer hreach houter =>
    refine .cons (hlayer.lower fun hlt => ?_) hreach houter
    have := hlayer.low_le
    have := hlate e.node (by simp) e.number hlayer.isOpen
    omega

/-- A report closes the nodes that it cuts off the stack. -/
theorem markOf_report (v w : Nat) :
    (s.report v).markOf w = if w ∈ (cutStack v s.stack).1 then .closed else s.markOf w :=
  getD_closeAll _ _ w

section Report

variable (h : Invariant g s) {f : Frame} {above below : List Nat}
  (hstack : s.stack = above ++ f.node :: below)
include h hstack

/-- The stack is the top layer and what is below it. -/
theorem Invariant.nodup_layers : ((above ++ [f.node]) ++ below).Nodup := by
  have hnodup := hstack ▸ h.nodup_stack
  rw [← List.singleton_append, ← List.append_assoc] at hnodup
  exact hnodup

/-- What is below the top layer is not in it. -/
theorem Invariant.not_mem_top {v : Nat} (hv : v ∈ below) : v ∉ above ++ [f.node] := fun hmem =>
  (List.nodup_append.1 (h.nodup_layers hstack)).2.2 v hmem v hv rfl

/-- The stack is cut at the first node of the top layer. -/
theorem Invariant.cutStack_eq : cutStack f.node s.stack = (above ++ [f.node], below) := by
  have hnodup := (List.nodup_append.1 (h.nodup_layers hstack)).1
  have hnode : f.node ∉ above := fun hmem =>
    (List.nodup_append.1 hnodup).2.2 f.node hmem f.node (List.mem_singleton.2 rfl) rfl
  rw [hstack, cutStack_append hnode]

/-- A report closes the top layer. -/
theorem Invariant.markOf_report_top (w : Nat) :
    (s.report f.node).markOf w = if w ∈ above ++ [f.node] then .closed else s.markOf w := by
  have hcut : (cutStack f.node s.stack).1 = above ++ [f.node] :=
    congrArg Prod.fst (h.cutStack_eq hstack)
  rw [markOf_report, hcut]

/-- Below the top layer the marks stay. -/
theorem Invariant.markOf_report_below {w : Nat} (hw : w ∈ below) :
    (s.report f.node).markOf w = s.markOf w := by
  rw [h.markOf_report_top hstack, if_neg (h.not_mem_top hstack hw)]

/-- The top layer is what is reported, in order. -/
theorem Invariant.reported_report : (s.report f.node).reported =
    (above ++ [f.node]).mergeSort (· ≤ ·) :: s.reported :=
  congrArg (fun cut : List Nat × List Nat => cut.1.mergeSort (· ≤ ·) :: s.reported)
    (h.cutStack_eq hstack)

variable (hlayer : Layer g s.markOf f above below) (hp : f.pending = [])
include hlayer hp

/-- **A report keeps the invariant**: the top layer is a component, and its nodes
become closed. -/
theorem Invariant.report (hroot : f.low = f.number) {frames : List Frame}
    (hframes : Layered g s.markOf frames below) :
    Invariant g ((s.report f.node).withFrames frames) := by
  have hsorted := hstack ▸ h.sorted
  have hopen : ∀ v n, s.markOf v = .open n → v ∈ above ++ f.node :: below := fun v n hv =>
    hstack ▸ (h.mem_stack v).2 ⟨n, hv⟩
  have hbelow : (s.report f.node).stack = below := congrArg Prod.snd (h.cutStack_eq hstack)
  have hmark := h.markOf_report_top hstack
  have hedge : ∀ v ∈ above ++ [f.node], ∀ w ∈ successors g v,
      w ∈ above ++ [f.node] ∨ s.markOf w = .closed := fun v hv w hw =>
    top_or_closed_of_successor hlayer hsorted hp hroot hopen hv hw
  have hreported := h.reported_report hstack
  -- closing the top layer changes the marks of its nodes only
  constructor
  case size_marks => exact (size_closeAll _ _).trans h.size_marks
  case mem_stack =>
    intro w
    show w ∈ (s.report f.node).stack ↔ ∃ n, (s.report f.node).markOf w = .open n
    rw [hbelow, hmark]
    split
    · rename_i hw
      simpa using fun hmem => h.not_mem_top hstack hmem hw
    · rename_i hw
      rw [← h.mem_stack w, hstack, ← List.singleton_append, ← List.append_assoc,
        List.mem_append, or_iff_right hw]
  case sorted =>
    show (s.report f.node).stack.Pairwise _
    rw [hbelow]
    refine (List.pairwise_cons.1 (List.pairwise_append.1 hsorted).2.1).2.imp_of_mem ?_
    rintro v w hv hw ⟨m, n, hm, hn, hlt⟩
    exact ⟨m, n, (h.markOf_report_below hstack hw).trans hm,
      (h.markOf_report_below hstack hv).trans hn, hlt⟩
  case number_lt =>
    intro w n hw
    change (s.report f.node).markOf w = .open n at hw
    rw [hmark] at hw
    split at hw
    · cases hw
    · exact h.number_lt w n hw
  case layered =>
    show Layered g (s.report f.node).markOf frames (s.report f.node).stack
    rw [hbelow]
    refine hframes.mono (fun v hv => h.markOf_report_below hstack hv) fun low w hw => ?_
    unfold Settled
    rw [hmark]
    split
    · exact .inl rfl
    · exact hw
  case closed =>
    intro w hw x hx
    change (s.report f.node).markOf w = .closed at hw
    show (s.report f.node).markOf x = .closed
    rw [hmark] at hw ⊢
    -- an edge out of the top layer leads to a closed node
    by_cases hxtop : x ∈ above ++ [f.node]
    · rw [if_pos hxtop]
    · rw [if_neg hxtop]
      split at hw
      · rename_i hwtop
        exact (hedge w hwtop x hx).resolve_left hxtop
      · exact h.closed w hw x hx
  case mem_reported =>
    intro w
    show w ∈ (s.report f.node).reported.flatten ↔
      w < g.size ∧ (s.report f.node).markOf w = .closed
    rw [hreported, List.flatten_cons, List.mem_append, List.mem_mergeSort, h.mem_reported, hmark]
    split
    · rename_i hw
      obtain ⟨n, hn⟩ := exists_number_of_mem_top hlayer hw
      have hlt : w < g.size := h.size_marks ▸ lt_size_of_ne_closed (by rw [hn]; simp)
      simp [hw, hlt]
    · rename_i hw
      exact or_iff_right hw
  case nodup_reported =>
    show (s.report f.node).reported.flatten.Nodup
    rw [hreported, List.flatten_cons]
    refine List.nodup_append.2 ⟨?_, h.nodup_reported, ?_⟩
    · exact (List.mergeSort_perm _ _).nodup_iff.2
        (List.nodup_append.1 (h.nodup_layers hstack)).1
    · rintro v hv w hw rfl
      obtain ⟨n, hn⟩ := exists_number_of_mem_top hlayer (List.mem_mergeSort.1 hv)
      rw [((h.mem_reported v).1 hw).2] at hn
      cases hn
  case isComponent =>
    show ∀ c ∈ (s.report f.node).reported, IsComponent g c
    rw [hreported]
    refine List.forall_mem_cons.2 ⟨?_, h.isComponent⟩
    exact isComponent_top hlayer hsorted hp hroot hopen h.closed

end Report

/-- **A dropped frame keeps the invariant.** -/
theorem Invariant.finish (h : Invariant g s) {f : Frame} {outer : List Frame}
    (hf : s.frames = f :: outer) (hp : f.pending = []) : Invariant g (s.finish f outer) := by
  have hlayered : Layered g s.markOf (f :: outer) s.stack := hf ▸ h.layered
  obtain ⟨above, below, hstack, hlayer, hreach, houter⟩ := hlayered.exists_layer
  have hsorted := hstack ▸ h.sorted
  -- a layer with the number of its own node as `low` is complete, any other joins the one below
  by_cases hroot : f.low = f.number
  · have hfinish : s.finish f outer =
        (s.report f.node).withFrames (outer.modifyHead (·.lower f.low)) := if_pos hroot
    have hlower : Layered g s.markOf (outer.modifyHead (·.lower f.low)) below := by
      refine layered_modifyHead houter fun v hv n hn => ?_
      have := (earlier_of_mem_below hsorted hv).lt hn hlayer.isOpen
      omega
    rw [hfinish]
    exact h.report hstack hlayer hp hroot hlower
  · have hlt : f.low < f.number := Nat.lt_of_le_of_ne hlayer.low_le hroot
    have hfinish : s.finish f outer = s.withFrames (outer.modifyHead (·.lower f.low)) :=
      if_neg hroot
    rw [hfinish]
    refine h.withFrames ?_
    -- there is a layer below, since something earlier is reached
    cases houter with
    | nil =>
      obtain ⟨w, hw, -⟩ := hlayer.exists_lowest hsorted hlt
      exact absurd hw List.not_mem_nil
    | @cons e outer above' below' he hreach' hrest =>
      have hjoin := hlayer.join hp hlt he (hreach e rfl) hsorted
      have hassoc : s.stack = (above ++ f.node :: above') ++ e.node :: below' := by
        rw [hstack, List.append_assoc, List.cons_append]
      rw [hassoc]
      exact .cons hjoin hreach' hrest

/-! ### Runs -/

/-- **Every step keeps the invariant.** -/
theorem Invariant.step (h : Invariant g s) : Invariant g (s.step g) := by
  unfold Search.step
  split
  · exact h
  · rename_i f outer hf
    split
    · rename_i hp
      exact h.finish hf hp
    · rename_i w rest hp
      exact h.look hf hp

/-- A discovered node stays discovered. -/
theorem markOf_step_ne_fresh {v : Nat} (h : s.markOf v ≠ .fresh) :
    (s.step g).markOf v ≠ .fresh := by
  unfold Search.step
  split
  · exact h
  · rename_i f outer hf
    split
    · unfold Search.finish
      split
      · rw [markOf_report]
        split
        · simp
        · exact h
      · exact h
    · rename_i w rest hp
      unfold Search.look
      split
      · rename_i hfresh
        have hw : (s.withFrames (f.leaving rest :: outer)).markOf w = .fresh := hfresh
        rw [markOf_discover hw]
        split
        · simp
        · exact h
      · exact h
      · exact h

/-- A search without frames has ended. -/
theorem run_of_frames_nil (h : s.frames = []) : s.run g = s := by
  rw [Search.run]
  split <;> simp_all

/-- A search with a frame takes a step. -/
theorem run_of_frames_cons {f : Frame} {outer : List Frame} (h : s.frames = f :: outer) :
    s.run g = (s.step g).run g := by
  rw [Search.run]
  split <;> simp_all

/-- **A run ends**: it is finitely many steps, and no frame is left. -/
theorem run_eq_iterate (g : Adjacency) (s : Search) :
    ∃ n, s.run g = (Search.step g)^[n] s ∧ (s.run g).frames = [] := by
  induction s using Search.run.induct (g := g) with
  | case1 s h =>
    rw [run_of_frames_nil h]
    exact ⟨0, rfl, h⟩
  | case2 s f outer h ih =>
    rw [run_of_frames_cons h]
    obtain ⟨n, hn, hframes⟩ := ih
    exact ⟨n + 1, hn, hframes⟩

/-- What every step keeps, a run keeps. -/
theorem run_keeps {P : Search → Prop} (hP : ∀ s, P s → P (s.step g)) (h : P s) :
    P (s.run g) := by
  obtain ⟨n, hn, -⟩ := run_eq_iterate g s
  rw [hn]
  exact Function.Iterate.rec P h hP n

end Search

end Graph
end Strata
