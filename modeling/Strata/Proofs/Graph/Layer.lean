/-
# Layers of the search stack

The stack of open nodes is cut into layers, one for each frame: a layer is the
node of its frame and, above it, the open nodes whose successors were all
looked at since. `Layer` says what the search knows about one layer:

| about | what is known |
| --- | --- |
| the node of the frame | it reaches an open node with the number `low`, and the whole layer |
| every successor that was looked at | it is closed, or open with a number not below `low` |
| a node above that of the frame | it reaches an open node that was discovered earlier |

A layer changes in three ways: a successor is passed over (`Layer.pass`), `low`
is lowered (`Layer.lower`), and a layer that is done without being complete
joins the one below (`Layer.join`).
-/

import Strata.Graph.Component

namespace Strata
namespace Graph

variable {g : Adjacency}

/-! ### Reachability -/

/-- A node reaches its successors. -/
theorem Reaches.single {v w : Nat} (h : w ∈ successors g v) : Reaches g v w := .step h (.refl w)

/-- What every successor keeps, every reachable node keeps. -/
theorem Reaches.keeps {P : Nat → Prop} (hP : ∀ v, P v → ∀ w ∈ successors g v, P w) {v w : Nat}
    (h : Reaches g v w) (hv : P v) : P w := by
  induction h with
  | refl => exact hv
  | step hs _ ih => exact ih (hP _ hv _ hs)

/-- A component as it is reported: increasing, not empty, and with each node all
nodes that it reaches and that reach it. -/
structure IsComponent (g : Adjacency) (c : List Nat) : Prop where
  nonempty : c ≠ []
  increasing : c.Pairwise (· < ·)
  mem_iff : ∀ v ∈ c, ∀ w, w ∈ c ↔ Reaches g v w ∧ Reaches g w v

/-! ### Layers of the stack -/

/-- The first node was discovered before the second; both are open. -/
def Earlier (mark : Nat → Mark) (w v : Nat) : Prop :=
  ∃ m n, mark w = .open m ∧ mark v = .open n ∧ m < n

/-- The node is closed, or open with a number not below `low`. -/
def Settled (mark : Nat → Mark) (low w : Nat) : Prop :=
  mark w = .closed ∨ ∃ m, mark w = .open m ∧ low ≤ m

/-- The numbers of two open nodes tell which was discovered earlier. -/
theorem Earlier.lt {mark : Nat → Mark} {w v m n : Nat} (h : Earlier mark w v)
    (hw : mark w = .open m) (hv : mark v = .open n) : m < n := by
  obtain ⟨i, j, hi, hj, hij⟩ := h
  rw [hw] at hi
  rw [hv] at hj
  have hm := Mark.open.inj hi
  have hn := Mark.open.inj hj
  omega

/-- No node was discovered before itself. -/
theorem Earlier.irrefl {mark : Nat → Mark} {v : Nat} : ¬ Earlier mark v v := by
  intro h
  have hself := h
  obtain ⟨m, -, hm, -⟩ := hself
  exact Nat.lt_irrefl m (h.lt hm hm)

/-- A node that is settled for a number is settled for smaller ones. -/
theorem Settled.mono {mark : Nat → Mark} {low low' w : Nat} (h : Settled mark low w)
    (hle : low' ≤ low) : Settled mark low' w :=
  h.imp_right fun ⟨m, hm, hlow⟩ => ⟨m, hm, Nat.le_trans hle hlow⟩

/-- What is known about a frame, the nodes `above` its node in its layer, and
the stack `below`. -/
structure Layer (g : Adjacency) (mark : Nat → Mark) (f : Frame) (above below : List Nat) :
    Prop where
  isOpen : mark f.node = .open f.number
  low_le : f.low ≤ f.number
  low_reached : ∃ w ∈ f.node :: below, mark w = .open f.low ∧ Reaches g f.node w
  looked : ∃ done, successors g f.node = done ++ f.pending ∧ ∀ w ∈ done, Settled mark f.low w
  reached : ∀ v ∈ above, Reaches g f.node v
  settled : ∀ v ∈ above, ∀ w ∈ successors g v, Settled mark f.low w
  falls : ∀ v ∈ above, ∃ w ∈ above ++ f.node :: below, Earlier mark w v ∧ Reaches g v w

/-- The stack in layers, one for each frame; the node of a frame is reached from
that of the frame below it. -/
inductive Layered (g : Adjacency) (mark : Nat → Mark) : List Frame → List Nat → Prop where
  | nil : Layered g mark [] []
  | cons {f : Frame} {outer : List Frame} {above below : List Nat} :
      Layer g mark f above below → (∀ e ∈ outer.head?, Reaches g e.node f.node) →
      Layered g mark outer below → Layered g mark (f :: outer) (above ++ f.node :: below)

/-- The latest frame stands for the top layer of the stack. -/
theorem Layered.exists_layer {mark : Nat → Mark} {f : Frame} {outer : List Frame}
    {stack : List Nat} (h : Layered g mark (f :: outer) stack) :
    ∃ above below, stack = above ++ f.node :: below ∧ Layer g mark f above below ∧
      (∀ e ∈ outer.head?, Reaches g e.node f.node) ∧ Layered g mark outer below := by
  cases h with
  | cons hlayer hreach hrest => exact ⟨_, _, rfl, hlayer, hreach, hrest⟩

/-- The layer of a node that was just discovered. -/
theorem Layer.enter {mark : Nat → Mark} {v number : Nat} (hv : mark v = .open number)
    (below : List Nat) : Layer g mark (.enter g v number) [] below where
  isOpen := hv
  low_le := Nat.le_refl number
  low_reached := ⟨v, List.mem_cons_self, hv, .refl v⟩
  looked := ⟨[], rfl, fun _ hw => absurd hw List.not_mem_nil⟩
  reached _ hw := absurd hw List.not_mem_nil
  settled _ hw := absurd hw List.not_mem_nil
  falls _ hw := absurd hw List.not_mem_nil

/-- The layers stay when the marks change elsewhere. -/
theorem Layer.mono {mark mark' : Nat → Mark} {f : Frame} {above below : List Nat}
    (h : Layer g mark f above below) (hstay : ∀ v ∈ above ++ f.node :: below, mark' v = mark v)
    (hsettled : ∀ low w, Settled mark low w → Settled mark' low w) :
    Layer g mark' f above below := by
  have hnode : ∀ v ∈ f.node :: below, mark' v = mark v := fun v hv =>
    hstay v (List.mem_append_right above hv)
  obtain ⟨lowest, hlowest, hlow, hreach⟩ := h.low_reached
  obtain ⟨done, hdone, hlooked⟩ := h.looked
  refine ⟨?_, h.low_le, ⟨lowest, hlowest, ?_, hreach⟩,
    ⟨done, hdone, fun w hw => hsettled _ w (hlooked w hw)⟩, h.reached,
    fun v hv w hw => hsettled _ w (h.settled v hv w hw), fun v hv => ?_⟩
  · rw [hnode _ List.mem_cons_self, h.isOpen]
  · rw [hnode _ hlowest, hlow]
  · obtain ⟨w, hw, ⟨m, n, hm, hn, hlt⟩, hvw⟩ := h.falls v hv
    refine ⟨w, hw, ⟨m, n, ?_, ?_, hlt⟩, hvw⟩
    · rw [hstay w hw, hm]
    · rw [hstay v (List.mem_append_left _ hv), hn]

/-- The layers stay while the marks of the stack stay and settled nodes stay settled. -/
theorem Layered.mono {mark mark' : Nat → Mark} {frames : List Frame} {stack : List Nat}
    (h : Layered g mark frames stack) (hstay : ∀ v ∈ stack, mark' v = mark v)
    (hsettled : ∀ low w, Settled mark low w → Settled mark' low w) :
    Layered g mark' frames stack := by
  induction h with
  | nil => exact .nil
  | cons hlayer hreach _ ih =>
    refine .cons (hlayer.mono hstay hsettled) hreach (ih fun v hv => hstay v ?_)
    exact List.mem_append_right _ (List.mem_cons_of_mem _ hv)

section Layer

variable {mark : Nat → Mark} {f : Frame} {above below : List Nat}

/-- A lower `low` is right when a node below has that number and is reached. -/
theorem Layer.lower (h : Layer g mark f above below) {number : Nat}
    (hlow : number < f.low →
      ∃ w ∈ f.node :: below, mark w = .open number ∧ Reaches g f.node w) :
    Layer g mark (f.lower number) above below := by
  have hmin : (f.lower number).low = min f.low number := rfl
  have hle : (f.lower number).low ≤ f.low := by omega
  obtain ⟨done, hdone, hlooked⟩ := h.looked
  refine ⟨h.isOpen, Nat.le_trans hle h.low_le, ?_,
    ⟨done, hdone, fun w hw => (hlooked w hw).mono hle⟩, h.reached,
    fun v hv w hw => (h.settled v hv w hw).mono hle, h.falls⟩
  by_cases hlt : number < f.low
  · rw [hmin, Nat.min_eq_right (Nat.le_of_lt hlt)]
    exact hlow hlt
  · rw [hmin, Nat.min_eq_left (Nat.not_lt.1 hlt)]
    exact h.low_reached

/-- A successor that is settled counts as looked at. -/
theorem Layer.pass (h : Layer g mark f above below) {w : Nat} {rest : List Nat}
    (hp : f.pending = w :: rest) (hw : Settled mark f.low w) :
    Layer g mark (f.leaving rest) above below := by
  obtain ⟨done, hdone, hlooked⟩ := h.looked
  refine ⟨h.isOpen, h.low_le, h.low_reached, ⟨done ++ [w], ?_, fun v hv => ?_⟩, h.reached,
    h.settled, h.falls⟩
  · have hsplit : successors g f.node = done ++ f.pending := hdone
    rw [List.append_assoc, List.singleton_append]
    rw [hp] at hsplit
    exact hsplit
  · rcases List.mem_append.1 hv with hv | hv
    · exact hlooked v hv
    · exact List.mem_singleton.1 hv ▸ hw

/-- The successors of a frame without pending ones are settled. -/
theorem Layer.settled_of_pending_nil (h : Layer g mark f above below) (hp : f.pending = [])
    {w : Nat} (hw : w ∈ successors g f.node) : Settled mark f.low w := by
  obtain ⟨done, hdone, hlooked⟩ := h.looked
  rw [hdone, hp, List.append_nil] at hw
  exact hlooked w hw

/-- What is open with a number below that of the frame is below the layer. -/
theorem Layer.mem_below_of_lt (h : Layer g mark f above below)
    (hsorted : (above ++ f.node :: below).Pairwise fun v w => Earlier mark w v) {w m : Nat}
    (hw : w ∈ above ++ f.node :: below) (hm : mark w = .open m) (hlt : m < f.number) :
    w ∈ below := by
  rcases List.mem_append.1 hw with habove | hw
  · have hearlier : Earlier mark f.node w :=
      (List.pairwise_append.1 hsorted).2.2 w habove f.node List.mem_cons_self
    have := hearlier.lt h.isOpen hm
    omega
  · refine (List.mem_cons.1 hw).resolve_left fun heq => ?_
    rw [heq, h.isOpen] at hm
    have := Mark.open.inj hm
    omega

/-- A frame whose `low` is below its number reaches an open node below its layer. -/
theorem Layer.exists_lowest (h : Layer g mark f above below)
    (hsorted : (above ++ f.node :: below).Pairwise fun v w => Earlier mark w v)
    (hlt : f.low < f.number) :
    ∃ w ∈ below, mark w = .open f.low ∧ Reaches g f.node w := by
  obtain ⟨w, hw, hlow, hreach⟩ := h.low_reached
  exact ⟨w, h.mem_below_of_lt hsorted (List.mem_append_right above hw) hlow hlt, hlow, hreach⟩

/-- **A layer joins the one below.** When all successors of the latest frame
were looked at, and its node reaches an earlier open node, the layer falls to
the frame below, which takes over its `low`. -/
theorem Layer.join {e : Frame} {above' below' : List Nat}
    (hf : Layer g mark f above (above' ++ e.node :: below')) (hp : f.pending = [])
    (hlt : f.low < f.number) (he : Layer g mark e above' below')
    (hreach : Reaches g e.node f.node)
    (hsorted : (above ++ f.node :: (above' ++ e.node :: below')).Pairwise
      fun v w => Earlier mark w v) :
    Layer g mark (e.lower f.low) (above ++ f.node :: above') below' := by
  -- the open node with the number `low`, which lies below the layer that is joined
  obtain ⟨lowest, hbelow, hlowest, hlow⟩ := hf.exists_lowest hsorted hlt
  have hrest : (above' ++ e.node :: below').Pairwise fun v w => Earlier mark w v :=
    (List.pairwise_cons.1 (List.pairwise_append.1 hsorted).2.1).2
  have hlower : Layer g mark (e.lower f.low) above' below' := by
    refine he.lower fun hless => ⟨lowest, ?_, hlowest, hreach.trans hlow⟩
    have hless : f.low < e.number := Nat.lt_of_lt_of_le hless he.low_le
    exact List.mem_cons_of_mem _ (he.mem_below_of_lt hrest hbelow hlowest hless)
  have hle : (e.lower f.low).low ≤ f.low := Nat.min_le_right _ _
  have hmono : (e.lower f.low).low ≤ e.low := Nat.min_le_left _ _
  refine ⟨hlower.isOpen, hlower.low_le, hlower.low_reached, hlower.looked, ?_, ?_, ?_⟩
  · refine List.forall_mem_append.2 ⟨fun v hv => hreach.trans (hf.reached v hv), ?_⟩
    exact List.forall_mem_cons.2 ⟨hreach, he.reached⟩
  · refine List.forall_mem_append.2 ⟨fun v hv w hw => (hf.settled v hv w hw).mono hle, ?_⟩
    exact List.forall_mem_cons.2 ⟨fun w hw => (hf.settled_of_pending_nil hp hw).mono hle,
      fun v hv w hw => (he.settled v hv w hw).mono hmono⟩
  · -- what falls back: the node of the upper frame does so now as well, to the lowest one
    rw [List.append_assoc, List.cons_append]
    refine List.forall_mem_append.2 ⟨hf.falls, List.forall_mem_cons.2 ⟨?_, fun v hv => ?_⟩⟩
    · refine ⟨lowest, ?_, ⟨f.low, f.number, hlowest, hf.isOpen, hlt⟩, hlow⟩
      exact List.mem_append_right _ (List.mem_cons_of_mem _ hbelow)
    · obtain ⟨w, hw, hvw⟩ := he.falls v hv
      exact ⟨w, List.mem_append_right _ (List.mem_cons_of_mem _ hw), hvw⟩

end Layer

end Graph
end Strata
