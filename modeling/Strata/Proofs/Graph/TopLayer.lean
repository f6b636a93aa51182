/-
# The top layer of the search stack

When all successors of the latest frame were looked at and its `low` is the
number of its own node, nothing in its layer reaches an open node below: an edge
out of the layer leads to a closed node (`top_or_closed_of_successor`). Every
node of the layer falls back, from one earlier node to the next, to the node of
the frame (`reaches_node_of_mem_top`), which reaches them all. So the layer is a
component (`isComponent_top`).
-/

import Strata.Proofs.Graph.Layer

namespace Strata
namespace Graph

variable {g : Adjacency}

section Top

variable {mark : Nat → Mark} {f : Frame} {above below : List Nat}

theorem earlier_of_mem_below
    (hsorted : (above ++ f.node :: below).Pairwise fun v w => Earlier mark w v) {v : Nat}
    (hv : v ∈ below) : Earlier mark v f.node :=
  (List.pairwise_cons.1 (List.pairwise_append.1 hsorted).2.1).1 v hv

variable (hlayer : Layer g mark f above below)
include hlayer

theorem exists_number_of_mem_top {v : Nat} (hv : v ∈ above ++ [f.node]) :
    ∃ n, mark v = .open n := by
  rcases List.mem_append.1 hv with habove | hnode
  · obtain ⟨-, -, ⟨-, n, -, hn, -⟩, -⟩ := hlayer.falls v habove
    exact ⟨n, hn⟩
  · exact ⟨f.number, List.mem_singleton.1 hnode ▸ hlayer.isOpen⟩

/-- The node of the frame reaches its layer. -/
theorem reaches_of_mem_top {v : Nat} (hv : v ∈ above ++ [f.node]) : Reaches g f.node v := by
  rcases List.mem_append.1 hv with habove | hnode
  · exact hlayer.reached v habove
  · rw [List.mem_singleton.1 hnode]
    exact .refl _

variable (hsorted : (above ++ f.node :: below).Pairwise fun v w => Earlier mark w v)
include hsorted

/-- What is open with a number not below that of the frame is in the layer. -/
theorem mem_top_of_le {w m : Nat} (hw : w ∈ above ++ f.node :: below)
    (hm : mark w = .open m) (hle : f.number ≤ m) : w ∈ above ++ [f.node] := by
  rw [← List.singleton_append, ← List.append_assoc] at hw
  refine (List.mem_append.1 hw).resolve_right fun hbelow => ?_
  have := (earlier_of_mem_below hsorted hbelow).lt hm hlayer.isOpen
  omega

variable (hp : f.pending = []) (hroot : f.low = f.number)
  (hstack : ∀ v n, mark v = .open n → v ∈ above ++ f.node :: below)
include hp hroot hstack

/-- Edges lead from the top layer to the layer or to closed nodes. -/
theorem top_or_closed_of_successor {v w : Nat} (hv : v ∈ above ++ [f.node])
    (hw : w ∈ successors g v) : w ∈ above ++ [f.node] ∨ mark w = .closed := by
  have hsettled : Settled mark f.low w := by
    rcases List.mem_append.1 hv with hv | hv
    · exact hlayer.settled v hv w hw
    · rw [List.mem_singleton.1 hv] at hw
      exact hlayer.settled_of_pending_nil hp hw
  rcases hsettled with hclosed | ⟨m, hm, hle⟩
  · exact .inr hclosed
  · exact .inl (mem_top_of_le hlayer hsorted (hstack w m hm) hm (hroot ▸ hle))

variable (hclosed : ∀ v, mark v = .closed → ∀ w ∈ successors g v, mark w = .closed)
include hclosed

theorem top_or_closed_of_reaches {v w : Nat} (hv : v ∈ above ++ [f.node])
    (h : Reaches g v w) : w ∈ above ++ [f.node] ∨ mark w = .closed := by
  refine h.keeps (P := fun u => u ∈ above ++ [f.node] ∨ mark u = .closed) ?_ (.inl hv)
  rintro u (hu | hu) x hx
  · exact top_or_closed_of_successor hlayer hsorted hp hroot hstack hu hx
  · exact .inr (hclosed u hu x hx)

/-- Every node of the top layer falls back to the node of the frame. -/
theorem reaches_node_of_mem_top {v : Nat} (hv : v ∈ above ++ [f.node]) :
    Reaches g v f.node := by
  have hfalls : ∀ n v, v ∈ above ++ [f.node] → mark v = .open n → Reaches g v f.node := by
    intro n
    induction n using Nat.strongRecOn with
    | _ n ih =>
      intro v hv hn
      rcases List.mem_append.1 hv with habove | hnode
      · obtain ⟨w, hw, ⟨i, j, hi, hj, hlt⟩, hvw⟩ := hlayer.falls v habove
        rw [hn] at hj
        have hj := Mark.open.inj hj
        have htop : w ∈ above ++ [f.node] := by
          refine (top_or_closed_of_reaches hlayer hsorted hp hroot hstack hclosed hv
            hvw).resolve_right fun hw => ?_
          rw [hi] at hw
          cases hw
        exact hvw.trans (ih i (by omega) w htop hi)
      · rw [List.mem_singleton.1 hnode]
        exact .refl _
  obtain ⟨n, hn⟩ := exists_number_of_mem_top hlayer hv
  exact hfalls n v hv hn

/-- **A complete top layer is a component.** -/
theorem isComponent_top : IsComponent g ((above ++ [f.node]).mergeSort (· ≤ ·)) := by
  have hmem : ∀ v, v ∈ (above ++ [f.node]).mergeSort (· ≤ ·) ↔ v ∈ above ++ [f.node] :=
    fun _ => List.mem_mergeSort
  have hfrom : ∀ v ∈ above ++ [f.node], Reaches g f.node v := fun v hv =>
    reaches_of_mem_top hlayer hv
  have hto : ∀ v ∈ above ++ [f.node], Reaches g v f.node := fun v hv =>
    reaches_node_of_mem_top hlayer hsorted hp hroot hstack hclosed hv
  have hnodup : (above ++ [f.node]).Nodup := by
    have hsub : (above ++ [f.node]).Pairwise fun v w => Earlier mark w v := by
      rw [← List.singleton_append, ← List.append_assoc] at hsorted
      exact (List.pairwise_append.1 hsorted).1
    refine hsub.imp fun {v w} hearlier heq => ?_
    rw [heq] at hearlier
    exact Earlier.irrefl hearlier
  refine ⟨fun hnil => ?_, ?_, fun v hv w => ?_⟩
  · have := (hmem f.node).2 (by simp)
    rw [hnil] at this
    exact absurd this List.not_mem_nil
  · have hle : ((above ++ [f.node]).mergeSort (· ≤ ·)).Pairwise
        fun a b => decide (a ≤ b) = true :=
      List.pairwise_mergeSort (fun a b c => by simpa using Nat.le_trans)
        (fun a b => by simpa using Nat.le_total a b) _
    have hne := (List.mergeSort_perm (above ++ [f.node]) (· ≤ ·)).nodup_iff.2 hnodup
    exact hle.imp₂ (fun _ _ hab hne => Nat.lt_of_le_of_ne (of_decide_eq_true hab) hne) hne
  · rw [hmem] at hv ⊢
    constructor
    · intro hw
      exact ⟨(hto v hv).trans (hfrom w hw), (hto w hw).trans (hfrom v hv)⟩
    · rintro ⟨hvw, hwv⟩
      refine (top_or_closed_of_reaches hlayer hsorted hp hroot hstack hclosed hv
        hvw).resolve_right fun hw => ?_
      -- a closed node reaches closed nodes only, and so cannot reach the layer
      have hvclosed : mark v = .closed := hwv.keeps hclosed hw
      obtain ⟨n, hn⟩ := exists_number_of_mem_top hlayer hv
      rw [hn] at hvclosed
      cases hvclosed

end Top

end Graph
end Strata
