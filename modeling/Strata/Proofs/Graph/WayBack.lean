/-
# The way back to the start of a walk

Specification, section 4.3: the shortest path back to the start when the walk is stuck.

The search for a way back looks at one node after the other, notes for every node
that it finds the node it was found from, and stops at the first node with the
target among its successors. Two things could go wrong: on the way back along the
notes a node could have none, or the queue could end before the target is met.

The first never happens, because a node is noted once, behind the node it was found
from (`Traced.exists_retrace`). The second does not happen where a path leads from
the source to the target: the nodes that were looked at and those in the queue are
all that was met, and the successors of a node that was looked at were met too, so
when the queue is empty no path leaves them (`Searching.exists_path`). As every node
is queued once, there are no more nodes to look at than there are members.
-/

import Mathlib.Data.List.Chain
import Mathlib.Data.List.Perm.Subperm
import Mathlib.Logic.Relation
import Strata.Graph.Cycle
import Strata.Proofs.Lists

namespace Strata
namespace Graph

variable {next : Nat → List Nat} {source target v w : Nat} {origins : Origins}

/-! ### Nodes and their origins -/

/-- The nodes that a search has met, the latest first: those that it found, and its
source. -/
def met (source : Nat) (origins : Origins) : List Nat := origins.map Prod.fst ++ [source]

/-- Every node was found once, as a successor of a node that was met before. -/
inductive Traced (next : Nat → List Nat) (source : Nat) : Origins → Prop where
  | nil : Traced next source []
  | cons {v w : Nat} {origins : Origins} : Traced next source origins →
      w ∉ met source origins → v ∈ met source origins → w ∈ next v →
      Traced next source ((w, v) :: origins)

/-- The source was met before the search. -/
theorem source_mem_met : source ∈ met source origins := by simp [met]

/-- One more note is one more node that was met. -/
theorem mem_met_cons {e : Nat × Nat} :
    w ∈ met source (e :: origins) ↔ w = e.1 ∨ w ∈ met source origins := by simp [met]

/-- Nodes that are noted as found were met last. -/
theorem met_append (found : List Nat) (v : Nat) (origins : Origins) :
    met source ((found.map fun w => (w, v)).reverse ++ origins) =
      found.reverse ++ met source origins := by
  simp [met, Function.comp_def]

/-- The discoveries of a node are its successors that were not met. -/
theorem mem_discoveries :
    w ∈ discoveries next source origins v ↔ w ∈ next v ∧ w ∉ met source origins := by
  simp only [discoveries, met, List.mem_eraseDups, List.mem_filter, Bool.and_eq_true, bne_iff_ne,
    Option.isNone_iff_eq_none, List.lookup_eq_none_iff, List.mem_append, List.mem_map,
    List.mem_singleton, not_or, not_exists, not_and]
  refine and_congr_right fun _ => and_comm.trans (and_congr_left fun _ => ?_)
  exact forall_congr' fun e => imp_congr_right fun _ => ⟨Ne.symm, Ne.symm⟩

namespace Traced

/-- No node is noted twice. -/
theorem nodup_met (h : Traced next source origins) : (met source origins).Nodup := by
  induction h with
  | nil => simp [met]
  | cons _ hw _ _ ih => exact List.nodup_cons.2 ⟨hw, ih⟩

/-- The origin of a node was met. -/
theorem mem_met_of_lookup (h : Traced next source origins) (hlookup : origins.lookup w = some v) :
    v ∈ met source origins := by
  induction h with
  | nil => cases hlookup
  | @cons u x origins _ _ hu _ ih =>
    rw [List.lookup_cons] at hlookup
    split at hlookup
    · obtain rfl := Option.some.inj hlookup
      exact mem_met_cons.2 (.inr hu)
    · exact mem_met_cons.2 (.inr (ih hlookup))

/-- A node that is found later changes no way back. -/
theorem retrace_cons (h : Traced next source origins) (hw : w ∉ met source origins) (u : Nat)
    (hv : v ∈ met source origins) (fuel : Nat) :
    retrace ((w, u) :: origins) source fuel v = retrace origins source fuel v := by
  induction fuel generalizing v with
  | zero => rfl
  | succ fuel ih =>
    have hne : (v == w) = false := beq_false_of_ne fun heq => hw (heq ▸ hv)
    rw [retrace, retrace, List.lookup_cons, hne]
    split
    · rfl
    · cases hlookup : origins.lookup v with
      | none => rfl
      | some x => simp only [ih (h.mem_met_of_lookup hlookup)]

/-- From the source there is nothing to go back. -/
theorem retrace_source (origins : Origins) (source fuel : Nat) :
    retrace origins source fuel source = some [] := by
  cases fuel <;> simp [retrace]

/-- **On the way back along the origins none is missing**, and it is the way from the
source to the node, backwards. -/
theorem exists_retrace (h : Traced next source origins) (hv : v ∈ met source origins)
    {fuel : Nat} (hfuel : origins.length ≤ fuel) :
    ∃ back, retrace origins source fuel v = some back ∧
      (source :: back.reverse).IsChain (fun v w => w ∈ next v) ∧
      (source :: back.reverse).getLast? = some v := by
  induction h generalizing v fuel with
  | nil =>
    obtain rfl : v = source := by simpa [met] using hv
    exact ⟨[], retrace_source _ _ _, .singleton _, rfl⟩
  | @cons u w origins htraced hw hu hstep ih =>
    rw [List.length_cons] at hfuel
    rcases mem_met_cons.1 hv with rfl | hv
    · obtain ⟨fuel, rfl⟩ := Nat.exists_eq_add_of_le' (Nat.le_trans (Nat.le_add_left 1 _) hfuel)
      obtain ⟨back, hback, hchain, hlast⟩ := ih hu (Nat.le_of_succ_le_succ hfuel)
      have hne : v ≠ source := fun heq => hw (heq ▸ source_mem_met)
      refine ⟨v :: back, ?_, ?_, ?_⟩
      · rw [retrace, if_neg hne, List.lookup_cons_self]
        simp only [htraced.retrace_cons hw u hu, hback, Option.map_some]
      · rw [List.reverse_cons, ← List.cons_append, List.isChain_append]
        refine ⟨hchain, .singleton v, fun x hx y hy => ?_⟩
        obtain rfl : u = x := Option.some.inj (hlast.symm.trans hx)
        obtain rfl : v = y := Option.some.inj hy
        exact hstep
      · rw [List.reverse_cons, ← List.cons_append, List.getLast?_concat]
    · rw [htraced.retrace_cons hw u hv]
      exact ih hv (Nat.le_of_succ_le hfuel)

/-- What is found from a node that was met. -/
theorem append (h : Traced next source origins) (hv : v ∈ met source origins) {found : List Nat}
    (hnodup : found.Nodup) (hfound : ∀ w ∈ found, w ∈ next v ∧ w ∉ met source origins) :
    Traced next source ((found.map fun w => (w, v)).reverse ++ origins) := by
  induction found generalizing origins with
  | nil => exact h
  | cons w found ih =>
    obtain ⟨hw, hnodup⟩ := List.nodup_cons.1 hnodup
    obtain ⟨⟨hstep, hnew⟩, hfound⟩ := List.forall_mem_cons.1 hfound
    rw [List.map_cons, List.reverse_cons, List.append_assoc]
    refine ih (h.cons hnew hv hstep) (mem_met_cons.2 (.inr hv)) hnodup fun x hx => ?_
    refine ⟨(hfound x hx).1, fun hmet => ?_⟩
    rcases mem_met_cons.1 hmet with rfl | hmet
    · exact hw hx
    · exact (hfound x hx).2 hmet

end Traced

/-! ### The search -/

/-- The state of a search among the members of `c`: `done` was looked at and `queue` was
not, both in the order in which they were met. -/
structure Searching (next : Nat → List Nat) (c : List Nat) (source target : Nat)
    (done queue : List Nat) (origins : Origins) : Prop where
  traced : Traced next source origins
  met : (met source origins).reverse = done ++ queue
  within : ∀ v ∈ Graph.met source origins, v ∈ c
  missed : ∀ v ∈ done, target ∉ next v ∧ ∀ w ∈ next v, w ∈ Graph.met source origins

namespace Searching

variable {c done queue : List Nat}

/-- The search begins with the source in the queue. -/
theorem start (hsource : source ∈ c) : Searching next c source target [] [source] [] where
  traced := .nil
  met := rfl
  within v hv := by
    obtain rfl : v = source := by simpa [Graph.met] using hv
    exact hsource
  missed _ hv := absurd hv List.not_mem_nil

/-- The nodes that were met are those that are done and those in the queue. -/
theorem mem_met_iff (h : Searching next c source target done queue origins) :
    v ∈ Graph.met source origins ↔ v ∈ done ∨ v ∈ queue := by
  rw [← List.mem_reverse, h.met, List.mem_append]

/-- Only members are looked at or queued, each of them once. -/
theorem length_le (h : Searching next c source target done queue origins) :
    done.length + queue.length ≤ c.length := by
  rw [← List.length_append, ← h.met, List.length_reverse]
  exact h.traced.nodup_met.length_le_of_subset h.within

/-- A node without the target among its successors is looked at. -/
theorem step (h : Searching next c source target done (v :: queue) origins)
    (hinner : ∀ v ∈ c, ∀ w ∈ next v, w ∈ c) (hmiss : target ∉ next v) :
    Searching next c source target (done ++ [v]) (queue ++ discoveries next source origins v)
      (((discoveries next source origins v).map fun w => (w, v)).reverse ++ origins) := by
  have hv : v ∈ Graph.met source origins := h.mem_met_iff.2 (.inr List.mem_cons_self)
  have hmet (w : Nat) : w ∈ Graph.met source
      (((discoveries next source origins v).map fun w => (w, v)).reverse ++ origins) ↔
        w ∈ discoveries next source origins v ∨ w ∈ Graph.met source origins := by
    rw [met_append, List.mem_append, List.mem_reverse]
  refine ⟨h.traced.append hv (nodup_eraseDups _) fun w hw => mem_discoveries.1 hw, ?_, ?_, ?_⟩
  · rw [met_append, List.reverse_append, List.reverse_reverse, h.met]
    simp
  · intro w hw
    rcases (hmet w).1 hw with hw | hw
    · exact hinner v (h.within v hv) w (mem_discoveries.1 hw).1
    · exact h.within w hw
  · intro u hu
    rcases List.mem_append.1 hu with hu | hu
    · exact ⟨(h.missed u hu).1, fun w hw => (hmet w).2 (.inr ((h.missed u hu).2 w hw))⟩
    · obtain rfl := List.mem_singleton.1 hu
      refine ⟨hmiss, fun w hw => (hmet w).2 ?_⟩
      by_cases hold : w ∈ Graph.met source origins
      · exact .inr hold
      · exact .inl (mem_discoveries.2 ⟨hw, hold⟩)

/-- When the queue is empty no path leads to the target. -/
theorem not_transGen (h : Searching next c source target done [] origins) :
    ¬ Relation.TransGen (fun v w => w ∈ next v) source target := by
  intro hpath
  have hdone {v : Nat} (hv : v ∈ Graph.met source origins) : v ∈ done :=
    (h.mem_met_iff.1 hv).resolve_right List.not_mem_nil
  obtain ⟨u, hreach, hlast⟩ := Relation.TransGen.tail'_iff.1 hpath
  have hu : u ∈ Graph.met source origins := by
    clear hpath hlast
    induction hreach with
    | refl => exact source_mem_met
    | tail _ hstep ih => exact (h.missed _ (hdone ih)).2 _ hstep
  exact (h.missed u (hdone hu)).1 hlast

/-- **The search finds a path where there is one.** -/
theorem exists_path (h : Searching next c source target done queue origins)
    (hinner : ∀ v ∈ c, ∀ w ∈ next v, w ∈ c)
    (hpath : Relation.TransGen (fun v w => w ∈ next v) source target) {fuel : Nat}
    (hfuel : c.length ≤ fuel + done.length) :
    ∃ path, searchBack? next source target fuel queue origins = some path ∧
      (source :: path).IsChain (fun v w => w ∈ next v) ∧ path.getLast? = some target := by
  -- on the fuel: every node is queued once, so the fuel suffices for those that are not done
  induction fuel generalizing done queue origins with
  | zero =>
    have hlength := h.length_le
    obtain rfl : queue = [] := List.length_eq_zero_iff.1 (by omega)
    exact absurd hpath h.not_transGen
  | succ fuel ih =>
    -- an empty queue would cut the target off from the source
    cases queue with
    | nil => exact absurd hpath h.not_transGen
    | cons v queue =>
      by_cases hfound : (next v).contains target = true
      · have hv : v ∈ Graph.met source origins := h.mem_met_iff.2 (.inr List.mem_cons_self)
        obtain ⟨back, hback, hchain, hlast⟩ := h.traced.exists_retrace hv (Nat.le_refl _)
        refine ⟨back.reverse ++ [target], ?_, ?_, by simp⟩
        · rw [searchBack?, if_pos hfound, hback, Option.map_some, List.reverse_cons]
        · rw [← List.cons_append, List.isChain_append]
          refine ⟨hchain, .singleton target, fun x hx y hy => ?_⟩
          obtain rfl : v = x := Option.some.inj (hlast.symm.trans hx)
          obtain rfl : target = y := Option.some.inj hy
          exact List.contains_iff_mem.1 hfound
      · have hmiss : target ∉ next v := fun hmem => hfound (List.contains_iff_mem.2 hmem)
        rw [searchBack?, if_neg hfound]
        exact ih (h.step hinner hmiss) (by rw [List.length_append, List.length_singleton]; omega)

end Searching

/-- A path that is found is found with more fuel too. -/
theorem searchBack?_mono {fuel more : Nat} {queue path : List Nat}
    (h : searchBack? next source target fuel queue origins = some path) (hle : fuel ≤ more) :
    searchBack? next source target more queue origins = some path := by
  induction fuel generalizing more queue origins with
  | zero => cases h
  | succ fuel ih =>
    obtain ⟨more, rfl⟩ := Nat.exists_eq_add_of_le' (Nat.le_trans (Nat.le_add_left 1 _) hle)
    cases queue with
    | nil => cases h
    | cons v queue =>
      rw [searchBack?] at h ⊢
      split at h
      · rename_i hfound
        rwa [if_pos hfound]
      · rename_i hfound
        rw [if_neg hfound]
        exact ih h (Nat.le_of_succ_le_succ hle)

/-- **There is a way back from a member to each that a path leads to.** -/
theorem exists_pathBack? {c : List Nat} (hinner : ∀ v ∈ c, ∀ w ∈ next v, w ∈ c)
    (hsource : source ∈ c) (hpath : Relation.TransGen (fun v w => w ∈ next v) source target) :
    ∃ path, (source :: path).IsChain (fun v w => w ∈ next v) ∧ path.getLast? = some target ∧
      ∀ size, c.length ≤ size → pathBack? next size source target = some path := by
  obtain ⟨path, hfound, hchain, hlast⟩ :=
    (Searching.start hsource).exists_path hinner hpath (Nat.le_add_right c.length _)
  exact ⟨path, hchain, hlast, fun size hsize => searchBack?_mono hfound hsize⟩

end Graph
end Strata
