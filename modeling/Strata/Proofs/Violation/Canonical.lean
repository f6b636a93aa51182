/-
# How far sorting violations is canonical

Specification, section 3: the order of violations, with a missing target as an empty one.

The order of violations reads a missing target as an empty one. So it ties two violations
exactly when they are the same once that is filled in, and a sort, which leaves ties as they
stood, forgets the order before for everything but such a pair:

| violations | sorted |
| --- | --- |
| the same up to their order and missing targets | the same up to missing targets |
| no two that differ only in an empty target and none | the same for every order |
| two of this kind | not the same for every order |

No rule makes two violations of this kind (`Violation.sort_eq_of_perm`).
-/

import Strata.Proofs.Violation

namespace Strata
namespace Violation

/-- The violation with an empty target when it has none. -/
def filled (v : Violation) : Violation := { v with target := some v.targetText }

/-- **A tie leaves open only whether an empty target is there.** -/
theorem order_eq_iff {v w : Violation} : v.order w = .eq ↔ v.filled = w.filled := by
  simp only [order, filled, Ordering.then_eq_eq, Std.LawfulEqOrd.compare_eq_iff_eq, mk.injEq,
    Option.some.injEq]
  constructor
  · rintro ⟨hrule, hfile, htarget, hmessage, hseverity⟩
    exact ⟨hrule, Severity.rank_injective hseverity, hfile, htarget, hmessage⟩
  · rintro ⟨hrule, hseverity, hfile, htarget, hmessage⟩
    exact ⟨hrule, hfile, htarget, hmessage, congrArg Severity.rank hseverity⟩

/-- Sorting does not tell a missing target from an empty one. -/
theorem map_filled_sort (vs : List Violation) :
    (sort vs).map filled = sort (vs.map filled) :=
  List.map_mergeSort fun _ _ _ _ => rfl

/-- Violations that are the same up to missing targets and their order are so when sorted. -/
theorem map_filled_sort_eq_iff {vs ws : List Violation} :
    (sort vs).map filled = (sort ws).map filled ↔ (vs.map filled).Perm (ws.map filled) := by
  constructor
  · intro heq
    exact ((sort_perm vs).map filled).symm.trans
      ((List.Perm.of_eq heq).trans ((sort_perm ws).map filled))
  · intro hperm
    rw [map_filled_sort, map_filled_sort]
    refine mergeSort_eq_of_perm hperm fun v hv w hw htie => ?_
    obtain ⟨v, -, rfl⟩ := List.mem_map.1 hv
    obtain ⟨w, -, rfl⟩ := List.mem_map.1 hw
    exact order_eq_iff.1 htie

/-- Two violations that tie are sorted as they stand. -/
theorem eq_of_sort_eq {v w : Violation} (htie : v.filled = w.filled) {rest : List Violation}
    (h : sort (v :: w :: rest) = sort (w :: v :: rest)) : v = w := by
  -- among all that tie with them, which the sort leaves in their order, they come first
  have hstay (vs : List Violation) :
      (sort vs).filter (fun x => x.filled = v.filled) = vs.filter fun x => x.filled = v.filled := by
    refine filter_mergeSort fun x hx y hy => order_eq_iff.2 ?_
    have hx : x.filled = v.filled := by simpa using (List.mem_filter.1 hx).2
    have hy : y.filled = v.filled := by simpa using (List.mem_filter.1 hy).2
    exact hx.trans hy.symm
  have hfilters := congrArg (List.filter fun x => x.filled = v.filled) h
  rw [hstay, hstay] at hfilters
  simp only [List.filter_cons, htie, decide_true, if_true] at hfilters
  exact List.head_eq_of_cons_eq hfilters

/-- **Sorting is canonical up to missing targets, and no further.** Two violations tie exactly
when they are the same with a missing target filled in as an empty one. Two lists are sorted to
the same violations up to that exactly when they hold the same ones up to that, however often
and in whatever order. And all orders of a list are sorted alike exactly when no two different
violations in it tie. Source: specification, section 3, the order of violations. -/
theorem sort_canonical (vs : List Violation) :
    (∀ v w : Violation, v.order w = .eq ↔ v.filled = w.filled) ∧
    (∀ ws, (sort vs).map filled = (sort ws).map filled ↔ (vs.map filled).Perm (ws.map filled)) ∧
    ((∀ ws, vs.Perm ws → sort vs = sort ws) ↔
      ∀ v ∈ vs, ∀ w ∈ vs, v.filled = w.filled → v = w) := by
  refine ⟨fun _ _ => order_eq_iff, fun _ => map_filled_sort_eq_iff, fun hall v hv w hw htie => ?_,
    fun hanti ws hperm => ?_⟩
  · by_cases heq : v = w
    · exact heq
    · have hrest : vs.Perm (v :: w :: (vs.erase v).erase w) :=
        (List.perm_cons_erase hv).trans
          (.cons v (List.perm_cons_erase ((List.mem_erase_of_ne (Ne.symm heq)).2 hw)))
      exact eq_of_sort_eq htie
        ((hall _ hrest).symm.trans (hall _ (hrest.trans (.swap w v _))))
  · exact mergeSort_eq_of_perm hperm fun v hv w hw hvw => hanti v hv w hw (order_eq_iff.1 hvw)

/-- A violation without a target and the same with an empty one tie, so each order of the two
is sorted as it stands. -/
theorem sort_keeps_tie :
    error .cycle "a" "m" none ≠ error .cycle "a" "m" (some "") ∧
    (error .cycle "a" "m" none).order (error .cycle "a" "m" (some "")) = .eq ∧
    [error .cycle "a" "m" none, error .cycle "a" "m" (some "")].Perm
      [error .cycle "a" "m" (some ""), error .cycle "a" "m" none] ∧
    sort [error .cycle "a" "m" none, error .cycle "a" "m" (some "")] ≠
      sort [error .cycle "a" "m" (some ""), error .cycle "a" "m" none] := by
  have hne : error .cycle "a" "m" none ≠ error .cycle "a" "m" (some "") := by decide
  have htie : (error .cycle "a" "m" none).filled = (error .cycle "a" "m" (some "")).filled := rfl
  exact ⟨hne, order_eq_iff.2 htie, .swap _ _ [], fun heq => hne (eq_of_sort_eq htie heq)⟩

end Violation
end Strata
