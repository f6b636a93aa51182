/-
# Sorting forgets the order before

A sort by a comparison gives the same list for every order of the elements, as
long as no two of them compare equal without being equal
(`mergeSort_eq_of_perm`). Elements that compare equal stay in the order in which
they stood (`filter_mergeSort`). A list in increasing order is told by its elements
(`eq_of_increasing`).
-/

import Mathlib.Data.List.Nodup

namespace Strata

section

variable {α β : Type} {cmp : α → α → Ordering} [Std.TransCmp cmp]

/-- Elements may be compared by what is read off them. -/
theorem transCmp_on (f : β → α) : Std.TransCmp fun a b => cmp (f a) (f b) where
  eq_swap := Std.OrientedCmp.eq_swap
  isLE_trans := Std.TransCmp.isLE_trans

theorem isLE_total (a b : α) : ((cmp a b).isLE || (cmp b a).isLE) = true := by
  rw [Bool.or_eq_true]
  cases hab : cmp a b with
  | lt => exact .inl rfl
  | eq => exact .inl rfl
  | gt =>
    have hba : cmp b a = .lt := Std.OrientedCmp.lt_of_gt hab
    exact .inr (by rw [hba]; rfl)

theorem pairwise_mergeSort (xs : List α) :
    (xs.mergeSort fun a b => (cmp a b).isLE).Pairwise fun a b => (cmp a b).isLE = true :=
  List.pairwise_mergeSort (fun _ _ _ => Std.TransCmp.isLE_trans) isLE_total xs

/-- **Sorting forgets the order before.** -/
theorem mergeSort_eq_of_perm {xs ys : List α} (h : xs.Perm ys)
    (hanti : ∀ a ∈ xs, ∀ b ∈ xs, cmp a b = .eq → a = b) :
    xs.mergeSort (fun a b => (cmp a b).isLE) = ys.mergeSort (fun a b => (cmp a b).isLE) := by
  have hperm := (List.mergeSort_perm xs fun a b => (cmp a b).isLE).trans
    (h.trans (List.mergeSort_perm ys fun a b => (cmp a b).isLE).symm)
  refine hperm.eq_of_pairwise (fun a b ha hb hab hba => ?_) (pairwise_mergeSort xs)
    (pairwise_mergeSort ys)
  have hb : b ∈ xs := h.mem_iff.2 (List.mem_mergeSort.1 hb)
  exact hanti a (List.mem_mergeSort.1 ha) b hb (Std.OrientedCmp.isLE_antisymm hab hba)

/-- **Elements that compare equal stay in their order.** -/
theorem filter_mergeSort {xs : List α} {p : α → Bool}
    (h : ∀ a ∈ xs.filter p, ∀ b ∈ xs.filter p, cmp a b = .eq) :
    (xs.mergeSort fun a b => (cmp a b).isLE).filter p = xs.filter p := by
  have hequal : (xs.filter p).Pairwise fun a b => (cmp a b).isLE = true :=
    List.Pairwise.imp_of_mem (fun ha hb _ => by rw [h _ ha _ hb]; rfl)
      (List.pairwise_of_forall fun _ _ => trivial)
  have hsublist := (List.sublist_mergeSort (fun _ _ _ => Std.TransCmp.isLE_trans) isLE_total
    hequal List.filter_sublist).filter p
  simp only [List.filter_filter, Bool.and_self] at hsublist
  refine (hsublist.eq_of_length ?_).symm
  exact ((List.mergeSort_perm xs _).filter p).length_eq.symm

end

/-- Increasing lists with the same elements are equal. -/
theorem eq_of_increasing {α : Type} {r : α → α → Prop} (hasymm : ∀ a b, r a b → ¬ r b a)
    {xs ys : List α} (hxs : xs.Pairwise r) (hys : ys.Pairwise r)
    (hmem : ∀ a, a ∈ xs ↔ a ∈ ys) : xs = ys := by
  have hne : ∀ {a b : α}, r a b → a ≠ b := fun hab heq => hasymm _ _ hab (heq ▸ hab)
  have hperm : xs.Perm ys := (List.perm_ext_iff_of_nodup (hxs.imp hne) (hys.imp hne)).2 hmem
  exact hperm.eq_of_pairwise (fun a b _ _ hab hba => absurd hba (hasymm a b hab)) hxs hys

end Strata
