/-
# Sets of texts

A set of texts is kept as a list in increasing order, each text once; this is
how sets are listed in answers.
-/

import Strata.Text.Basic

namespace Strata
namespace Text

/-- Puts a text where it belongs in an increasing list. -/
def insertText (s : String) : List String → List String
  | [] => [s]
  | t :: rest =>
    if s < t then s :: t :: rest else if s = t then t :: rest else t :: insertText s rest

/-- The texts of a list in increasing order, each of them once. -/
def ordered (texts : List String) : List String := texts.foldr insertText []

theorem mem_insertText {s t : String} {texts : List String} :
    t ∈ insertText s texts ↔ t = s ∨ t ∈ texts := by
  induction texts with
  | nil => simp [insertText]
  | cons u rest ih =>
    unfold insertText
    split
    · simp
    · split
      · rename_i h; simp [h]
      · simp only [List.mem_cons, ih]
        exact or_left_comm

/-- **`ordered` keeps exactly the texts of the list.** -/
theorem mem_ordered {t : String} {texts : List String} : t ∈ ordered texts ↔ t ∈ texts := by
  induction texts with
  | nil => simp [ordered]
  | cons s rest ih =>
    have : ordered (s :: rest) = insertText s (ordered rest) := rfl
    rw [this, mem_insertText, ih, List.mem_cons]

theorem ordered_eq_nil_iff {texts : List String} : ordered texts = [] ↔ texts = [] := by
  simp only [List.eq_nil_iff_forall_not_mem, mem_ordered]

theorem pairwise_insertText (s : String) {texts : List String} (h : texts.Pairwise (· < ·)) :
    (insertText s texts).Pairwise (· < ·) := by
  induction texts with
  | nil => simp [insertText]
  | cons u rest ih =>
    obtain ⟨hu, hrest⟩ := List.pairwise_cons.1 h
    unfold insertText
    split
    · rename_i hlt
      refine List.pairwise_cons.2 ⟨fun t ht => ?_, h⟩
      rcases List.mem_cons.1 ht with rfl | ht
      · exact hlt
      · exact String.lt_trans hlt (hu t ht)
    · rename_i hnlt
      split
      · exact h
      · rename_i hne
        refine List.pairwise_cons.2 ⟨fun t ht => ?_, ih hrest⟩
        rcases mem_insertText.1 ht with rfl | ht
        · refine Decidable.byContradiction fun hnlt' => hne ?_
          exact String.le_antisymm (String.not_lt.1 hnlt') (String.not_lt.1 hnlt)
        · exact hu t ht

/-- **`ordered` is strictly increasing.** -/
theorem pairwise_ordered (texts : List String) : (ordered texts).Pairwise (· < ·) := by
  induction texts with
  | nil => exact .nil
  | cons s rest ih => exact pairwise_insertText s ih

/-- Increasing lists repeat nothing. -/
theorem nodup_of_increasing {texts : List String} (h : texts.Pairwise (· < ·)) : texts.Nodup := by
  refine h.imp fun {s t} hlt heq => ?_
  subst heq
  exact String.lt_irrefl s hlt

/-- Compares two lists of texts element by element, the shorter one first when
it begins the other. -/
def orderTexts : List String → List String → Ordering
  | [], [] => .eq
  | [], _ :: _ => .lt
  | _ :: _, [] => .gt
  | a :: as, b :: bs => (compare a b).then (orderTexts as bs)

end Text
end Strata
