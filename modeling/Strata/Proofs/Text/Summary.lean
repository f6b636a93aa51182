/-
# Summaries of one line

Specification, section 2: compact previews and summaries.

A summary puts the words of a text on one line, with a space between neighbours, and cuts what
is longer than its limit. The line is the text itself, its ends trimmed and every run of blanks
in it squeezed to one space (`collapse_eq_squeeze`).

The cut counts characters and pays no heed to words. It may fall into a word, behind a space,
or in front of everything:

| line | limit | summary |
| --- | --- | --- |
| `ab cd` | 4 | `ab c...` |
| `ab cd` | 3 | `ab ...` |
| `ab cd` | 0 | `...` |

Whichever it is, the dots end the last word or are a word of their own, so a summary is a line
of words again (`exists_words_cut`), and its own summary (`compactLine_summary`).
-/

import Mathlib.Data.List.Basic
import Mathlib.Data.List.Induction
import Strata.Text.Summary

namespace Strata
namespace Text

/-! ### Words -/

/-- A text that is a word: not empty, and without blanks. -/
def Unbroken (w : List Char) : Prop := w ≠ [] ∧ ∀ c ∈ w, isBlank c = false

/-- **A blank cuts words.** -/
theorem wordsOf_append_cons {x : Char} (hx : isBlank x = true) (xs ys : List Char) :
    wordsOf (xs ++ x :: ys) = wordsOf xs ++ wordsOf ys := by
  rw [wordsOf, splitWhere_append_cons hx, List.filter_append]
  rfl

theorem wordsOf_cons_blank {x : Char} (hx : isBlank x = true) (cs : List Char) :
    wordsOf (x :: cs) = wordsOf cs := wordsOf_append_cons hx [] cs

theorem wordsOf_concat_blank {x : Char} (hx : isBlank x = true) (cs : List Char) :
    wordsOf (cs ++ [x]) = wordsOf cs := by
  rw [wordsOf_append_cons hx, show wordsOf [] = [] from rfl, List.append_nil]

theorem Unbroken.wordsOf_eq {w : List Char} (h : Unbroken w) : wordsOf w = [w] := by
  rw [wordsOf, splitWhere_eq_singleton h.2]
  simp [h.1]

theorem wordsOf_trimStart (cs : List Char) : wordsOf (trimStart cs) = wordsOf cs := by
  induction cs with
  | nil => rfl
  | cons c cs ih =>
    by_cases hc : isBlank c = true
    · rw [trimStart, List.dropWhile_cons_of_pos hc, wordsOf_cons_blank hc]
      exact ih
    · rw [trimStart, List.dropWhile_cons_of_neg hc]

/-- Blanks at the ends belong to no word. -/
theorem wordsOf_trimChars (cs : List Char) : wordsOf (trimChars cs) = wordsOf cs := by
  have hend (cs : List Char) : wordsOf (dropTrailing isBlank cs) = wordsOf cs := by
    induction cs using List.reverseRecOn with
    | nil => rfl
    | append_singleton cs c ih =>
      unfold dropTrailing at ih ⊢
      rw [List.reverse_append, List.reverse_singleton, List.singleton_append]
      by_cases hc : isBlank c = true
      · rw [List.dropWhile_cons_of_pos hc, wordsOf_concat_blank hc]
        exact ih
      · rw [List.dropWhile_cons_of_neg hc, List.reverse_cons, List.reverse_reverse]
  rw [trimChars, hend, wordsOf_trimStart]

theorem unbroken_of_mem_wordsOf {cs w : List Char} (h : w ∈ wordsOf cs) : Unbroken w := by
  obtain ⟨hpiece, hne⟩ := List.mem_filter.1 h
  exact ⟨by simpa using hne, eq_false_of_mem_splitWhere hpiece⟩

/-- **Words on a line are read back.** -/
theorem wordsOf_joinChars {ws : List (List Char)} (h : ∀ w ∈ ws, Unbroken w) :
    wordsOf (joinChars [' '] ws) = ws := by
  induction ws with
  | nil => rfl
  | cons w ws ih =>
    obtain ⟨hw, hws⟩ := List.forall_mem_cons.1 h
    by_cases hnil : ws = []
    · subst hnil
      exact hw.wordsOf_eq
    · rw [joinChars_cons w hnil, List.append_assoc, List.singleton_append,
        wordsOf_append_cons rfl, hw.wordsOf_eq, ih hws]
      rfl

/-! ### The line of a text -/

/-- Every run of blanks written as one space. -/
def squeeze : List Char → List Char
  | [] => []
  | c :: cs => if isBlank c then ' ' :: squeeze (trimStart cs) else c :: squeeze cs
termination_by cs => cs.length
decreasing_by
  · exact Nat.lt_succ_of_le (length_trimStart_le cs)
  · exact Nat.lt_succ_self _

theorem collapse_trimStart (cs : List Char) : collapse (trimStart cs) = collapse cs := by
  rw [collapse, wordsOf_trimStart]
  rfl

theorem collapse_cons_blank {x : Char} (hx : isBlank x = true) (cs : List Char) :
    collapse (x :: cs) = collapse cs := by
  rw [collapse, wordsOf_cons_blank hx]
  rfl

/-- Where no blank stands at the end there is a last word. -/
theorem wordsOf_ne_nil {cs : List Char} (hne : cs ≠ [])
    (hlast : ∀ x, cs.getLast? = some x → isBlank x = false) : wordsOf cs ≠ [] := by
  obtain ⟨x, hx⟩ := Option.ne_none_iff_exists'.1 (mt List.getLast?_eq_none_iff.1 hne)
  obtain ⟨front, rfl⟩ := List.getLast?_eq_some_iff.1 hx
  have hsingle : ∀ c ∈ [x], isBlank c = false := by simpa using hlast x hx
  obtain ⟨pieces, last, -, hsplit⟩ := exists_splitWhere_append hsingle front
  rw [wordsOf, hsplit, List.filter_append]
  simp

/-- The end of a word on the line: a space follows, and the words that are left. -/
theorem collapse_cons_end {c d : Char} (hc : isBlank c = false) (hd : isBlank d = true)
    {cs : List Char} (h : wordsOf (d :: cs) ≠ []) :
    collapse (c :: d :: cs) = c :: ' ' :: collapse (d :: cs) := by
  have hword : Unbroken [c] := ⟨List.cons_ne_nil c [], by simpa using hc⟩
  have hwords : wordsOf (c :: d :: cs) = [c] :: wordsOf (d :: cs) := by
    rw [← List.singleton_append, wordsOf_append_cons hd, hword.wordsOf_eq, wordsOf_cons_blank hd]
    rfl
  rw [collapse, hwords, joinChars_cons [c] h]
  rfl

/-- The middle of a word on the line: the next character follows. -/
theorem collapse_cons_inside {c d : Char} (hc : isBlank c = false) (hd : isBlank d = false)
    (cs : List Char) : collapse (c :: d :: cs) = c :: collapse (d :: cs) := by
  obtain ⟨piece, pieces, hsplit⟩ := List.exists_cons_of_ne_nil (splitWhere_ne_nil isBlank cs)
  have hwords : wordsOf (d :: cs) = (d :: piece) :: pieces.filter fun w => !w.isEmpty := by
    rw [wordsOf, splitWhere_cons, hd, hsplit]
    rfl
  have hlonger : wordsOf (c :: d :: cs) =
      (c :: d :: piece) :: pieces.filter fun w => !w.isEmpty := by
    rw [wordsOf, splitWhere_cons, hc, splitWhere_cons, hd, hsplit]
    rfl
  rw [collapse, collapse, hwords, hlonger]
  cases pieces.filter fun w => !w.isEmpty <;> rfl

/-- A text that ends with no blank is squeezed to its line, with a space in front when it
begins with a blank. -/
theorem squeeze_eq {cs : List Char} (hlast : ∀ x, cs.getLast? = some x → isBlank x = false) :
    squeeze cs = if cs.head?.any isBlank then ' ' :: collapse cs else collapse cs := by
  -- a run of blanks becomes one space; a kept character begins a word or goes on with it
  fun_induction squeeze cs with
  | case1 => rfl
  | case2 c cs hc ih =>
    have hrest : ∀ x, (trimStart cs).getLast? = some x → isBlank x = false := by
      intro x hx
      obtain ⟨front, hfront⟩ := List.dropWhile_suffix isBlank (l := cs)
      rw [← hfront, ← List.cons_append] at hlast
      exact hlast x (List.mem_getLast?_append_of_mem_getLast? hx)
    have hhead : (trimStart cs).head?.any isBlank = false :=
      (Option.any_eq_false ..).2 fun _ => isBlank_head?_trimStart
    rw [ih hrest, hhead, collapse_trimStart, collapse_cons_blank hc]
    simp [hc]
  | case3 c cs hc ih =>
    have hc : isBlank c = false := Bool.eq_false_iff.2 hc
    have hrest : ∀ x, cs.getLast? = some x → isBlank x = false := by
      intro x hx
      rw [← List.singleton_append] at hlast
      exact hlast x (List.mem_getLast?_append_of_mem_getLast? hx)
    rw [ih hrest, List.head?_cons, Option.any_some, hc]
    cases cs with
    | nil =>
      have hword : Unbroken [c] := ⟨List.cons_ne_nil c [], by simpa using hc⟩
      rw [collapse, collapse, hword.wordsOf_eq]
      rfl
    | cons d ds =>
      rw [List.head?_cons, Option.any_some]
      cases hd : isBlank d with
      | true => exact (collapse_cons_end hc hd (wordsOf_ne_nil (List.cons_ne_nil d ds) hrest)).symm
      | false => exact (collapse_cons_inside hc hd ds).symm

/-- **The line of a text is the text, trimmed and squeezed.** -/
theorem collapse_eq_squeeze (cs : List Char) : collapse cs = squeeze (trimChars cs) := by
  have hhead : (trimChars cs).head?.any isBlank = false :=
    (Option.any_eq_false ..).2 fun _ => isBlank_head?_trimChars
  have hlast : ∀ x, (trimChars cs).getLast? = some x → isBlank x = false := fun _ =>
    eq_false_of_getLast?_dropTrailing
  rw [squeeze_eq hlast, hhead, collapse, collapse, wordsOf_trimChars]
  rfl

/-! ### The cut -/

/-- **A line of words that is cut is a line of words**, with dots behind the cut. -/
theorem exists_words_cut {ws : List (List Char)} (h : ∀ w ∈ ws, Unbroken w) (limit : Nat) :
    ∃ ws', (∀ w ∈ ws', Unbroken w) ∧
      (joinChars [' '] ws).take limit ++ ['.', '.', '.'] = joinChars [' '] ws' := by
  have hdots : Unbroken ['.', '.', '.'] :=
    ⟨List.cons_ne_nil _ _, by simp [show isBlank '.' = false from rfl]⟩
  -- on the words, with the limit that is left behind the first one
  induction ws generalizing limit with
  | nil => exact ⟨[['.', '.', '.']], by simpa using hdots, by simp [joinChars]⟩
  | cons w ws ih =>
    obtain ⟨hw, hws⟩ := List.forall_mem_cons.1 h
    have hcut : Unbroken (w.take limit ++ ['.', '.', '.']) :=
      ⟨by simp, List.forall_mem_append.2
        ⟨fun c hc => hw.2 c (List.mem_of_mem_take hc), hdots.2⟩⟩
    by_cases hnil : ws = []
    · subst hnil
      exact ⟨[w.take limit ++ ['.', '.', '.']], by simpa using hcut, rfl⟩
    · rw [joinChars_cons w hnil, List.append_assoc, List.singleton_append]
      by_cases hle : limit ≤ w.length
      · -- the cut falls into the first word
        refine ⟨[w.take limit ++ ['.', '.', '.']], by simpa using hcut, ?_⟩
        rw [List.take_append_of_le_length hle]
        rfl
      · -- it falls behind the space, into what follows
        obtain ⟨rest, hrest⟩ := Nat.exists_eq_add_of_lt (Nat.lt_of_not_le hle)
        obtain ⟨ws', hws', hjoin⟩ := ih hws rest
        have hne : ws' ≠ [] := by
          rintro rfl
          simp [joinChars] at hjoin
        refine ⟨w :: ws', List.forall_mem_cons.2 ⟨hw, hws'⟩, ?_⟩
        rw [joinChars_cons w hne, ← hjoin, hrest, Nat.add_assoc, List.take_length_add_append,
          List.take_succ_cons]
        simp

/-- A cut text is not cut again. -/
theorem cutAfter_cutAfter (limit : Nat) (cs : List Char) :
    cutAfter limit (cutAfter limit cs) = cutAfter limit cs := by
  by_cases hle : cs.length ≤ limit
  · rw [show cutAfter limit cs = cs from if_pos hle]
    exact if_pos hle
  · have hlength : (cs.take limit).length = limit := List.length_take_of_le (Nat.le_of_not_le hle)
    have hlong : ¬ (cs.take limit ++ ['.', '.', '.']).length ≤ limit := by
      rw [List.length_append, hlength]
      simp
    rw [show cutAfter limit cs = cs.take limit ++ ['.', '.', '.'] from if_neg hle, cutAfter,
      if_neg hlong, List.take_append_of_le_length (Nat.le_of_eq hlength.symm), List.take_take,
      Nat.min_self]

/-- A cut line is its own line. -/
theorem collapse_cutAfter (limit : Nat) (cs : List Char) :
    collapse (cutAfter limit (collapse cs)) = cutAfter limit (collapse cs) := by
  have hwords : ∀ w ∈ wordsOf cs, Unbroken w := fun _ => unbroken_of_mem_wordsOf
  have hline {ws : List (List Char)} (h : ∀ w ∈ ws, Unbroken w) :
      collapse (joinChars [' '] ws) = joinChars [' '] ws := by
    rw [collapse, wordsOf_joinChars h]
  rw [cutAfter]
  split
  · exact hline hwords
  · obtain ⟨ws', hws', hjoin⟩ := exists_words_cut hwords limit
    rw [← collapse] at hjoin
    rw [hjoin]
    exact hline hws'

/-- A text on one line: its ends trimmed, and every run of blanks squeezed to one space. -/
def onOneLine (s : String) : String := String.ofList (squeeze (trimChars s.toList))

/-- **A summary is the text on one line, cut where that is too long.** It is at most three
characters over its limit. A line within the limit is shown whole, and of a longer one as many
characters as the limit allows, with dots behind them. A summary is its own summary. Source:
specification, section 2, compact summaries. -/
theorem compactLine_summary (s : String) (limit : Nat) :
    (compactLine s limit).length ≤ limit + 3 ∧
    compactLine s limit =
      (if (onOneLine s).length ≤ limit then onOneLine s
        else String.ofList ((onOneLine s).toList.take limit) ++ "...") ∧
    compactLine (compactLine s limit) limit = compactLine s limit := by
  refine ⟨?_, ?_, ?_⟩
  · rw [compactLine, String.length_ofList]
    exact length_cutAfter_le limit _
  · rw [compactLine, collapse_eq_squeeze, cutAfter, onOneLine, String.length_ofList,
      String.toList_ofList]
    split
    · rfl
    · rw [String.ofList_append]
  · rw [compactLine, compactLine, String.toList_ofList, collapse_cutAfter, cutAfter_cutAfter]

/-- A cut behind a space. -/
example : compactLine " ab \n cd\t" 3 = "ab ..." := by cbv

end Text
end Strata
