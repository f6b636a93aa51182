/-
# What replacing leaves of a text

The matches of a pattern are replaced from left to right, with what was written so far
as an accumulator. `Pattern.replacedAt` is what is written from a cursor on: a character
at which no match begins as it is (`Pattern.replacedAt_of_no_match`), a match as its
replacement (`Pattern.replacedAt_of_match`).

Which match is found at a cursor is read off step by step. A pattern with one way only
leads on to what follows it (`Pattern.matchThen_eq_of_unique`), a lazy run ends at the
nearest cursor from which the rest matches (`nearestFrom_of_nearest`), and a greedy run at
the farthest one, if the rest matches there (`Pattern.matchThen_greedy_of_longest`).
-/

import Strata.Proofs.Text.Pattern

namespace Strata
namespace Text

variable {c d : Cursor} {run : List Char}

/-- A lazy run ends where an answer is found first. -/
theorem nearestFrom_of_nearest {α : Type} {set : CharSet} {k : Cursor → Option α} {a : α}
    (h : c.Passes run d) (hrun : ∀ x ∈ run, set x = true)
    (hnone : ∀ xs ys e, run = xs ++ ys → ys ≠ [] → c.Passes xs e → k e = none)
    (hk : k d = some a) : nearestFrom set k c.before c.rest c.position = some a := by
  -- on the run: nothing behind a shorter one matches, so the run takes the next character
  induction run generalizing c with
  | nil =>
    obtain rfl := h.eq_of_nil
    obtain ⟨before, rest, n⟩ := d
    cases rest with
    | nil => exact hk
    | cons x rest =>
      dsimp only at hk ⊢
      rw [nearestFrom, hk]
  | cons x run ih =>
    obtain ⟨e, hone, hpasses⟩ := h.exists_behind_first
    have hhere : k ⟨c.before, x :: e.rest, c.position⟩ = none := by
      have hc : c = ⟨c.before, x :: e.rest, c.position⟩ := by
        rw [← List.singleton_append, ← hone.rest]
      exact hc ▸ hnone [] (x :: run) c rfl (List.cons_ne_nil _ _) (.refl c)
    have he : e.before = some x := hone.before
    obtain ⟨hx, hrun⟩ := List.forall_mem_cons.1 hrun
    have hbehind := ih hpasses hrun fun xs ys e' hsplit hys hpasses' =>
      hnone (x :: xs) ys e' (by rw [hsplit, List.cons_append]) hys (hone.append hpasses')
    rw [he, hone.position] at hbehind
    rw [hone.rest, List.singleton_append, nearestFrom, hhere]
    dsimp only
    rw [if_pos hx]
    exact hbehind

/-- A greedy run tries first what it ends at when it is as long as possible. -/
theorem exists_reachFrom_eq_cons {set : CharSet} (nearer : List Cursor) (h : c.Passes run d)
    (hrun : ∀ x ∈ run, set x = true) (hend : ∀ x, d.rest.head? = some x → set x = false) :
    ∃ shorter, reachFrom set nearer c.before c.rest c.position = d :: shorter := by
  induction run generalizing c nearer with
  | nil =>
    obtain rfl := h.eq_of_nil
    obtain ⟨before, rest, n⟩ := d
    cases rest with
    | nil => exact ⟨nearer, rfl⟩
    | cons x rest =>
      refine ⟨nearer, ?_⟩
      have hx : ¬ set x = true := Bool.eq_false_iff.1 (hend x rfl)
      rw [reachFrom, if_neg hx]
  | cons x run ih =>
    obtain ⟨e, hone, hpasses⟩ := h.exists_behind_first
    obtain ⟨hx, hrun⟩ := List.forall_mem_cons.1 hrun
    have he : e.before = some x := hone.before
    rw [hone.rest, List.singleton_append, reachFrom, if_pos hx]
    have hbehind := ih (⟨c.before, x :: e.rest, c.position⟩ :: nearer) hpasses hrun
    rwa [he, hone.position] at hbehind

namespace Pattern

variable {p : Pattern} {caps caps' : Captures}

/-- **Where there is one way only, it is taken.** -/
theorem matchThen_eq_of_unique {α : Type} {k : Cursor → Captures → Option α}
    (hp : p.Leads c caps d caps')
    (hunique : ∀ e caps'', p.Leads c caps e caps'' → e = d ∧ caps'' = caps') :
    p.matchThen k c caps = k d caps' := by
  cases h : p.matchThen k c caps with
  | none => exact (eq_none_of_matchThen h hp).symm
  | some a =>
    obtain ⟨e, caps'', he, hk⟩ := exists_of_matchThen h
    obtain ⟨rfl, rfl⟩ := hunique e caps'' he
    exact hk.symm

/-- A pattern without a way does not match. -/
theorem matchThen_eq_none {α : Type} {k : Cursor → Captures → Option α}
    (h : ∀ d caps', ¬ p.Leads c caps d caps') : p.matchThen k c caps = none := by
  refine Option.eq_none_iff_forall_ne_some.2 fun a ha => ?_
  obtain ⟨d, caps', hp, -⟩ := exists_of_matchThen ha
  exact h d caps' hp

/-- A text matches at its place and leads behind it. -/
theorem matchThen_text {α : Type} {k : Cursor → Captures → Option α} {s : String}
    (h : c.Passes s.toList d) : (text s).matchThen k c caps = k d caps := by
  refine matchThen_eq_of_unique (leads_text.2 ⟨h, rfl⟩) fun e caps'' he => ?_
  obtain ⟨hpasses, rfl⟩ := leads_text.1 he
  exact ⟨hpasses.unique h, rfl⟩

/-- The first part of a sequence is followed by the others. -/
theorem matchThen_sequence_cons {α : Type} {k : Cursor → Captures → Option α} {ps : List Pattern} :
    (sequence (p :: ps)).matchThen k c caps = p.matchThen ((sequence ps).matchThen k) c caps := by
  cases ps <;> rfl

/-- What follows the first patterns of a sequence are the other ones. -/
theorem matchThen_sequence_append {α : Type} {k : Cursor → Captures → Option α}
    {ps qs : List Pattern} :
    (sequence (ps ++ qs)).matchThen k c caps =
      (sequence ps).matchThen ((sequence qs).matchThen k) c caps := by
  induction ps generalizing c caps with
  | nil => rfl
  | cons p ps ih =>
    have ih : (sequence (ps ++ qs)).matchThen k =
        (sequence ps).matchThen ((sequence qs).matchThen k) := funext fun _ => funext fun _ => ih
    rw [List.cons_append, matchThen_sequence_cons, matchThen_sequence_cons, ih]

/-- **A greedy run is as long as possible** where the rest matches behind it. -/
theorem matchThen_greedy_of_longest {α : Type} {set : CharSet} {k : Cursor → Captures → Option α}
    {a : α} (h : c.Passes run d) (hrun : ∀ x ∈ run, set x = true)
    (hend : ∀ x, d.rest.head? = some x → set x = false) (hk : k d caps = some a) :
    (Pattern.greedy set).matchThen k c caps = some a := by
  obtain ⟨shorter, hreach⟩ := exists_reachFrom_eq_cons [] h hrun hend
  rw [matchThen, Cursor.reach, hreach, List.findSome?_cons, hk]

/-- A greedy run that is not empty takes as much as there is, if what follows matches there. -/
theorem matchThen_greedyPlus_of_longest {α : Type} {set : CharSet}
    {k : Cursor → Captures → Option α} {a : α} (h : c.Passes run d) (hne : run ≠ [])
    (hrun : ∀ x ∈ run, set x = true) (hend : ∀ x, d.rest.head? = some x → set x = false)
    (hk : k d caps = some a) : (greedyPlus set).matchThen k c caps = some a := by
  obtain ⟨x, run, rfl⟩ := List.exists_cons_of_ne_nil hne
  obtain ⟨hx, hrun⟩ := List.forall_mem_cons.1 hrun
  obtain ⟨e, hone, hpasses⟩ := h.exists_behind_first
  have he : e = ⟨some x, e.rest, c.position + 1⟩ := hone.unique ⟨hone.rest, rfl, rfl⟩
  rw [greedyPlus, matchThen, matchThen, hone.rest]
  dsimp only [List.singleton_append]
  rw [if_pos hx, ← he]
  exact matchThen_greedy_of_longest hpasses hrun hend hk

/-! ### Writing with replacements -/

variable {replace : Match → List Char}

/-- What was written before stays as it is. -/
theorem replaceFrom_eq_append (p : Pattern) (replace : Match → List Char) (written : List Char)
    (skip : Nat) (before : Option Char) (rest : List Char) (n : Nat) :
    p.replaceFrom replace written skip before rest n =
      p.replaceFrom replace [] skip before rest n ++ written := by
  induction rest generalizing written skip before n with
  | nil => simp [replaceFrom]
  | cons x rest ih =>
    cases skip with
    | succ skip => rw [replaceFrom, ih, replaceFrom]
    | zero =>
      rw [replaceFrom, replaceFrom]
      cases p.matchAt? ⟨before, x :: rest, n⟩ with
      | none =>
        dsimp only
        rw [ih, ih [x], List.append_assoc, List.singleton_append]
      | some m =>
        dsimp only
        rw [ih, ih ((replace m).reverse ++ []), List.append_nil, List.append_assoc]

/-- What is written from a cursor on. -/
def replacedAt (p : Pattern) (replace : Match → List Char) (c : Cursor) : List Char :=
  (p.replaceFrom replace [] 0 c.before c.rest c.position).reverse

/-- What is written from the start is the whole text with its replacements. -/
theorem replacedAt_start (p : Pattern) (replace : Match → List Char) (cs : List Char) :
    p.replacedAt replace (.start cs) = p.replaceIn replace cs := rfl

/-- Nothing is written at the end of a text. -/
theorem replacedAt_nil (h : c.rest = []) : p.replacedAt replace c = [] := by
  rw [replacedAt, h]
  rfl

/-- What belongs to a match is not written. -/
theorem replaceFrom_of_passes (h : c.Passes run d) :
    (p.replaceFrom replace [] run.length c.before c.rest c.position).reverse =
      p.replacedAt replace d := by
  induction run generalizing c with
  | nil => rw [h.eq_of_nil]; rfl
  | cons x run ih =>
    obtain ⟨e, hone, hrun⟩ := h.exists_behind_first
    rw [hone.rest, List.length_cons, List.singleton_append, replaceFrom]
    have he : e.before = some x := hone.before
    rw [← ih hrun, he, hone.position]
    rfl

/-- **A character at which no match begins is written as it is.** -/
theorem replacedAt_of_no_match {x : Char} (h : c.Passes [x] d) (hnone : p.matchAt? c = none) :
    p.replacedAt replace c = x :: p.replacedAt replace d := by
  have hc : c = ⟨c.before, x :: d.rest, c.position⟩ := by
    rw [← List.singleton_append, ← h.rest]
  rw [hc] at hnone
  have hd : d.before = some x := h.before
  rw [replacedAt, h.rest, List.singleton_append, replaceFrom, hnone]
  dsimp only
  rw [replaceFrom_eq_append, List.reverse_append, replacedAt, hd, h.position]
  rfl

/-- **A match is written as its replacement.** -/
theorem replacedAt_of_match {m : Match} (h : c.Passes run d) (hrun : run ≠ [])
    (hmatch : p.matchAt? c = some m) (hlength : m.whole.text.length = run.length) :
    p.replacedAt replace c = replace m ++ p.replacedAt replace d := by
  obtain ⟨x, run, rfl⟩ := List.exists_cons_of_ne_nil hrun
  obtain ⟨e, hone, hpasses⟩ := h.exists_behind_first
  have hc : c = ⟨c.before, x :: e.rest, c.position⟩ := by
    rw [← List.singleton_append, ← hone.rest]
  rw [hc] at hmatch
  have he : e.before = some x := hone.before
  have hskip : m.whole.text.length - 1 = run.length := by rw [hlength]; rfl
  rw [replacedAt, hone.rest, List.singleton_append, replaceFrom, hmatch]
  dsimp only
  rw [replaceFrom_eq_append, List.reverse_append, List.append_nil, List.reverse_reverse,
    ← replaceFrom_of_passes hpasses, he, hone.position, ← hskip]
  rfl

end Pattern

end Text
end Strata
