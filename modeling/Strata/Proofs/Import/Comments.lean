/-
# What is left of a text without its comments

Specification, section 4.2: line and block comments are stripped first.

Comments are removed in two passes over the whole text, blocks first. Neither pass knows
what the other one removes, nor what a string is.

| pass | removes | what a scanner of one state does |
| --- | --- | --- |
| blocks | from `/*` to the next `*/`, for a blank | `outside`, `leavesOpen` |
| rest of lines | from `//` to the end of the line | `cutLine` |

Where every line closes the blocks that it opens, the first pass works line by line
(`blockComment_replaceIn_lines`), and so does the second one always
(`lineComment_replaceIn_lines`). A block that a line leaves open goes on to the first
`*/` behind the line, whatever stands between (`replacedAt_of_leavesOpen`).
-/

import Mathlib.Data.List.Infix
import Strata.Import.Statement
import Strata.Proofs.Text.Replace

namespace Strata
namespace Import

open Text Pattern

/-! ### Texts of lines -/

/-- What stands behind a line: nothing, a last line feed, or a line feed and the next
line. -/
inductive Tail : List (List Char) → List Char → Prop where
  | done : Tail [] []
  | feed : Tail [] ['\n']
  | line (l : List Char) {ls : List (List Char)} {tail : List Char} :
      Tail ls tail → Tail (l :: ls) ('\n' :: (l ++ tail))

/-- A text of these lines, with or without a line feed behind the last one. -/
inductive Lines : List (List Char) → List Char → Prop where
  | nil : Lines [] []
  | cons (l : List Char) {ls : List (List Char)} {tail : List Char} :
      Tail ls tail → Lines (l :: ls) (l ++ tail)

/-- Behind a line stands a line feed, if anything. -/
theorem Tail.eq_newline_of_mem_head? {ls : List (List Char)} {tail : List Char}
    (h : Tail ls tail) : ∀ x, tail.head? = some x → x = '\n' := by
  cases h with
  | done => simp
  | feed | line => simp [eq_comm]

/-- A text of one line. -/
theorem Lines.single (l : List Char) : Lines [l] l := by
  have h : Lines [l] (l ++ []) := .cons l .done
  rwa [List.append_nil] at h

/-- Lines behind a line feed. -/
theorem Lines.behind_feed {ls : List (List Char)} {cs : List Char} (h : Lines ls cs) :
    Tail ls ('\n' :: cs) := by
  cases h with
  | nil => exact .feed
  | cons l htail => exact .line l htail

section Replacing

variable {p : Pattern} {replace : Match → List Char} {clean : List Char → List Char}
  (ok : List Char → Prop)

/-- Replacing behind a line goes line by line, where it does so on one line with the line
feed in front of it. -/
theorem Tail.replacedAt (hok : ok []) (hclean : clean [] = [])
    (hnext : ∀ c d l, ok l → c.Passes ('\n' :: l) d → (∀ x, d.rest.head? = some x → x = '\n') →
      p.replacedAt replace c = '\n' :: (clean l ++ p.replacedAt replace d))
    {ls : List (List Char)} {tail : List Char} (h : Tail ls tail) (hls : ∀ l ∈ ls, ok l)
    (c : Cursor) (hrest : c.rest = tail) : Tail (ls.map clean) (p.replacedAt replace c) := by
  induction h generalizing c with
  | done =>
    rw [replacedAt_nil hrest]
    exact .done
  | feed =>
    obtain ⟨d, hfeed, hd⟩ := Cursor.exists_passes (hrest.trans (List.append_nil _).symm)
    rw [hnext c d [] hok hfeed (by simp [hd]), hclean, replacedAt_nil hd]
    exact .feed
  | @line l ls tail htail ih =>
    obtain ⟨hl, hls⟩ := List.forall_mem_cons.1 hls
    have hline : c.rest = ('\n' :: l) ++ tail := hrest
    obtain ⟨d, hpasses, hd⟩ := Cursor.exists_passes hline
    rw [hnext c d l hl hpasses (hd ▸ htail.eq_newline_of_mem_head?)]
    exact .line _ (ih hls d hd)

/-- **Replacing goes line by line**, where it does so on the first line and on one line
with the line feed in front of it. -/
theorem Lines.replaceIn (hok : ok []) (hclean : clean [] = [])
    (hfirst : ∀ c d l, c.before = none → ok l → c.Passes l d →
      (∀ x, d.rest.head? = some x → x = '\n') →
      p.replacedAt replace c = clean l ++ p.replacedAt replace d)
    (hnext : ∀ c d l, ok l → c.Passes ('\n' :: l) d → (∀ x, d.rest.head? = some x → x = '\n') →
      p.replacedAt replace c = '\n' :: (clean l ++ p.replacedAt replace d))
    {ls : List (List Char)} {cs : List Char} (h : Lines ls cs) (hls : ∀ l ∈ ls, ok l) :
    Lines (ls.map clean) (p.replaceIn replace cs) := by
  rw [← replacedAt_start]
  cases h with
  | nil => exact .nil
  | @cons l ls tail htail =>
    obtain ⟨hl, hls⟩ := List.forall_mem_cons.1 hls
    obtain ⟨d, hpasses, hd⟩ := Cursor.exists_passes (c := .start (l ++ tail)) rfl
    rw [hfirst _ d l rfl hl hpasses (hd ▸ htail.eq_newline_of_mem_head?)]
    exact .cons _ (htail.replacedAt ok hok hclean hnext hls d hd)

end Replacing

/-! ### Blocks -/

/-- What a text has outside of blocks, with a blank for each block that begins in it. The
first argument says whether the text begins inside of a block. -/
def outside : Bool → List Char → List Char
  | _, [] => []
  | false, '/' :: '*' :: rest => ' ' :: outside true rest
  | true, '*' :: '/' :: rest => outside false rest
  | false, x :: rest => x :: outside false rest
  | true, _ :: rest => outside true rest

/-- Whether the end of a text is inside of a block. -/
def leavesOpen : Bool → List Char → Bool
  | inside, [] => inside
  | false, '/' :: '*' :: rest => leavesOpen true rest
  | true, '*' :: '/' :: rest => leavesOpen false rest
  | inside, _ :: rest => leavesOpen inside rest

/-- What ends a stretch outside of blocks, and what ends a block. -/
def marker : Bool → List Char
  | false => ['/', '*']
  | true => ['*', '/']

section Scanner

variable {inside : Bool} {x : Char} {xs ys : List Char}

/-- A marker changes the side, and the opening one leaves a blank. -/
theorem scan_marker : leavesOpen inside (marker inside ++ xs) = leavesOpen (!inside) xs ∧
    outside inside (marker inside ++ xs) =
      (if inside then [] else [' ']) ++ outside (!inside) xs := by
  cases inside <;> exact ⟨rfl, rfl⟩

/-- Where no marker begins, a character is kept outside of blocks and lost in them. -/
theorem scan_cons (h : ¬ marker inside <+: x :: xs) :
    leavesOpen inside (x :: xs) = leavesOpen inside xs ∧
      outside inside (x :: xs) = (if inside then [] else [x]) ++ outside inside xs := by
  have hmark (rest : List Char) : ¬ x :: xs = marker inside ++ rest := fun heq =>
    h ⟨rest, heq.symm⟩
  cases inside with
  | false =>
    have hopen : ∀ rest, x = '/' → xs = '*' :: rest → False := by
      rintro rest rfl rfl
      exact hmark rest rfl
    exact ⟨leavesOpen.eq_4 _ _ _ (fun rest _ => hopen rest) (by simp), outside.eq_4 _ _ hopen⟩
  | true =>
    have hclose : ∀ rest, x = '*' → xs = '/' :: rest → False := by
      rintro rest rfl rfl
      exact hmark rest rfl
    exact ⟨leavesOpen.eq_4 _ _ _ (by simp) (fun rest _ => hclose rest), outside.eq_5 _ _ hclose⟩

/-- A scan goes from marker to marker. -/
theorem scan_induction {motive : Bool → List Char → Prop} (nil : ∀ inside, motive inside [])
    (mark : ∀ inside xs, motive (!inside) xs → motive inside (marker inside ++ xs))
    (cons : ∀ inside x xs, ¬ marker inside <+: x :: xs → motive inside xs →
      motive inside (x :: xs)) (inside : Bool) (xs : List Char) : motive inside xs := by
  induction inside, xs using leavesOpen.induct with
  | case1 inside => exact nil inside
  | case2 rest ih => exact mark false rest ih
  | case3 rest ih => exact mark true rest ih
  | case4 inside x rest hopen hclose ih =>
    refine cons inside x rest ?_ ih
    rintro ⟨behind, hbehind⟩
    cases inside with
    | false =>
      obtain ⟨rfl, rfl⟩ := List.cons.inj hbehind
      exact hopen behind rfl rfl rfl
    | true =>
      obtain ⟨rfl, rfl⟩ := List.cons.inj hbehind
      exact hclose behind rfl rfl rfl

/-- Without a marker a text is on one side all along. -/
theorem scan_of_no_marker (h : ¬ marker inside <:+: xs) :
    leavesOpen inside xs = inside ∧ outside inside xs = if inside then [] else xs := by
  induction xs with
  | nil => cases inside <;> exact ⟨rfl, rfl⟩
  | cons x xs ih =>
    obtain ⟨hopen, houtside⟩ := ih fun hwithin => h (List.infix_cons hwithin)
    obtain ⟨hopen', houtside'⟩ := scan_cons fun hbegins => h hbegins.isInfix
    rw [hopen', houtside', hopen, houtside]
    cases inside <;> exact ⟨rfl, rfl⟩

/-- A text with a marker has a first one. -/
theorem exists_first_marker (h : marker inside <:+: xs) :
    ∃ before behind, xs = before ++ (marker inside ++ behind) ∧ ¬ marker inside <:+: before := by
  induction xs with
  | nil => cases inside <;> simp [marker] at h
  | cons x xs ih =>
    by_cases hbegins : marker inside <+: x :: xs
    · obtain ⟨behind, hbehind⟩ := hbegins
      exact ⟨[], behind, hbehind.symm, by cases inside <;> simp [marker]⟩
    · obtain ⟨before, behind, rfl, hbefore⟩ := ih ((List.infix_cons_iff.1 h).resolve_left hbegins)
      refine ⟨x :: before, behind, rfl, fun hwithin => ?_⟩
      refine (List.infix_cons_iff.1 hwithin).elim (fun hmark => hbegins ?_) hbefore
      exact hmark.trans (List.prefix_append (x :: before) _)

/-- No marker stands across an edge whose second side does not begin like the end of one. -/
theorem not_marker_prefix_append (h : ¬ marker inside <+: x :: xs)
    (hedge : ∀ y, ys.head? = some y → y ∉ (marker inside).tail) :
    ¬ marker inside <+: x :: (xs ++ ys) := by
  rintro ⟨behind, hbehind⟩
  cases xs with
  | nil =>
    cases ys with
    | nil => cases inside <;> cases hbehind
    | cons y ys => cases inside <;> cases hbehind <;> exact hedge _ rfl List.mem_cons_self
  | cons y xs => cases inside <;> cases hbehind <;> exact h ⟨xs, rfl⟩

/-- Two neighbours stand on one side of a character that is neither of them. -/
theorem pair_infix_append {a b : Char} (ha : x ≠ a) (hb : x ≠ b) (h : [a, b] <:+: xs ++ x :: ys) :
    [a, b] <:+: xs ∨ [a, b] <:+: ys := by
  induction xs with
  | nil =>
    refine .inr ((List.infix_cons_iff.1 h).resolve_left fun hbegins => ?_)
    obtain ⟨rfl, -⟩ := List.cons_prefix_cons.1 hbegins
    exact ha rfl
  | cons y xs ih =>
    rcases List.infix_cons_iff.1 h with hbegins | hwithin
    · obtain ⟨rfl, hbehind⟩ := List.cons_prefix_cons.1 hbegins
      cases xs with
      | nil => exact absurd (List.cons_prefix_cons.1 hbehind).1.symm hb
      | cons z xs =>
        obtain ⟨rfl, -⟩ := List.cons_prefix_cons.1 hbehind
        exact .inl ⟨[], xs, rfl⟩
    · exact (ih hwithin).imp_left List.infix_cons

/-- A marker does not reach over a character that is in none. -/
theorem marker_infix_append (hx : x ≠ '*' ∧ x ≠ '/') (h : marker inside <:+: xs ++ x :: ys) :
    marker inside <:+: xs ∨ marker inside <:+: ys := by
  cases inside with
  | false => exact pair_infix_append hx.2 hx.1 h
  | true => exact pair_infix_append hx.1 hx.2 h

/-- A marker in a text of lines stands in one of them. -/
theorem Lines.exists_marker {ls : List (List Char)} {cs : List Char} (h : Lines ls cs)
    (hcs : marker inside <:+: cs) : ∃ l ∈ ls, marker inside <:+: l := by
  have htails {ls : List (List Char)} {tail : List Char} (htail : Tail ls tail) (l : List Char)
      (h : marker inside <:+: l ++ tail) : ∃ l' ∈ l :: ls, marker inside <:+: l' := by
    induction htail generalizing l with
    | done => exact ⟨l, List.mem_cons_self, by simpa using h⟩
    | feed =>
      refine ⟨l, List.mem_cons_self, (marker_infix_append (by decide) h).resolve_right ?_⟩
      cases inside <;> decide
    | line l' _ ih =>
      rcases marker_infix_append (by decide) h with h | h
      · exact ⟨l, List.mem_cons_self, h⟩
      · obtain ⟨l'', hmem, h⟩ := ih l' h
        exact ⟨l'', List.mem_cons_of_mem l hmem, h⟩
  cases h with
  | nil => cases inside <;> exact absurd hcs (by decide)
  | cons l htail => exact htails htail l hcs

/-- Both sides of an edge are scanned one after the other. -/
theorem scan_append (hedge : ∀ y, ys.head? = some y → y ≠ '*' ∧ y ≠ '/') :
    leavesOpen inside (xs ++ ys) = leavesOpen (leavesOpen inside xs) ys ∧
      outside inside (xs ++ ys) = outside inside xs ++ outside (leavesOpen inside xs) ys := by
  induction inside, xs using scan_induction with
  | nil inside => cases inside <;> exact ⟨rfl, rfl⟩
  | mark inside xs ih =>
    rw [List.append_assoc, scan_marker.1, scan_marker.2, scan_marker.1, scan_marker.2, ih.1,
      ih.2, List.append_assoc]
    exact ⟨rfl, rfl⟩
  | cons inside x xs h ih =>
    have hcross : ¬ marker inside <+: x :: (xs ++ ys) := not_marker_prefix_append h fun y hy => by
      cases inside <;> simp [marker, hedge y hy]
    rw [List.cons_append, (scan_cons h).1, (scan_cons h).2, (scan_cons hcross).1,
      (scan_cons hcross).2, ih.1, ih.2, List.append_assoc]
    exact ⟨rfl, rfl⟩

/-- A block ends where it is closed first. -/
theorem scan_block (h : ¬ marker true <:+: xs) :
    leavesOpen true (xs ++ (marker true ++ ys)) = leavesOpen false ys ∧
      outside true (xs ++ (marker true ++ ys)) = outside false ys := by
  induction xs with
  | nil => exact ⟨rfl, rfl⟩
  | cons x xs ih =>
    have hcross : ¬ marker true <+: x :: (xs ++ (marker true ++ ys)) :=
      not_marker_prefix_append (fun hbegins => h hbegins.isInfix) (by simp [marker])
    rw [List.cons_append, (scan_cons hcross).1, (scan_cons hcross).2]
    exact ih fun hwithin => h (List.infix_cons hwithin)

/-- Where a text leaves a block open, it opens that block or begins in it. -/
theorem exists_of_leavesOpen_from (h : leavesOpen inside xs = true) :
    (inside = true ∧ ¬ marker true <:+: xs) ∨
      ∃ before inner, xs = before ++ (marker false ++ inner) ∧
        leavesOpen inside before = false ∧ ¬ marker true <:+: inner := by
  induction inside, xs using scan_induction with
  | nil inside => exact .inl ⟨h, by simp [marker]⟩
  | mark inside xs ih =>
    rw [scan_marker.1] at h
    rcases ih h with ⟨hinside, hinner⟩ | ⟨before, inner, rfl, hbefore, hinner⟩
    · obtain rfl : inside = false := by simpa using hinside
      exact .inr ⟨[], xs, rfl, rfl, hinner⟩
    · exact .inr ⟨marker inside ++ before, inner, (List.append_assoc ..).symm,
        scan_marker.1.trans hbefore, hinner⟩
  | cons inside x xs hmark ih =>
    rw [(scan_cons hmark).1] at h
    rcases ih h with ⟨rfl, hinner⟩ | ⟨before, inner, rfl, hbefore, hinner⟩
    · exact .inl ⟨rfl, fun hwithin => (List.infix_cons_iff.1 hwithin).elim hmark hinner⟩
    · refine .inr ⟨x :: before, inner, rfl, ?_, hinner⟩
      exact (scan_cons fun hbegins =>
        hmark (hbegins.trans (List.prefix_append (x :: before) _))).1.trans hbefore

/-- A text that leaves a block open has a last block, which it opens and does not close. -/
theorem exists_of_leavesOpen (h : leavesOpen false xs = true) :
    ∃ before inner, xs = before ++ (marker false ++ inner) ∧ leavesOpen false before = false ∧
      ¬ marker true <:+: inner :=
  (exists_of_leavesOpen_from h).resolve_left fun h => Bool.false_ne_true h.1

end Scanner

/-! ### The pass over blocks -/

section Blocks

variable {c d : Cursor} {xs inner : List Char}

/-- No block is found where none begins. -/
theorem blockComment_matchAt?_of_no_open (h : ¬ marker false <+: c.rest) :
    blockComment.matchAt? c = none := by
  refine matchAt?_eq_none_iff.2 fun d caps hleads => ?_
  simp only [blockComment, leads_sequence_cons, leads_text] at hleads
  obtain ⟨e, _, ⟨hopen, -⟩, -⟩ := hleads
  exact h ⟨e.rest, hopen.rest.symm⟩

/-- No block is found that is not closed. -/
theorem blockComment_matchAt?_of_no_close (h : ¬ marker true <:+: c.rest) :
    blockComment.matchAt? c = none := by
  refine matchAt?_eq_none_iff.2 fun d caps hleads => ?_
  simp only [blockComment, leads_sequence_cons, leads_sequence_nil, leads_text] at hleads
  obtain ⟨e, _, ⟨hopen, -⟩, e₁, _, hrun, _, _, ⟨hclose, -⟩, rfl, -⟩ := hleads
  obtain ⟨run, hrun⟩ := hrun.exists_passes
  refine h ⟨"/*".toList ++ run, d.rest, ?_⟩
  rw [(hopen.append hrun).rest, hclose.rest, List.append_assoc]
  rfl

/-- A block reaches from where it begins to where it is closed first. -/
theorem blockComment_matchAt?_of_block (h : c.Passes (marker false ++ (inner ++ marker true)) d)
    (hinner : ¬ marker true <:+: inner) : blockComment.matchAt? c = some ⟨c.spanTo d, []⟩ := by
  obtain ⟨e, hopen, h⟩ := h.exists_between
  obtain ⟨e₁, hrun, hclose⟩ := h.exists_between
  change (Pattern.text "/*").matchThen _ c [] = _
  rw [matchThen_text hopen]
  refine nearestFrom_of_nearest hrun (fun _ _ => rfl) (fun xs ys e' hsplit hys hpasses => ?_)
    (matchThen_text hclose)
  refine matchThen_eq_none fun d' caps hleads => ?_
  obtain ⟨hclose', -⟩ := leads_text.1 hleads
  obtain ⟨y, ys, rfl⟩ := List.exists_cons_of_ne_nil hys
  subst hsplit
  have hrest : e'.rest = y :: (ys ++ (marker true ++ d.rest)) := by
    rw [(hrun.behind hpasses).rest, hclose.rest]
    rfl
  have hbegins : ¬ marker true <+: y :: ys := fun hbegins =>
    hinner (hbegins.isInfix.trans (List.suffix_append xs (y :: ys)).isInfix)
  exact not_marker_prefix_append hbegins (by simp [marker])
    ⟨d'.rest, hclose'.rest.symm.trans hrest⟩

/-- **Closed blocks are replaced by blanks, and nothing else is.** -/
theorem replacedAt_of_closed (h : c.Passes xs d) (hclosed : leavesOpen false xs = false)
    (hedge : d.rest.head? ≠ some '*') :
    blockComment.replacedAt (fun _ => [' ']) c =
      outside false xs ++ blockComment.replacedAt (fun _ => [' ']) d := by
  -- on the length of the text, since a block is passed at once
  induction hn : xs.length using Nat.strong_induction_on generalizing xs c with
  | _ n ih =>
    subst hn
    -- a block that begins here is closed in the text, for no block is left open
    by_cases hopen : marker false <+: xs
    · obtain ⟨behind, rfl⟩ := hopen
      rw [scan_marker.1] at hclosed
      have hclose : marker true <:+: behind := by
        by_contra hnone
        exact Bool.false_ne_true (hclosed.symm.trans (scan_of_no_marker hnone).1)
      obtain ⟨inner, behind, rfl, hinner⟩ := exists_first_marker hclose
      have hsplit : marker false ++ (inner ++ (marker true ++ behind)) =
          (marker false ++ (inner ++ marker true)) ++ behind := by simp
      obtain ⟨e, hblock, hbehind⟩ := (hsplit ▸ h).exists_between
      have hmatch := blockComment_matchAt?_of_block hblock hinner
      rw [replacedAt_of_match hblock (by simp [marker]) hmatch (by rw [hblock.spanTo]),
        ih _ (by simp [marker]; omega) hbehind ((scan_block hinner).1.symm.trans hclosed) rfl,
        scan_marker.2]
      exact congrArg (· ++ _) (congrArg (' ' :: ·) (scan_block hinner).2.symm)
    · cases xs with
      | nil => rw [h.eq_of_nil]; rfl
      | cons x xs =>
        obtain ⟨e, hone, hbehind⟩ := h.exists_behind_first
        have hnone : ¬ marker false <+: c.rest := by
          rw [h.rest]
          refine not_marker_prefix_append hopen fun y hy => ?_
          rintro hmem
          obtain rfl : y = '*' := by simpa [marker] using hmem
          exact hedge hy
        rw [replacedAt_of_no_match hone (blockComment_matchAt?_of_no_open hnone),
          (scan_cons hopen).2, ih _ (by simp) hbehind ((scan_cons hopen).1.symm.trans hclosed) rfl]
        rfl

/-- A block that a line leaves open goes on to where it is closed first, and what is
written for it does not depend on what it covers. -/
theorem replacedAt_of_leavesOpen (h : leavesOpen false xs = true) :
    ∃ written, ∀ (between : List Char) (c d : Cursor), ¬ marker true <:+: between →
      c.Passes (xs ++ '\n' :: (between ++ marker true)) d →
        blockComment.replacedAt (fun _ => [' ']) c =
          written ++ blockComment.replacedAt (fun _ => [' ']) d := by
  obtain ⟨before, inner, rfl, hbefore, hinner⟩ := exists_of_leavesOpen h
  refine ⟨outside false before ++ [' '], fun between c d hbetween hpasses => ?_⟩
  have hsplit : before ++ (marker false ++ inner) ++ '\n' :: (between ++ marker true) =
      before ++ (marker false ++ ((inner ++ '\n' :: between) ++ marker true)) := by simp
  obtain ⟨e, hfront, hblock⟩ := (hsplit ▸ hpasses).exists_between
  have hcovered : ¬ marker true <:+: inner ++ '\n' :: between := fun hwithin =>
    (marker_infix_append (by decide) hwithin).elim hinner hbetween
  have hmatch := blockComment_matchAt?_of_block hblock hcovered
  rw [replacedAt_of_closed hfront hbefore (by rw [hblock.rest]; simp [marker]),
    replacedAt_of_match hblock (by simp [marker]) hmatch (by rw [hblock.spanTo]),
    List.append_assoc]

end Blocks

/-- **Where every line closes the blocks that it opens, blocks are replaced line by
line.** -/
theorem blockComment_replaceIn_lines {ls : List (List Char)} {cs : List Char} (h : Lines ls cs)
    (hclosed : ∀ l ∈ ls, leavesOpen false l = false) :
    Lines (ls.map (outside false)) (blockComment.replaceIn (fun _ => [' ']) cs) := by
  have hline {c d : Cursor} {l : List Char} (hl : leavesOpen false l = false)
      (hpasses : c.Passes l d) (hend : ∀ x, d.rest.head? = some x → x = '\n') :
      blockComment.replacedAt (fun _ => [' ']) c =
        outside false l ++ blockComment.replacedAt (fun _ => [' ']) d :=
    replacedAt_of_closed hpasses hl fun hhead => absurd (hend '*' hhead) (by decide)
  refine h.replaceIn (leavesOpen false · = false) rfl rfl (fun _ _ _ _ => hline)
    (fun c d l hl hpasses hend => ?_) hclosed
  obtain ⟨e, hfeed, hbehind⟩ := hpasses.exists_behind_first
  have hnone := blockComment_matchAt?_of_no_open (c := c) (by simp [hpasses.rest, marker])
  rw [replacedAt_of_no_match hfeed hnone, hline hl hbehind hend]

/-! ### The pass over the rest of lines -/

/-- A line up to its first two slashes behind another character, where that character is
no colon, quote or backslash. -/
def cutBehind : List Char → List Char
  | [] => []
  | x :: rest =>
    if noneOf ":'\"\\" x && ['/', '/'].isPrefixOf rest then [x] else x :: cutBehind rest

/-- A line without what two slashes begin. -/
def cutLine (l : List Char) : List Char :=
  if ['/', '/'].isPrefixOf l then [] else cutBehind l

/-- What two slashes begin. -/
def restOfLine : Pattern := sequence [.text "//", .greedy inLine, .at .lineEnd]

section RestOfLine

variable {c d e : Cursor} {x : Char} {run tail : List Char}

/-- A run without a line feed stays in its line. -/
theorem inLine_of_mem (hrun : '\n' ∉ run) (hx : x ∈ run) : inLine x = true := by
  simpa [inLine] using fun heq : x = '\n' => hrun (heq ▸ hx)

/-- A line feed ends a run in a line, and so does the end of the text. -/
theorem takeWhile_inLine (hrun : '\n' ∉ run) (hend : ∀ x, tail.head? = some x → x = '\n') :
    (run ++ tail).takeWhile inLine = run := by
  rw [List.takeWhile_append_of_pos fun x hx => inLine_of_mem hrun hx]
  cases tail with
  | nil => simp
  | cons x tail =>
    obtain rfl := hend x rfl
    simp [inLine]

/-- Two slashes do not reach over the end of a line. -/
theorem slashes_of_prefix_append (hend : ∀ x, tail.head? = some x → x = '\n')
    (h : ['/', '/'] <+: run ++ tail) : ['/', '/'] <+: run := by
  obtain ⟨behind, hbehind⟩ := h
  match run, tail with
  | [], [] => cases hbehind
  | [], y :: tail =>
    obtain rfl := hend y rfl
    cases hbehind
  | [x], [] => cases hbehind
  | [x], y :: tail =>
    obtain rfl := hend y rfl
    cases hbehind
  | x :: y :: run, tail =>
    cases hbehind
    exact ⟨run, rfl⟩

/-- At the end of a line the text ends, or a line feed follows. -/
theorem lineEnd_iff : Place.lineEnd.holds c = true ↔ ∀ x, c.rest.head? = some x → x = '\n' := by
  rw [Place.holds]
  cases c.rest <;> simp

/-- Two slashes are followed to the end of the line and nowhere else. -/
theorem restOfLine_matchThen {α : Type} {k : Cursor → Captures → Option α} {caps : Captures}
    (h : c.Passes ('/' :: '/' :: run) d) (hrun : '\n' ∉ run)
    (hend : ∀ x, d.rest.head? = some x → x = '\n') :
    restOfLine.matchThen k c caps = k d caps := by
  have hsplit : '/' :: '/' :: run = ['/', '/'] ++ run := rfl
  obtain ⟨e, hopen, hpasses⟩ := (hsplit ▸ h).exists_between
  have hall : ∀ x ∈ run, inLine x = true := fun x hx => inLine_of_mem hrun hx
  refine matchThen_eq_of_unique ?_ fun d' caps' hleads => ?_
  · simp only [restOfLine, leads_sequence_cons, leads_sequence_nil, leads_text]
    exact ⟨e, _, ⟨hopen, rfl⟩, d, _, ⟨⟨run, hall, hpasses⟩, rfl⟩, d, _,
      ⟨lineEnd_iff.2 hend, rfl, rfl⟩, rfl, rfl⟩
  · simp only [restOfLine, leads_sequence_cons, leads_sequence_nil, leads_text] at hleads
    obtain ⟨e', _, ⟨hopen', rfl⟩, _, _, ⟨⟨run', hall', hpasses'⟩, rfl⟩, _, _,
      ⟨hend', rfl, rfl⟩, rfl, rfl⟩ := hleads
    obtain rfl := hopen'.unique hopen
    have hrun' : '\n' ∉ run' := fun hmem => absurd (hall' _ hmem) (by decide)
    have hsame := takeWhile_inLine hrun' (lineEnd_iff.1 hend')
    rw [← hpasses'.rest, hpasses.rest, takeWhile_inLine hrun hend] at hsame
    subst hsame
    exact ⟨hpasses'.unique hpasses, rfl⟩

/-- Without two slashes there is no line comment. -/
theorem restOfLine_matchThen_eq_none {α : Type} {k : Cursor → Captures → Option α}
    {caps : Captures} (h : ¬ ['/', '/'] <+: c.rest) : restOfLine.matchThen k c caps = none := by
  refine matchThen_eq_none fun d caps' hleads => ?_
  simp only [restOfLine, leads_sequence_cons, leads_text] at hleads
  obtain ⟨e, _, ⟨hopen, -⟩, -⟩ := hleads
  exact h ⟨e.rest, hopen.rest.symm⟩

/-- The rest of a line is looked for at the cursor, where that is the start of a line, and
then behind the next character. -/
theorem lineComment_matchAt?_eq (c : Cursor) :
    lineComment.matchAt? c =
      (if Place.lineStart.holds c then
        restOfLine.matchThen (fun d caps => some (Match.mk (c.spanTo d) caps)) c
          [("before", c.spanTo c)]
      else none).or
      (match c.rest with
      | [] => none
      | x :: rest =>
        if noneOf ":'\"\\" x then
          restOfLine.matchThen (fun d caps => some ⟨c.spanTo d, caps⟩)
            ⟨some x, rest, c.position + 1⟩ [("before", c.spanTo ⟨some x, rest, c.position + 1⟩)]
        else none) := by
  simp only [matchAt?, lineComment, restOfLine, Pattern.sequence, matchThen]
  split
  · rename_i h
    rw [h, Option.some_or]
  · rename_i h
    rw [h]
    cases c.rest <;> rfl

/-- The rest of a line from its start. -/
theorem lineComment_matchAt?_of_start (hstart : Place.lineStart.holds c = true)
    (h : c.Passes ('/' :: '/' :: run) d) (hrun : '\n' ∉ run)
    (hend : ∀ x, d.rest.head? = some x → x = '\n') :
    lineComment.matchAt? c = some ⟨c.spanTo d, [("before", ⟨c.position, []⟩)]⟩ := by
  rw [lineComment_matchAt?_eq, if_pos hstart, restOfLine_matchThen h hrun hend, Option.some_or,
    (Cursor.Passes.refl c).spanTo]

section Behind

variable (hstart : Place.lineStart.holds c = true → ¬ ['/', '/'] <+: c.rest)
include hstart

/-- Where no line comment begins the line, one may begin behind the next character. -/
theorem lineComment_matchAt?_behind (h : c.Passes [x] d) :
    lineComment.matchAt? c =
      if noneOf ":'\"\\" x then
        restOfLine.matchThen (fun e caps => some ⟨c.spanTo e, caps⟩) d
          [("before", ⟨c.position, [x]⟩)]
      else none := by
  have hd : d = ⟨some x, d.rest, c.position + 1⟩ := h.unique ⟨h.rest, rfl, rfl⟩
  have hnone {k : Cursor → Captures → Option Match} {caps : Captures} :
      (if Place.lineStart.holds c then restOfLine.matchThen k c caps else none) = none := by
    split
    · exact restOfLine_matchThen_eq_none (hstart ‹_›)
    · rfl
  rw [lineComment_matchAt?_eq, hnone, Option.none_or, h.rest, List.singleton_append]
  dsimp only
  rw [← hd, h.spanTo]

/-- The rest of a line with the character in front of it. -/
theorem lineComment_matchAt?_of_behind (hx : noneOf ":'\"\\" x = true)
    (h : c.Passes (x :: '/' :: '/' :: run) d) (hrun : '\n' ∉ run)
    (hend : ∀ x, d.rest.head? = some x → x = '\n') :
    lineComment.matchAt? c = some ⟨c.spanTo d, [("before", ⟨c.position, [x]⟩)]⟩ := by
  obtain ⟨e, hone, hpasses⟩ := h.exists_behind_first
  rw [lineComment_matchAt?_behind hstart hone, if_pos hx, restOfLine_matchThen hpasses hrun hend]

/-- No comment begins behind a character that guards the slashes, or without slashes behind it. -/
theorem lineComment_matchAt?_eq_none (h : c.Passes [x] d)
    (hx : noneOf ":'\"\\" x = true → ¬ ['/', '/'] <+: d.rest) :
    lineComment.matchAt? c = none := by
  rw [lineComment_matchAt?_behind hstart h]
  split
  · exact restOfLine_matchThen_eq_none (hx ‹_›)
  · rfl

/-- A line is written up to its comment, where no comment begins it. -/
theorem replacedAt_cutBehind (h : c.Passes run d) (hrun : '\n' ∉ run)
    (hend : ∀ x, d.rest.head? = some x → x = '\n') :
    lineComment.replacedAt (partText "before") c =
      cutBehind run ++ lineComment.replacedAt (partText "before") d := by
  -- on the line: a comment takes the rest of it, and the character in front is put back
  induction run generalizing c with
  | nil => rw [h.eq_of_nil]; rfl
  | cons x run ih =>
    obtain ⟨e, hone, hpasses⟩ := h.exists_behind_first
    by_cases hcut : noneOf ":'\"\\" x = true ∧ ['/', '/'] <+: run
    · obtain ⟨hx, behind, rfl⟩ := hcut
      have hbehind : '\n' ∉ behind := fun hmem => hrun (by simp [hmem])
      rw [replacedAt_of_match h (List.cons_ne_nil _ _)
        (lineComment_matchAt?_of_behind hstart hx h hbehind hend) (by rw [h.spanTo])]
      simp [cutBehind, hx, partText, Match.part?]
    · have hedge : noneOf ":'\"\\" x = true → ¬ ['/', '/'] <+: e.rest := fun hx hbegins =>
        hcut ⟨hx, slashes_of_prefix_append hend (hpasses.rest ▸ hbegins)⟩
      have hnext : Place.lineStart.holds e = true → ¬ ['/', '/'] <+: e.rest := by
        have hbefore : e.before = some x := hone.before
        rw [Place.holds, hbefore]
        intro heq
        obtain rfl : x = '\n' := by simpa using heq
        exact absurd List.mem_cons_self hrun
      rw [replacedAt_of_no_match hone (lineComment_matchAt?_eq_none hstart hone hedge),
        ih hnext hpasses (fun hmem => hrun (List.mem_cons_of_mem x hmem))]
      have hkept : (noneOf ":'\"\\" x && ['/', '/'].isPrefixOf run) = false := by
        rw [Bool.and_eq_false_iff, ← Bool.not_eq_true, ← Bool.not_eq_true,
          List.isPrefixOf_iff_prefix]
        exact not_and_or.1 hcut
      rw [cutBehind, hkept]
      rfl

end Behind

/-- The next line, with the line feed in front of it. -/
theorem replacedAt_nextLine (h : c.Passes ('\n' :: run) d) (hrun : '\n' ∉ run)
    (hend : ∀ x, d.rest.head? = some x → x = '\n') :
    lineComment.replacedAt (partText "before") c =
      '\n' :: (cutLine run ++ lineComment.replacedAt (partText "before") d) := by
  have hstart : Place.lineStart.holds c = true → ¬ ['/', '/'] <+: c.rest := by
    rw [h.rest]
    rintro - ⟨behind, hbehind⟩
    cases hbehind
  obtain ⟨e, hone, hpasses⟩ := h.exists_behind_first
  by_cases hcut : ['/', '/'] <+: run
  · obtain ⟨behind, rfl⟩ := hcut
    have hbehind : '\n' ∉ behind := fun hmem => hrun (by simp [hmem])
    rw [replacedAt_of_match h (List.cons_ne_nil _ _)
      (lineComment_matchAt?_of_behind hstart (by decide) h hbehind hend) (by rw [h.spanTo])]
    simp [cutLine, partText, Match.part?]
  · have hnext : ¬ ['/', '/'] <+: e.rest := fun hbegins =>
      hcut (slashes_of_prefix_append hend (hpasses.rest ▸ hbegins))
    rw [replacedAt_of_no_match hone (lineComment_matchAt?_eq_none hstart hone fun _ => hnext),
      replacedAt_cutBehind (fun _ => hnext) hpasses hrun hend, cutLine,
      if_neg (mt List.isPrefixOf_iff_prefix.1 hcut)]

/-- The first line. -/
theorem replacedAt_firstLine (hc : c.before = none) (h : c.Passes run d) (hrun : '\n' ∉ run)
    (hend : ∀ x, d.rest.head? = some x → x = '\n') :
    lineComment.replacedAt (partText "before") c =
      cutLine run ++ lineComment.replacedAt (partText "before") d := by
  by_cases hcut : ['/', '/'] <+: run
  · obtain ⟨behind, rfl⟩ := hcut
    have hbehind : '\n' ∉ behind := fun hmem => hrun (by simp [hmem])
    have hstart : Place.lineStart.holds c = true := by rw [Place.holds, hc]; rfl
    rw [replacedAt_of_match h (List.cons_ne_nil _ _)
      (lineComment_matchAt?_of_start hstart h hbehind hend) (by rw [h.spanTo])]
    simp [cutLine, partText, Match.part?]
  · have hnext : ¬ ['/', '/'] <+: c.rest := fun hbegins =>
      hcut (slashes_of_prefix_append hend (h.rest ▸ hbegins))
    rw [replacedAt_cutBehind (fun _ => hnext) h hrun hend, cutLine,
      if_neg (mt List.isPrefixOf_iff_prefix.1 hcut)]

end RestOfLine

/-- **The rest of lines is removed line by line.** -/
theorem lineComment_replaceIn_lines {ls : List (List Char)} {cs : List Char} (h : Lines ls cs)
    (hlines : ∀ l ∈ ls, '\n' ∉ l) :
    Lines (ls.map cutLine) (lineComment.replaceIn (partText "before") cs) :=
  h.replaceIn ('\n' ∉ ·) List.not_mem_nil rfl
    (fun _ _ _ hc hl hpasses hend => replacedAt_firstLine hc hpasses hl hend)
    (fun _ _ _ hl hpasses hend => replacedAt_nextLine hpasses hl hend) hlines

/-! ### Both passes -/

section Both

variable {ls : List (List Char)} {cs : List Char}

/-- **Where every line closes the blocks that it opens, comments are removed line by
line.** -/
theorem stripComments_lines (h : Lines ls cs) (hclosed : ∀ l ∈ ls, leavesOpen false l = false)
    (hlines : ∀ l ∈ ls, '\n' ∉ outside false l) :
    Lines (ls.map (cutLine ∘ outside false)) (stripComments cs) := by
  have hlines' : ∀ l ∈ ls.map (outside false), '\n' ∉ l := by simpa using hlines
  rw [← List.map_map]
  exact lineComment_replaceIn_lines (blockComment_replaceIn_lines h hclosed) hlines'

/-- Where no block is closed, the rest of each line is all that is removed. -/
theorem stripComments_lines_of_no_close (h : Lines ls cs) (hclose : ¬ marker true <:+: cs)
    (hlines : ∀ l ∈ ls, '\n' ∉ l) : Lines (ls.map cutLine) (stripComments cs) := by
  have hblocks : blockComment.replaceIn (fun _ => [' ']) cs = cs := by
    refine replaceIn_eq_self fun xs e hpasses _ => ?_
    refine blockComment_matchAt?_of_no_close fun hwithin => ?_
    exact hclose (hwithin.trans ⟨xs, [], by rw [List.append_nil]; exact hpasses.rest.symm⟩)
  rw [stripComments, hblocks]
  exact lineComment_replaceIn_lines h hlines

end Both

end Import
end Strata
