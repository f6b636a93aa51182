/-
# Quoted specifiers and the statements around them

A statement is found by what stands around its specifier (`Quotation`):

| part | of `const v = require('s');` |
| --- | --- |
| `lead` | `const v = ` |
| `opening` | `require(` |
| `specifier`, between two marks | `s` |
| `closing` | `)` |
| `behind` | `;` |

Whatever quoteless text stands in front of the line, the form of the statement finds it in
its place, and the other forms find nothing on the line (`Quotation.mentionsAt_line`). An
opening may begin in the text in front and reach over it to the quote; then it is an opening
of the same form, since openings of different forms end differently, and the mention is the
same (`Form.mentionsAt_of_match_behind`).

How the statement is spelled does not matter for this; each kind of source says in its own
module which quotations its lines are.
-/

import Strata.Proofs.Import.Forms
import Strata.Proofs.Sorting
import Mathlib.Data.List.Infix
import Mathlib.Data.List.Chain

namespace Strata
namespace Import

open Text Pattern

/-! ### The mentions of a form -/

/-- The mentions that a form finds from a cursor on. -/
def mentionsAt (f : Form) (c : Cursor) : List Mention :=
  (f.pattern.matchesAt c).filterMap fun m =>
    (m.part? "specifier").map fun span => ⟨span.start, String.ofList (trimChars span.text)⟩

/-- The mentions from the start are all mentions. -/
theorem mentionsAt_start (f : Form) (cs : List Char) :
    mentionsAt f (.start cs) = mentionsOf f.pattern cs := rfl

/-- The mentions of one form among those of all forms. -/
def ofForm (f : Form) (found : List (Form × Mention)) : List Mention :=
  (found.filter (·.1 == f)).map Prod.snd

/-- The mentions of one form are picked from each part of a list. -/
theorem ofForm_append (f : Form) (xs ys : List (Form × Mention)) :
    ofForm f (xs ++ ys) = ofForm f xs ++ ofForm f ys := by
  rw [ofForm, List.filter_append, List.map_append]
  rfl

/-- The mentions of the forms together are all mentions. -/
theorem flatMap_ofForm_perm (found : List (Form × Mention)) :
    ([Form.clause, .effect, .call].flatMap (ofForm · found)).Perm (found.map Prod.snd) := by
  induction found with
  | nil => exact .nil
  | cons m found ih =>
    have hcons (f : Form) :
        ofForm f (m :: found) = if m.1 = f then m.2 :: ofForm f found else ofForm f found := by
      unfold ofForm
      by_cases hf : m.1 = f <;> simp [hf]
    simp only [List.flatMap_cons, List.flatMap_nil, List.append_nil, hcons, List.map_cons] at ih ⊢
    refine .trans ?_ (ih.cons m.2)
    cases m.1 with
    | clause => exact .refl _
    | effect => exact List.perm_middle
    | call =>
      simp only [reduceCtorEq, if_false, if_true, ← List.append_assoc]
      exact List.perm_middle

instance : Std.TransCmp Mention.order :=
  inferInstanceAs (Std.TransCmp (compareLex (compareOn Mention.position)
    (compareOn Mention.specifier)))

/-- What the forms find is listed in the order of the places. -/
theorem mentions_of_found {cs : List Char} {found : List (Form × Mention)}
    (hfound : ∀ f, mentionsAt f (.start cs) = ofForm f found)
    (hplaces : (found.map Prod.snd).Pairwise (·.position < ·.position)) :
    mentions cs = found.map Prod.snd := by
  have hall : (forms.flatMap fun form => mentionsOf form cs) =
      [Form.clause, .effect, .call].flatMap (ofForm · found) := by
    rw [Form.forms_eq, List.flatMap_map]
    exact List.flatMap_congr fun f _ => (mentionsAt_start f cs).symm.trans (hfound f)
  have hordered : (found.map Prod.snd).Pairwise fun a b => (a.order b).isLE = true := by
    refine hplaces.imp fun {a b} hab => ?_
    rw [Mention.order, Nat.compare_eq_lt.2 hab]
    rfl
  have heq (a b : Mention) (hab : a.order b = .eq) : a = b := by
    obtain ⟨hposition, hspecifier⟩ := Ordering.then_eq_eq.1 hab
    cases a
    cases b
    exact Mention.mk.injEq .. ▸
      ⟨Std.LawfulEqOrd.eq_of_compare hposition, Std.LawfulEqOrd.eq_of_compare hspecifier⟩
  rw [mentions, hall, mergeSort_eq_of_perm (flatMap_ofForm_perm _) fun a _ b _ => heq a b,
    List.mergeSort_of_pairwise hordered]

namespace Form

variable {f : Form} {c d : Cursor} {run : List Char}

/-- **Wherever an opening begins in front of a match, the mention is the same.** -/
theorem mentionsAt_of_match_behind {m : Match} (h : c.Passes run d)
    (hrun : ∀ x ∈ run, ¬ IsQuote x) (hmatch : f.pattern.matchAt? d = some m) :
    mentionsAt f c = mentionsAt f d := by
  induction run generalizing c with
  | nil => rw [h.eq_of_nil]
  | cons x run ih =>
    obtain ⟨e, hone, hpasses⟩ := h.exists_behind_first
    cases hhere : f.pattern.matchAt? c with
    | none =>
      rw [mentionsAt, matchesAt_of_no_match hone hhere, ← mentionsAt]
      exact ih hpasses fun y hy => hrun y (List.mem_cons_of_mem x hy)
    | some m' =>
      obtain ⟨run₁, q, s, q', ending, g, hreads, rfl⟩ := exists_reads_of_matchAt? hmatch
      obtain ⟨run₂, r, s', r', ending', g', hreads', rfl⟩ := exists_reads_of_matchAt? hhere
      have hrest : c.rest = (x :: run ++ run₁) ++ q :: (s ++ q' :: (ending ++ g.rest)) := by
        rw [h.rest, hreads.rest, List.append_assoc]
      have hquotes : ∀ y ∈ x :: run ++ run₁, ¬ IsQuote y :=
        List.forall_mem_append.2 ⟨hrun, hreads.opens.noQuote⟩
      obtain ⟨rfl, rfl, rfl, rfl, hending⟩ :=
        hreads'.eq_of_rest hrest hquotes hreads.left hreads.specifier (.inl hreads.right)
      obtain rfl := hreads'.closes.unique hreads.closes hending
      obtain rfl : g' = g := hreads'.passes.unique (by simpa using h.append hreads.passes)
      have hplace : c.position + (x :: run ++ run₁).length + 1 =
          d.position + run₁.length + 1 := by
        rw [h.position, List.length_append]
        omega
      rw [mentionsAt, mentionsAt, matchesAt_of_match hreads'.passes (by simp) hhere rfl,
        matchesAt_of_match hreads.passes (by simp) hmatch rfl, hplace]
      rfl

/-- Without a quote there is no mention. -/
theorem mentionsAt_of_no_quote (h : ∀ x ∈ c.rest, ¬ IsQuote x) : mentionsAt f c = [] := by
  obtain ⟨d, hpasses, hd⟩ := Cursor.exists_passes (List.append_nil c.rest).symm
  rw [mentionsAt, matchesAt_of_none hpasses, matchesAt_nil hd, List.filterMap_nil]
  intro xs ys e hsplit hys hpasses'
  refine matchAt?_eq_none_iff.2 fun d caps hleads => ?_
  obtain ⟨run', r, s, r', ending, hreads, -⟩ := exists_reads hleads
  refine h r ?_ hreads.left
  rw [hpasses'.rest, hreads.rest]
  simp

variable {front specifier behind : List Char} {q : Char}

/-- Behind the first quote of a specifier nothing is found on its line. -/
theorem matchesAt_of_specifier (h : c.Passes (specifier ++ q :: behind) d) (hq : IsQuote q)
    (hspecifier : ∀ x ∈ specifier, ¬ IsStop x)
    (hbehind : ∀ x ∈ behind, ¬ IsStop x ∧ x ≠ 'i' ∧ x ≠ 'e' ∧ x ≠ 'r')
    (hend : ∀ x, d.rest.head? = some x → x = '\n') :
    f.pattern.matchesAt c = f.pattern.matchesAt d := by
  have hsplit : specifier ++ q :: behind = (specifier ++ [q]) ++ behind := by simp
  obtain ⟨e, hquoted, hlast⟩ := (hsplit ▸ h).exists_between
  rw [matchesAt_of_last_quote hquoted (fun x hx hquote => hspecifier x hx (.inl hquote)) hq
      hlast.rest (fun x hx => (hbehind x hx).1) hend,
    matchesAt_of_first hlast fun x hx => (hbehind x hx).2]

/-- A form finds nothing on a line whose first quote ends no opening of it. -/
theorem matchesAt_of_foreign (h : c.Passes (front ++ q :: (specifier ++ q :: behind)) d)
    (hfront : ∀ x ∈ front, ¬ IsQuote x) (hink : (ink front).getLast? ≠ some f.lastInk)
    (hq : IsQuote q) (hspecifier : ∀ x ∈ specifier, ¬ IsStop x)
    (hbehind : ∀ x ∈ behind, ¬ IsStop x ∧ x ≠ 'i' ∧ x ≠ 'e' ∧ x ≠ 'r')
    (hend : ∀ x, d.rest.head? = some x → x = '\n') :
    f.pattern.matchesAt c = f.pattern.matchesAt d := by
  obtain ⟨e, hpasses, hquoted⟩ := h.exists_between
  obtain ⟨e₁, hquote, hspec⟩ := hquoted.exists_behind_first
  rw [matchesAt_of_lastInk hpasses hquoted.rest hfront hq hink,
    matchesAt_of_first hquote (by simpa using hq.ne_first.1),
    matchesAt_of_specifier hspec hq hspecifier hbehind hend]

end Form

/-! ### Quotations -/

/-- A specifier between two quotes on a line, and the statement around it: an opening and a
closing of one form, what stands in front of the one and what stands behind the other. -/
structure Quotation where
  form : Form
  /-- what stands in front of the statement proper -/
  lead : List Char
  opening : List Char
  quote : Char
  specifier : String
  closing : List Char
  /-- what stands behind the statement -/
  behind : List Char
  edge : lead.getLast?.any isWord = false
  plain : ∀ x ∈ lead ++ opening, ¬ IsQuote x ∧ x ≠ '/'
  opens : ∀ c d : Cursor, c.before.any isWord = false → c.Passes opening d →
    (sequence form.opening).Leads c [] d []
  isQuote : IsQuote quote
  oneLine : ∀ x ∈ specifier.toList, ¬ IsStop x
  closes : form.Closes closing
  ends : ∀ x ∈ closing ++ behind, ¬ IsStop x ∧ (x ≠ 'i' ∧ x ≠ 'e' ∧ x ≠ 'r') ∧ x ≠ '/'

namespace Quotation

variable (s : Quotation)

/-- What stands in front of the first quote. -/
def front : List Char := s.lead ++ s.opening

/-- The line that a quotation is written on. -/
def chars : List Char :=
  s.front ++ s.quote :: (s.specifier.toList ++ s.quote :: (s.closing ++ s.behind))

/-- What a quotation names: its specifier without blanks on either side. -/
def named : String := trim s.specifier

/-- The mention of a quotation, on a line that begins at the given place. One with nothing
between its quotes is not found. -/
def found (n : Nat) : List (Form × Mention) :=
  if s.specifier = "" then [] else [(s.form, ⟨n + s.front.length + 1, s.named⟩)]

/-- The opening mark is the first quote of the line. -/
theorem not_isQuote_of_mem_front {x : Char} (hx : x ∈ s.front) : ¬ IsQuote x := (s.plain x hx).1

/-- The last character in front of the opening mark, blanks aside, tells the form. -/
theorem getLast?_ink_front : (ink s.front).getLast? = some s.form.lastInk := by
  obtain ⟨d, hpasses, -⟩ :=
    Cursor.exists_passes (c := .start s.opening) (List.append_nil s.opening).symm
  exact getLast?_ink_append (Form.opens_of_leads (s.opens _ d rfl hpasses) hpasses).last

/-- No word reaches over the lead to the keyword. -/
theorem not_isWord_getLast?_lead {before : Option Char} (h : before.any isWord = false) :
    (s.lead.getLast?.or before).any isWord = false := by
  have hedge := s.edge
  cases hlast : s.lead.getLast? with
  | none => exact h
  | some x =>
    rw [hlast] at hedge
    exact hedge

variable {s} {f : Form} {c d e : Cursor} {v : List Char}

/-- A quotation with nothing between its quotes is not found. -/
theorem matchesAt_of_empty (hempty : s.specifier = "") (h : c.Passes (v ++ s.chars) d)
    (hv : ∀ x ∈ v, ¬ IsQuote x) : f.pattern.matchesAt c = f.pattern.matchesAt d := by
  have hsplit : v ++ s.chars = (v ++ s.front) ++
      ([s.quote, s.quote] ++ (s.closing ++ s.behind)) := by
    simp [chars, hempty]
  obtain ⟨e, hfront, h⟩ := (hsplit ▸ h).exists_between
  obtain ⟨e₁, hquotes, hend⟩ := h.exists_between
  have hnone : ∀ x ∈ v ++ s.front, ¬ IsQuote x :=
    List.forall_mem_append.2 ⟨hv, fun _ => s.not_isQuote_of_mem_front⟩
  rw [Form.matchesAt_of_empty hfront hquotes.rest hnone s.isQuote s.isQuote,
    Form.matchesAt_of_first hquotes (by simp [s.isQuote.ne_first]),
    Form.matchesAt_of_first hend fun x hx => (s.ends x hx).2.1]

/-- The form of a quotation finds it, and nothing else on its line. -/
theorem mentionsAt_own (hnonempty : s.specifier ≠ "") (h : c.Passes v d)
    (hv : ∀ x ∈ v, ¬ IsQuote x) (hbefore : d.before.any isWord = false)
    (hline : d.Passes s.chars e) :
    mentionsAt s.form c = ⟨d.position + s.front.length + 1, s.named⟩ :: mentionsAt s.form e := by
  have hsplit : s.chars = s.lead ++ (s.opening ++
      ((s.quote :: (s.specifier.toList ++ s.quote :: s.closing)) ++ s.behind)) := by
    simp [chars, front]
  obtain ⟨d₁, hlead, hline⟩ := (hsplit ▸ hline).exists_between
  obtain ⟨d₂, hopening, hline⟩ := hline.exists_between
  obtain ⟨d₃, hquoted, hend⟩ := hline.exists_between
  have hedge : d₁.before.any isWord = false := by
    rw [hlead.before]
    exact s.not_isWord_getLast?_lead hbefore
  have hmatch := Form.matchAt?_of_opening (s.opens _ _ hedge hopening) hopening s.isQuote
    (by simpa using hnonempty) s.oneLine s.isQuote s.closes hquoted
  -- an opening in the text in front reaches over to the same quote, so the search may begin behind
  -- it
  have hquotes : ∀ x ∈ v ++ s.lead, ¬ IsQuote x := List.forall_mem_append.2
    ⟨hv, fun x hx => s.not_isQuote_of_mem_front (List.mem_append_left _ hx)⟩
  have hplace : d₂.position + 1 = d.position + s.front.length + 1 := by
    rw [hopening.position, hlead.position, front, List.length_append, Nat.add_assoc d.position]
  rw [Form.mentionsAt_of_match_behind (h.append hlead) hquotes hmatch, mentionsAt,
    matchesAt_of_match (hopening.append hquoted) (by simp) hmatch rfl,
    Form.matchesAt_of_first hend fun x hx => (s.ends x (List.mem_append_right _ hx)).2.1,
    mentionsAt, hplace]
  rfl

/-- The other forms find nothing on it. -/
theorem mentionsAt_foreign (hf : f ≠ s.form) (h : c.Passes v d) (hv : ∀ x ∈ v, ¬ IsQuote x)
    (hline : d.Passes s.chars e) (hend : ∀ x, e.rest.head? = some x → x = '\n') :
    mentionsAt f c = mentionsAt f e := by
  have hpasses : c.Passes ((v ++ s.front) ++
      s.quote :: (s.specifier.toList ++ s.quote :: (s.closing ++ s.behind))) e := by
    simpa [chars] using h.append hline
  have hquotes : ∀ x ∈ v ++ s.front, ¬ IsQuote x :=
    List.forall_mem_append.2 ⟨hv, fun _ => s.not_isQuote_of_mem_front⟩
  have hink : (ink (v ++ s.front)).getLast? ≠ some f.lastInk := by
    rw [getLast?_ink_append s.getLast?_ink_front]
    exact fun hlast => hf (Form.lastInk_inj (Option.some.inj hlast)).symm
  rw [mentionsAt, Form.matchesAt_of_foreign hpasses hquotes hink s.isQuote s.oneLine
    (fun x hx => ⟨(s.ends x hx).1, (s.ends x hx).2.1⟩) hend, ← mentionsAt]

/-- **A quotation is found on its line by its form alone, whatever stands in front of it
without a quote.** -/
theorem mentionsAt_line (h : c.Passes v d) (hv : ∀ x ∈ v, ¬ IsQuote x)
    (hbefore : d.before.any isWord = false) (hline : d.Passes s.chars e)
    (hend : ∀ x, e.rest.head? = some x → x = '\n') :
    mentionsAt f c = ofForm f (s.found d.position) ++ mentionsAt f e := by
  by_cases hempty : s.specifier = ""
  · rw [mentionsAt, matchesAt_of_empty hempty (h.append hline) hv, ← mentionsAt, found,
      if_pos hempty]
    rfl
  by_cases hf : s.form = f
  · subst hf
    rw [mentionsAt_own hempty h hv hbefore hline, found, if_neg hempty]
    simp [ofForm]
  · rw [mentionsAt_foreign (Ne.symm hf) h hv hline hend, found, if_neg hempty]
    simp [ofForm, hf]

end Quotation

/-! ### Specifiers that are written as they are -/

/-- A specifier that can be written between quotes on a line, as it is: it is not empty,
holds no quote, line feed or beginning of a comment, and has no blank on either side. -/
structure Quotable (specifier : String) : Prop where
  nonempty : specifier ≠ ""
  oneLine : ∀ x ∈ specifier.toList, ¬ IsStop x
  noLineComment : ¬ ['/', '/'] <:+: specifier.toList
  noBlockComment : ¬ ['/', '*'] <:+: specifier.toList
  noBlankFirst : ∀ x ∈ specifier.toList.head?, isBlank x = false
  noBlankLast : ∀ x ∈ specifier.toList.getLast?, isBlank x = false

/-- There is nothing to trim. -/
theorem Quotable.trimmed {specifier : String} (h : Quotable specifier) :
    String.ofList (trimChars specifier.toList) = specifier := by
  rw [trimChars_eq_self h.noBlankFirst h.noBlankLast, String.ofList_toList]

/-- Two characters that begin no comment. -/
def NoComment (x y : Char) : Prop := x = '/' → y ≠ '/' ∧ y ≠ '*'

instance (x y : Char) : Decidable (NoComment x y) := inferInstanceAs (Decidable (_ → _))

/-- A text in which no comment begins is left as it is. -/
theorem stripComments_eq_self {cs : List Char} (h : cs.IsChain NoComment) :
    stripComments cs = cs := by
  have hrest {xs : List Char} {e : Cursor} (hpasses : (Cursor.start cs).Passes xs e) :
      e.rest.IsChain NoComment := h.suffix ⟨xs, hpasses.rest.symm⟩
  have hblock : blockComment.replaceIn (fun _ => [' ']) cs = cs := by
    refine replaceIn_eq_self fun xs e hpasses _ => matchAt?_eq_none_iff.2 fun d caps hleads => ?_
    simp only [blockComment, leads_sequence_cons, leads_text] at hleads
    obtain ⟨e₁, _, ⟨hopen, -⟩, -⟩ := hleads
    exact (List.isChain_cons_cons.1 (hopen.rest ▸ hrest hpasses)).1 rfl |>.2 rfl
  have hline : lineComment.replaceIn (partText "before") cs = cs := by
    refine replaceIn_eq_self fun xs e hpasses _ => matchAt?_eq_none_iff.2 fun d caps hleads => ?_
    simp only [lineComment, leads_sequence_cons, leads_text] at hleads
    obtain ⟨e₁, _, hbefore, e₂, _, ⟨hopen, -⟩, -⟩ := hleads
    obtain ⟨ys, hys⟩ := hbefore.exists_passes
    exact (List.isChain_cons_cons.1 (hopen.rest ▸ hrest (hpasses.append hys))).1 rfl |>.1 rfl
  rw [stripComments, hblock, hline]

/-- A specifier that may be quoted begins no comment. -/
theorem Quotable.isChain {specifier : String} (h : Quotable specifier) :
    specifier.toList.IsChain NoComment := by
  refine (List.isChain_isInfix specifier.toList).imp fun x y hinfix hx => ⟨?_, ?_⟩
  · rintro rfl
    exact h.noLineComment (hx ▸ hinfix)
  · rintro rfl
    exact h.noBlockComment (hx ▸ hinfix)

/-- No comment begins on a line with a quoted specifier, when there is no slash elsewhere. -/
theorem Quotable.isChain_line {specifier : String} {q : Char} {front behind : List Char}
    (h : Quotable specifier) (hq : IsQuote q) (hfront : ∀ x ∈ front, x ≠ '/')
    (hbehind : ∀ x ∈ behind, x ≠ '/') :
    (front ++ q :: (specifier.toList ++ q :: behind)).IsChain NoComment := by
  obtain ⟨-, hslash, hstar⟩ := hq.ne_first
  have hplain {cs : List Char} (hcs : ∀ x ∈ cs, x ≠ '/') : cs.IsChain NoComment :=
    List.Pairwise.isChain (List.pairwise_of_forall_mem_list fun x hx _ _ hx' =>
      absurd hx' (hcs x hx))
  have hlast : (q :: behind).IsChain NoComment :=
    (hplain hbehind).cons fun y _ hx => absurd hx hslash
  have hquoted : (specifier.toList ++ q :: behind).IsChain NoComment := by
    refine h.isChain.append hlast fun x _ y hy _ => ?_
    obtain rfl : q = y := by simpa using hy
    exact ⟨hslash, hstar⟩
  refine (hplain hfront).append (hquoted.cons fun y _ hx => absurd hx hslash) fun x hx y _ hx' => ?_
  exact absurd hx' (hfront x (List.mem_of_mem_getLast? hx))

/-- The line of a quotation begins no comment when its specifier does not. -/
theorem Quotation.isChain_chars {s : Quotation} (h : Quotable s.specifier) :
    s.chars.IsChain NoComment :=
  h.isChain_line s.isQuote (fun x hx => (s.plain x hx).2) fun x hx => (s.ends x hx).2.2

end Import
end Strata
