/-
# How a form of statement matches

Every form of statement looks for an opening, a specifier between two quotes and a
closing. An opening begins with a keyword and holds no quote:

| form | opening | closing |
| --- | --- | --- |
| `clause` | `import` or `export`, a blank, a clause, `from`, blanks | nothing |
| `effect` | `import`, blanks | nothing |
| `call` | `require` or `import`, blanks, `(`, blanks | blanks, `)` |

So an opening reaches from a keyword to the next quote, and its specifier from there to
the quote after that, on the same line (`Form.Reads`, `Form.exists_reads`). The openings of
different forms end differently (`Form.lastInk`):

| where a form does not match | |
| --- | --- |
| in front of anything but a keyword | `Form.matchAt?_eq_none_of_first` |
| in front of a quote that no opening of it ends at | `Form.matchAt?_eq_none_of_lastInk` |
| in front of two quotes with nothing in between | `Form.matchAt?_eq_none_of_empty` |
| in front of the last quote of a line | `Form.matchAt?_eq_none_of_last_quote` |

A quoted specifier behind an opening, with a closing behind it, is a match
(`Form.matchAt?_of_opening`).
-/

import Mathlib.Data.Bool.AllAny
import Strata.Import.Statement
import Strata.Proofs.Lists
import Strata.Proofs.Text.Pattern

namespace Strata

namespace Import

open Text Pattern

/-- One of the two quotes. -/
def IsQuote (x : Char) : Prop := x = '\'' ∨ x = '"'

/-- A character that no specifier holds. -/
def IsStop (x : Char) : Prop := IsQuote x ∨ x = '\n'

instance : DecidablePred IsQuote := fun _ => inferInstanceAs (Decidable (_ ∨ _))

instance : DecidablePred IsStop := fun _ => inferInstanceAs (Decidable (_ ∨ _))

/-- The pattern of a quote, as a condition. -/
theorem among_quotes {x : Char} : among "'\"" x = true ↔ IsQuote x := by
  simp [among, IsQuote]

/-- The pattern of the characters of a specifier, as a condition. -/
theorem noneOf_stops {x : Char} : noneOf "'\"\n" x = true ↔ ¬ IsStop x := by
  simp [noneOf, IsStop, IsQuote, and_assoc]

/-- The quote that is written on both sides of a specifier. -/
def quoteMark (isDouble : Bool) : Char := if isDouble then '"' else '\''

/-- Either mark is a quote. -/
theorem isQuote_quoteMark (isDouble : Bool) : IsQuote (quoteMark isDouble) := by
  cases isDouble
  · exact .inl rfl
  · exact .inr rfl

/-- No keyword and no comment begins with a quote. -/
theorem IsQuote.ne_first {q : Char} (h : IsQuote q) :
    (q ≠ 'i' ∧ q ≠ 'e' ∧ q ≠ 'r') ∧ q ≠ '/' ∧ q ≠ '*' := by
  rcases h with rfl | rfl <;> decide

/-- The characters of a clause are no quotes. -/
theorem not_isQuote_of_noneOf {x : Char} (h : noneOf "'\";" x = true) : ¬ IsQuote x := by
  simp only [noneOf, IsQuote] at *
  rintro (rfl | rfl) <;> exact absurd h (by decide)

/-- Blanks are no quotes. -/
theorem not_isQuote_of_isBlank {x : Char} (h : isBlank x = true) : ¬ IsQuote x := by
  rintro (rfl | rfl) <;> exact absurd h (by decide)

/-- A text without its blanks. -/
def ink (cs : List Char) : List Char := cs.filter fun x => !isBlank x

theorem ink_append (xs ys : List Char) : ink (xs ++ ys) = ink xs ++ ink ys := List.filter_append ..

/-- Blanks leave nothing. -/
theorem ink_of_blank {xs : List Char} (h : ∀ x ∈ xs, isBlank x = true) : ink xs = [] :=
  List.filter_eq_nil_iff.2 fun x hx => by simp [h x hx]

/-- The last character of an end that is not blank is the last one of the whole. -/
theorem getLast?_ink_append {xs ys : List Char} {x : Char} (h : (ink ys).getLast? = some x) :
    (ink (xs ++ ys)).getLast? = some x := by
  rw [ink_append, List.getLast?_append, h]
  rfl

/-- Blanks behind an end do not count. -/
theorem getLast?_ink_append_blanks {xs blanks : List Char} {x : Char}
    (hblanks : ∀ x ∈ blanks, isBlank x = true) (h : (ink xs).getLast? = some x) :
    (ink (xs ++ blanks)).getLast? = some x := by
  rwa [ink_append, ink_of_blank hblanks, List.append_nil]

/-- The forms of statement that import something. -/
inductive Form where
  | clause
  | effect
  | call
  deriving Repr, DecidableEq

namespace Form

/-- What a form looks for in front of a quoted specifier. -/
def opening : Form → List Pattern
  | clause =>
    [.at .wordEdge, .either (.text "import") (.text "export"), .one isBlank,
     .lazy (noneOf "'\";"), .at .wordEdge, .text "from", .greedy isBlank]
  | effect => [.at .wordEdge, .text "import", .greedy isBlank]
  | call =>
    [.at .wordEdge, .either (.text "require") (.text "import"), .greedy isBlank, .text "(",
     .greedy isBlank]

/-- What a form looks for behind a quoted specifier. -/
def closing : Form → List Pattern
  | clause | effect => []
  | call => [.greedy isBlank, .text ")"]

/-- The pattern of a form. -/
def pattern (f : Form) : Pattern := sequence (f.opening ++ ([quote, specifier, quote] ++ f.closing))

/-- The forms that are looked for are these three. -/
theorem forms_eq : forms = [clause, effect, call].map pattern := rfl

/-! ### Openings and closings, as texts -/

/-- The words that an opening begins with. -/
def keywords : List (List Char) := ["import".toList, "export".toList, "require".toList]

/-- The last character in front of a quoted specifier that is not blank. -/
def lastInk : Form → Char
  | clause => 'm'
  | effect => 't'
  | call => '('

/-- The forms are told apart by where their openings end. -/
theorem lastInk_inj {f g : Form} (h : f.lastInk = g.lastInk) : f = g := by
  cases f <;> cases g <;> first | rfl | exact absurd h (by decide)

/-- What an opening of a form looks like: a keyword first, no quote, and the end that tells
it from the openings of other forms. -/
structure Opens (f : Form) (run : List Char) : Prop where
  keyword : ∃ w ∈ keywords, w <+: run
  noQuote : ∀ x ∈ run, ¬ IsQuote x
  last : (ink run).getLast? = some f.lastInk

/-- The texts that end a statement of the form. -/
def Closes : Form → List Char → Prop
  | clause, run | effect, run => run = []
  | call, run => ∃ blanks, (∀ x ∈ blanks, isBlank x = true) ∧ run = blanks ++ [')']

/-- What a statement ends with, without blanks. -/
def ending : Form → List Char
  | clause | effect => []
  | call => [')']

/-- A statement ends as its form asks for. -/
theorem closes_ending (f : Form) : f.Closes f.ending := by
  cases f with
  | clause | effect => rfl
  | call => exact ⟨[], by simp, rfl⟩

/-- Nothing behind the last quote of a line stops a specifier but the end of the line, and
no keyword or comment begins there. -/
theorem behind_ending (f : Form) :
    ∀ x ∈ f.ending ++ [';'], ¬ IsStop x ∧ (x ≠ 'i' ∧ x ≠ 'e' ∧ x ≠ 'r') ∧ x ≠ '/' := by
  cases f <;> exact List.all_iff_forall_prop.1 (by decide)

variable {f : Form} {c d : Cursor} {caps caps' : Captures} {run : List Char}

/-! ### What a form reads -/

/-- No keyword holds a quote. -/
theorem not_isQuote_of_mem_keywords {w : List Char} (hw : w ∈ keywords) :
    ∀ x ∈ w, ¬ IsQuote x := by
  simp only [keywords, List.mem_cons, List.not_mem_nil, or_false] at hw
  rcases hw with rfl | rfl | rfl <;> simp [IsQuote]

/-- What stands between a keyword and the end of an opening. -/
theorem Opens.of_append {w inner last blanks : List Char} (hw : w ∈ keywords)
    (hinner : ∀ x ∈ inner, ¬ IsQuote x) (hquotes : ∀ x ∈ last, ¬ IsQuote x)
    (hlast : (ink last).getLast? = some f.lastInk) (hblanks : ∀ x ∈ blanks, isBlank x = true) :
    f.Opens (w ++ (inner ++ (last ++ blanks))) := by
  refine ⟨⟨w, hw, List.prefix_append ..⟩, ?_, ?_⟩
  · simp only [List.forall_mem_append]
    exact ⟨not_isQuote_of_mem_keywords hw, hinner, hquotes, fun x hx =>
      not_isQuote_of_isBlank (hblanks x hx)⟩
  · exact getLast?_ink_append (getLast?_ink_append (getLast?_ink_append_blanks hblanks hlast))

/-- **What a form reads in front of a quoted specifier is an opening of it.** -/
theorem exists_of_leads_opening (h : (sequence f.opening).Leads c caps d caps') :
    ∃ run, c.Passes run d ∧ f.Opens run ∧ caps' = caps := by
  cases f with
  | clause =>
    simp only [opening, leads_sequence_cons, leads_sequence_nil, leads_either_text,
      leads_text] at h
    obtain ⟨_, _, ⟨-, rfl, rfl⟩, _, _, ⟨w, hw, hword, rfl⟩, _, _, ⟨⟨b, hb, hblank⟩, rfl⟩, _, _,
      ⟨⟨gap, hgap, hclause⟩, rfl⟩, _, _, ⟨-, rfl, rfl⟩, _, _, ⟨hfrom, rfl⟩, _, _,
      ⟨⟨blanks, hblanks, hbehind⟩, rfl⟩, rfl, rfl⟩ := h
    have hw : w ∈ keywords := by rcases hw with rfl | rfl <;> simp [keywords]
    have hinner : ∀ x ∈ [b] ++ gap, ¬ IsQuote x := List.forall_mem_append.2
      ⟨by simpa using not_isQuote_of_isBlank hb, fun x hx => not_isQuote_of_noneOf (hgap x hx)⟩
    exact ⟨_, hword.append ((hblank.append hclause).append (hfrom.append hbehind)),
      .of_append hw hinner (by simp [IsQuote]) (by decide) hblanks, rfl⟩
  | effect =>
    simp only [opening, leads_sequence_cons, leads_sequence_nil, leads_text] at h
    obtain ⟨_, _, ⟨-, rfl, rfl⟩, _, _, ⟨hword, rfl⟩, _, _, ⟨⟨blanks, hblanks, hbehind⟩, rfl⟩,
      rfl, rfl⟩ := h
    -- the keyword itself is the end of the opening
    refine ⟨_, hword.append hbehind, ⟨⟨_, List.mem_cons_self, List.prefix_append ..⟩, ?_, ?_⟩, rfl⟩
    · simp only [List.forall_mem_append]
      exact ⟨by simp [IsQuote], fun x hx => not_isQuote_of_isBlank (hblanks x hx)⟩
    · exact getLast?_ink_append_blanks hblanks (by decide)
  | call =>
    simp only [opening, leads_sequence_cons, leads_sequence_nil, leads_either_text,
      leads_text] at h
    obtain ⟨_, _, ⟨-, rfl, rfl⟩, _, _, ⟨w, hw, hword, rfl⟩, _, _, ⟨⟨xs, hxs, hinner⟩, rfl⟩, _, _,
      ⟨hopen, rfl⟩, _, _, ⟨⟨ys, hys, hbehind⟩, rfl⟩, rfl, rfl⟩ := h
    have hw : w ∈ keywords := by rcases hw with rfl | rfl <;> simp [keywords]
    exact ⟨_, hword.append (hinner.append (hopen.append hbehind)),
      .of_append hw (fun x hx => not_isQuote_of_isBlank (hxs x hx)) (by simp [IsQuote])
        (by decide) hys, rfl⟩

/-- A quote is one character and captures nothing. -/
theorem leads_quote_iff :
    quote.Leads c caps d caps' ↔ ∃ q, IsQuote q ∧ c.Passes [q] d ∧ caps' = caps := by
  simp only [quote, Leads, among_quotes]
  constructor
  · rintro ⟨⟨q, hq, hpasses⟩, rfl⟩
    exact ⟨q, hq, hpasses, rfl⟩
  · rintro ⟨q, hq, hpasses, rfl⟩
    exact ⟨⟨q, hq, hpasses⟩, rfl⟩

/-- A specifier is a run that is not empty, and is captured from where it begins. -/
theorem leads_specifier_iff :
    specifier.Leads c caps d caps' ↔
      ∃ s, s ≠ [] ∧ (∀ x ∈ s, ¬ IsStop x) ∧ c.Passes s d ∧
        caps' = ("specifier", ⟨c.position, s⟩) :: caps := by
  simp only [specifier, greedyPlus, Leads, Cursor.Runs, noneOf_stops]
  constructor
  · rintro ⟨_, ⟨e, _, ⟨⟨x, hx, hone⟩, rfl⟩, ⟨xs, hxs, hrun⟩, rfl⟩, rfl⟩
    have hpasses : c.Passes (x :: xs) d := hone.append hrun
    exact ⟨x :: xs, List.cons_ne_nil _ _, List.forall_mem_cons.2 ⟨hx, hxs⟩, hpasses,
      by rw [hpasses.spanTo]⟩
  · rintro ⟨s, hs, hstop, hpasses, rfl⟩
    obtain ⟨x, xs, rfl⟩ := List.exists_cons_of_ne_nil hs
    obtain ⟨hx, hxs⟩ := List.forall_mem_cons.1 hstop
    obtain ⟨e, hone, hrun⟩ := hpasses.exists_behind_first
    exact ⟨_, ⟨e, _, ⟨⟨x, hx, hone⟩, rfl⟩, ⟨xs, hxs, hrun⟩, rfl⟩, by rw [hpasses.spanTo]⟩

/-- A closing is one of the texts that close the form, and captures nothing. -/
theorem leads_closing_iff :
    (sequence f.closing).Leads c caps d caps' ↔
      ∃ run, f.Closes run ∧ c.Passes run d ∧ caps' = caps := by
  cases f with
  | clause | effect =>
    simp only [closing, Closes, leads_sequence_nil, exists_eq_left]
    exact and_congr_left fun _ => ⟨fun h => h ▸ .refl c, fun h => h.eq_of_nil⟩
  | call =>
    simp only [closing, Closes, leads_sequence_cons, leads_sequence_nil, leads_text, Leads,
      Cursor.Runs]
    constructor
    · rintro ⟨_, _, ⟨⟨blanks, hblanks, hpasses⟩, rfl⟩, _, _, ⟨hclose, rfl⟩, rfl, rfl⟩
      exact ⟨_, ⟨blanks, hblanks, rfl⟩, hpasses.append hclose, rfl⟩
    · rintro ⟨_, ⟨blanks, hblanks, rfl⟩, hpasses, rfl⟩
      obtain ⟨e, hpasses, hclose⟩ := hpasses.exists_between
      exact ⟨e, _, ⟨⟨blanks, hblanks, hpasses⟩, rfl⟩, d, _, ⟨hclose, rfl⟩, rfl, rfl⟩

/-- What a form reads from one cursor to another. -/
structure Reads (f : Form) (c : Cursor) (run : List Char) (q : Char) (s : List Char) (q' : Char)
    (ending : List Char) (d : Cursor) : Prop where
  passes : c.Passes (run ++ q :: (s ++ q' :: ending)) d
  opens : f.Opens run
  left : IsQuote q
  nonempty : s ≠ []
  specifier : ∀ x ∈ s, ¬ IsStop x
  right : IsQuote q'
  closes : f.Closes ending

/-- **Every way of a form reads an opening, a specifier between two quotes and a
closing.** -/
theorem exists_reads (h : f.pattern.Leads c caps d caps') :
    ∃ run q s q' ending, f.Reads c run q s q' ending d ∧
      caps' = ("specifier", ⟨c.position + run.length + 1, s⟩) :: caps := by
  simp only [pattern, leads_sequence_append, leads_sequence_cons, leads_sequence_nil,
    leads_quote_iff, leads_specifier_iff, leads_closing_iff] at h
  obtain ⟨e, _, hopening, e₄, _, ⟨e₁, _, ⟨q, hq, hleft, rfl⟩, e₂, _, ⟨s, hs, hstop, hspec, rfl⟩,
    e₃, _, ⟨q', hq', hright, rfl⟩, rfl, rfl⟩, ending, hcloses, hending, rfl⟩ := h
  obtain ⟨run, hrun, hopens, rfl⟩ := exists_of_leads_opening hopening
  refine ⟨run, q, s, q', ending, ⟨?_, hopens, hq, hs, hstop, hq', hcloses⟩, ?_⟩
  · exact hrun.append (hleft.append (hspec.append (hright.append hending)))
  · rw [hleft.position, hrun.position, List.length_singleton]

/-- A quoted specifier behind an opening, with a closing behind it. -/
theorem leads_of_opening {q q' : Char} {s ending : List Char} {e : Cursor}
    (hopening : (sequence f.opening).Leads c [] e []) (hq : IsQuote q) (hs : s ≠ [])
    (hstop : ∀ x ∈ s, ¬ IsStop x) (hq' : IsQuote q') (hcloses : f.Closes ending)
    (hpasses : e.Passes (q :: (s ++ q' :: ending)) d) :
    f.pattern.Leads c [] d [("specifier", ⟨e.position + 1, s⟩)] := by
  obtain ⟨e₁, hleft, hpasses⟩ := hpasses.exists_behind_first
  obtain ⟨e₂, hspec, hpasses⟩ := hpasses.exists_between
  obtain ⟨e₃, hright, hending⟩ := hpasses.exists_behind_first
  simp only [pattern, leads_sequence_append, leads_sequence_cons, leads_sequence_nil,
    leads_quote_iff, leads_specifier_iff, leads_closing_iff]
  refine ⟨e, _, hopening, e₃, _, ⟨e₁, _, ⟨q, hq, hleft, rfl⟩, e₂, _, ⟨s, hs, hstop, hspec, rfl⟩,
    e₃, _, ⟨q', hq', hright, rfl⟩, rfl, rfl⟩, ending, hcloses, hending, ?_⟩
  rw [hleft.position, List.length_singleton]

/-! ### Where a form does not match -/

/-- No form matches where no keyword stands. -/
theorem matchAt?_eq_none_of_first
    (h : ∀ x, c.rest.head? = some x → x ≠ 'i' ∧ x ≠ 'e' ∧ x ≠ 'r') :
    f.pattern.matchAt? c = none := by
  refine matchAt?_eq_none_iff.2 fun d caps hleads => ?_
  obtain ⟨run, q, s, q', ending, hreads, -⟩ := exists_reads hleads
  obtain ⟨w, hw, t, rfl⟩ := hreads.opens.keyword
  have hrest := hreads.passes.rest
  simp only [keywords, List.mem_cons, List.not_mem_nil, or_false] at hw
  rcases hw with rfl | rfl | rfl
  · exact (h 'i' (by rw [hrest]; rfl)).1 rfl
  · exact (h 'e' (by rw [hrest]; rfl)).2.1 rfl
  · exact (h 'r' (by rw [hrest]; rfl)).2.2 rfl

/-- What is read stands in front of the rest. -/
theorem Reads.rest {s ending : List Char} {q q' : Char} (h : f.Reads c run q s q' ending d) :
    c.rest = run ++ q :: (s ++ q' :: (ending ++ d.rest)) := by
  simpa using h.passes.rest

/-- What a form reads reaches from the cursor to the next quote and from there to the
stop after it. -/
theorem Reads.eq_of_rest {run run' s s' ending rest' : List Char} {q r q' r' : Char}
    (h : f.Reads c run q s q' ending d) (hrest : c.rest = run' ++ r :: (s' ++ r' :: rest'))
    (hquotes : ∀ x ∈ run', ¬ IsQuote x) (hr : IsQuote r) (hstop : ∀ x ∈ s', ¬ IsStop x)
    (hr' : IsStop r') :
    run = run' ∧ q = r ∧ s = s' ∧ q' = r' ∧ ending ++ d.rest = rest' := by
  obtain ⟨hrun, hq, hall⟩ :=
    append_cons_inj_of_first h.opens.noQuote hquotes h.left hr (h.rest.symm.trans hrest)
  obtain ⟨hs, hq', hending⟩ :=
    append_cons_inj_of_first h.specifier hstop (.inl h.right) hr' hall
  exact ⟨hrun, hq, hs, hq', hending⟩

/-- No form matches where one quote is left in the line. -/
theorem matchAt?_eq_none_of_last_quote {run ending rest : List Char} {q : Char}
    (hrest : c.rest = run ++ q :: (ending ++ rest)) (hquotes : ∀ x ∈ run, ¬ IsQuote x)
    (hq : IsQuote q) (hstop : ∀ x ∈ ending, ¬ IsStop x)
    (hline : ∀ x, rest.head? = some x → x = '\n') : f.pattern.matchAt? c = none := by
  refine matchAt?_eq_none_iff.2 fun d caps hleads => ?_
  obtain ⟨run', q', s, r, ending', hreads, -⟩ := exists_reads hleads
  obtain ⟨-, -, hall⟩ := append_cons_inj_of_first hreads.opens.noQuote hquotes hreads.left hq
    (hreads.rest.symm.trans hrest)
  cases rest with
  | nil =>
    have hending : s ++ r :: (ending' ++ d.rest) = ending := by simpa using hall
    exact hstop r (hending ▸ by simp) (.inl hreads.right)
  | cons x rest =>
    obtain rfl : x = '\n' := hline x rfl
    obtain ⟨-, rfl, -⟩ :=
      append_cons_inj_of_first hreads.specifier hstop (.inl hreads.right) (.inr rfl) hall
    exact absurd hreads.right (by simp [IsQuote])

/-- A form matches in front of a quote only where an opening of it ends there. -/
theorem matchAt?_eq_none_of_lastInk {rest : List Char} {q : Char}
    (hrest : c.rest = run ++ q :: rest) (hquotes : ∀ x ∈ run, ¬ IsQuote x) (hq : IsQuote q)
    (hink : (ink run).getLast? ≠ some f.lastInk) : f.pattern.matchAt? c = none := by
  refine matchAt?_eq_none_iff.2 fun d caps hleads => ?_
  obtain ⟨run', q', s, r, ending, hreads, -⟩ := exists_reads hleads
  obtain ⟨rfl, -⟩ := append_cons_inj_of_first hreads.opens.noQuote hquotes hreads.left hq
    (hreads.rest.symm.trans hrest)
  exact hink hreads.opens.last

/-- Between two quotes without anything in between no form finds a specifier. -/
theorem matchAt?_eq_none_of_empty {rest : List Char} {q q' : Char}
    (hrest : c.rest = run ++ q :: q' :: rest)
    (hrun : ∀ x ∈ run, ¬ IsQuote x) (hq : IsQuote q) (hq' : IsQuote q') :
    f.pattern.matchAt? c = none := by
  refine matchAt?_eq_none_iff.2 fun d caps hleads => ?_
  obtain ⟨run', r, s, r', ending, hreads, -⟩ := exists_reads hleads
  have hempty : c.rest = run ++ q :: ([] ++ q' :: rest) := hrest
  obtain ⟨-, -, rfl, -⟩ := hreads.eq_of_rest hempty hrun hq (by simp) (.inl hq')
  exact hreads.nonempty rfl

/-- Nothing matches at the end of a text. -/
theorem matchesAt_nil (h : c.rest = []) : f.pattern.matchesAt c = [] := by
  have hc : c = ⟨c.before, [], c.position⟩ := by rw [← h]
  have hnone : f.pattern.matchAt? ⟨c.before, [], c.position⟩ = none :=
    matchAt?_eq_none_of_first fun x hx => by cases hx
  rw [matchesAt, h, matchesFrom, hnone]
  rfl

/-- A stretch without a first letter of a keyword holds no match. -/
theorem matchesAt_of_first (h : c.Passes run d)
    (hrun : ∀ x ∈ run, x ≠ 'i' ∧ x ≠ 'e' ∧ x ≠ 'r') :
    f.pattern.matchesAt c = f.pattern.matchesAt d := by
  refine matchesAt_of_none h fun xs ys e hsplit hys hpasses => ?_
  obtain ⟨y, ys, rfl⟩ := List.exists_cons_of_ne_nil hys
  refine matchAt?_eq_none_of_first fun x hx => ?_
  obtain rfl : y = x := by simpa [((hsplit ▸ h).behind hpasses).rest] using hx
  exact hrun y (by simp [hsplit])

/-- A stretch up to the last quote of a line holds no match, as long as it has no other
quote. -/
theorem matchesAt_of_last_quote {ending rest : List Char} {q : Char} (h : c.Passes (run ++ [q]) d)
    (hquotes : ∀ x ∈ run, ¬ IsQuote x) (hq : IsQuote q) (hrest : d.rest = ending ++ rest)
    (hstop : ∀ x ∈ ending, ¬ IsStop x) (hline : ∀ x, rest.head? = some x → x = '\n') :
    f.pattern.matchesAt c = f.pattern.matchesAt d := by
  refine matchesAt_of_none h fun xs ys e hsplit hys hpasses => ?_
  obtain ⟨ys, y, rfl⟩ := (List.eq_nil_or_concat ys).resolve_left hys
  rw [List.concat_eq_append, ← List.append_assoc] at hsplit
  obtain ⟨rfl, hlast⟩ := List.append_inj' hsplit rfl
  obtain rfl : q = y := by simpa using hlast
  rw [List.append_assoc] at h
  have hrest : e.rest = ys ++ q :: (ending ++ rest) := by
    rw [(h.behind hpasses).rest, hrest, List.append_assoc, List.singleton_append]
  exact matchAt?_eq_none_of_last_quote hrest (fun x hx => hquotes x (by simp [hx])) hq hstop hline

/-- In front of a quote that no opening of the form ends at, it finds nothing. -/
theorem matchesAt_of_lastInk {rest : List Char} {q : Char} (h : c.Passes run d)
    (hrest : d.rest = q :: rest) (hquotes : ∀ x ∈ run, ¬ IsQuote x) (hq : IsQuote q)
    (hink : (ink run).getLast? ≠ some f.lastInk) :
    f.pattern.matchesAt c = f.pattern.matchesAt d := by
  refine matchesAt_of_none h fun xs ys e hsplit _ hpasses => ?_
  subst hsplit
  have hrest' : e.rest = ys ++ q :: rest := by rw [(h.behind hpasses).rest, hrest]
  exact matchAt?_eq_none_of_lastInk hrest' (fun x hx => hquotes x (List.mem_append_right xs hx)) hq
    fun hlast => hink (getLast?_ink_append hlast)

/-- In front of two quotes with nothing in between, no form finds anything. -/
theorem matchesAt_of_empty {rest : List Char} {q q' : Char} (h : c.Passes run d)
    (hrest : d.rest = q :: q' :: rest) (hquotes : ∀ x ∈ run, ¬ IsQuote x) (hq : IsQuote q)
    (hq' : IsQuote q') :
    f.pattern.matchesAt c = f.pattern.matchesAt d := by
  refine matchesAt_of_none h fun xs ys e hsplit _ hpasses => ?_
  subst hsplit
  have hrest' : e.rest = ys ++ q :: q' :: rest := by rw [(h.behind hpasses).rest, hrest]
  exact matchAt?_eq_none_of_empty hrest' (fun x hx => hquotes x (List.mem_append_right xs hx)) hq
    hq'

/-! ### Where a form matches -/

/-- A word that nothing of a word stands in front of begins at an edge. -/
theorem wordEdge_of_before {rest : List Char} (hbefore : c.before.any isWord = false)
    (hrest : c.rest = run ++ rest) (hfirst : run.head?.any isWord = true) :
    Place.wordEdge.holds c = true := by
  have hhead : c.rest.head?.any isWord = true := by
    cases run with
    | nil => cases hfirst
    | cons x run => rw [hrest]; exact hfirst
  rw [Place.holds, hbefore, hhead]
  rfl

/-- A clause opens at the edge of a word, and `from` stands at one too: behind a character that
belongs to no word. -/
theorem leads_clause_opening {w gap blanks : List Char} {b : Char}
    (hbefore : c.before.any isWord = false) (hw : w = "import".toList ∨ w = "export".toList)
    (hb : isBlank b = true) (hgap : ∀ x ∈ gap, noneOf "'\";" x = true)
    (hlast : isWord ((b :: gap).getLast (List.cons_ne_nil b gap)) = false)
    (hblanks : ∀ x ∈ blanks, isBlank x = true)
    (h : c.Passes (w ++ ([b] ++ (gap ++ ("from".toList ++ blanks)))) d) :
    (sequence clause.opening).Leads c caps d caps := by
  have hedge : Place.wordEdge.holds c = true := by
    refine wordEdge_of_before hbefore (h.rest.trans (List.append_assoc ..)) ?_
    rcases hw with rfl | rfl <;> decide
  obtain ⟨c₁, hword, h⟩ := h.exists_between
  obtain ⟨c₂, hblank, h⟩ := h.exists_between
  obtain ⟨c₃, hclause, h⟩ := h.exists_between
  have hedge' : Place.wordEdge.holds c₃ = true := by
    refine wordEdge_of_before ?_ (h.rest.trans (List.append_assoc ..)) (by decide)
    rw [(hblank.append hclause).before, List.singleton_append,
      List.getLast?_eq_some_getLast (List.cons_ne_nil b gap)]
    exact hlast
  obtain ⟨c₄, hfrom, h⟩ := h.exists_between
  simp only [opening, leads_sequence_cons, leads_sequence_nil, leads_either_text, leads_text]
  exact ⟨c, _, ⟨hedge, rfl, rfl⟩, c₁, _, ⟨w, hw, hword, rfl⟩, c₂, _, ⟨⟨b, hb, hblank⟩, rfl⟩,
    c₃, _, ⟨⟨gap, hgap, hclause⟩, rfl⟩, c₃, _, ⟨hedge', rfl, rfl⟩, c₄, _, ⟨hfrom, rfl⟩,
    d, _, ⟨⟨blanks, hblanks, h⟩, rfl⟩, rfl, rfl⟩

/-- An import for its effect opens with its keyword and any blanks. -/
theorem leads_effect_opening {blanks : List Char} (hbefore : c.before.any isWord = false)
    (hblanks : ∀ x ∈ blanks, isBlank x = true) (h : c.Passes ("import".toList ++ blanks) d) :
    (sequence effect.opening).Leads c caps d caps := by
  have hedge := wordEdge_of_before hbefore (h.rest.trans (List.append_assoc ..)) (by decide)
  obtain ⟨c₁, hword, h⟩ := h.exists_between
  simp only [opening, leads_sequence_cons, leads_sequence_nil, leads_text]
  exact ⟨c, _, ⟨hedge, rfl, rfl⟩, c₁, _, ⟨hword, rfl⟩, d, _, ⟨⟨blanks, hblanks, h⟩, rfl⟩, rfl, rfl⟩

/-- A call opens with its name and a parenthesis, with any blanks around it. -/
theorem leads_call_opening {w xs ys : List Char} (hbefore : c.before.any isWord = false)
    (hw : w = "require".toList ∨ w = "import".toList) (hxs : ∀ x ∈ xs, isBlank x = true)
    (hys : ∀ x ∈ ys, isBlank x = true) (h : c.Passes (w ++ (xs ++ ("(".toList ++ ys))) d) :
    (sequence call.opening).Leads c caps d caps := by
  have hedge : Place.wordEdge.holds c = true := by
    refine wordEdge_of_before hbefore (h.rest.trans (List.append_assoc ..)) ?_
    rcases hw with rfl | rfl <;> decide
  obtain ⟨c₁, hword, h⟩ := h.exists_between
  obtain ⟨c₂, hinner, h⟩ := h.exists_between
  obtain ⟨c₃, hopen, h⟩ := h.exists_between
  simp only [opening, leads_sequence_cons, leads_sequence_nil, leads_either_text, leads_text]
  exact ⟨c, _, ⟨hedge, rfl, rfl⟩, c₁, _, ⟨w, hw, hword, rfl⟩, c₂, _, ⟨⟨xs, hxs, hinner⟩, rfl⟩,
    c₃, _, ⟨hopen, rfl⟩, d, _, ⟨⟨ys, hys, h⟩, rfl⟩, rfl, rfl⟩

/-- A text begins with one closing of a form at most. -/
theorem Closes.unique {xs ys rest rest' : List Char} (hx : f.Closes xs) (hy : f.Closes ys)
    (h : xs ++ rest = ys ++ rest') : xs = ys := by
  cases f with
  | clause | effect => rw [hx, hy]
  | call =>
    obtain ⟨blanks, hblanks, rfl⟩ := hx
    obtain ⟨blanks', hblanks', rfl⟩ := hy
    have hclose : ¬ isBlank ')' = true := by decide
    have hall : blanks ++ ')' :: rest = blanks' ++ ')' :: rest' := by simpa using h
    obtain ⟨rfl, -⟩ := append_cons_inj_of_first (p := fun x => ¬ isBlank x = true)
      (fun x hx => not_not_intro (hblanks x hx)) (fun x hx => not_not_intro (hblanks' x hx))
      hclose hclose hall
    rfl

/-- What is passed along the way of an opening is an opening. -/
theorem opens_of_leads (h : (sequence f.opening).Leads c caps d caps') (hrun : c.Passes run d) :
    f.Opens run := by
  obtain ⟨run', hrun', hopens, -⟩ := exists_of_leads_opening h
  have hsame : run' = run := List.append_cancel_right (hrun'.rest.symm.trans hrun.rest)
  exact hsame ▸ hopens

/-- **A quoted specifier behind an opening, with a closing behind it, is the match.** -/
theorem matchAt?_of_opening {q q' : Char} {s ending : List Char} {e : Cursor}
    (hopening : (sequence f.opening).Leads c [] e []) (hrun : c.Passes run e) (hq : IsQuote q)
    (hs : s ≠ []) (hstop : ∀ x ∈ s, ¬ IsStop x) (hq' : IsQuote q') (hcloses : f.Closes ending)
    (hpasses : e.Passes (q :: (s ++ q' :: ending)) d) :
    f.pattern.matchAt? c =
      some ⟨⟨c.position, run ++ q :: (s ++ q' :: ending)⟩,
        [("specifier", ⟨e.position + 1, s⟩)]⟩ := by
  have hall := hrun.append hpasses
  have hquotes : ∀ x ∈ run, ¬ IsQuote x := (opens_of_leads hopening hrun).noQuote
  rw [← hall.spanTo]
  refine matchAt?_eq_of_unique (leads_of_opening hopening hq hs hstop hq' hcloses hpasses) ?_
  intro e' caps hleads
  obtain ⟨run', r, s', r', ending', hreads, rfl⟩ := exists_reads hleads
  obtain ⟨rfl, rfl, rfl, rfl, hending⟩ := hreads.eq_of_rest (by simpa using hall.rest)
    hquotes hq hstop (.inl hq')
  obtain rfl := hreads.closes.unique hcloses hending
  exact ⟨hreads.passes.unique hall, by rw [hrun.position]⟩

/-- A match captures the specifier of the next quotes. -/
theorem exists_reads_of_matchAt? {m : Match} (h : f.pattern.matchAt? c = some m) :
    ∃ run q s q' ending d, f.Reads c run q s q' ending d ∧
      m = ⟨⟨c.position, run ++ q :: (s ++ q' :: ending)⟩,
        [("specifier", ⟨c.position + run.length + 1, s⟩)]⟩ := by
  obtain ⟨d, caps, hleads, hm⟩ := exists_of_matchThen h
  obtain ⟨run, q, s, q', ending, hreads, rfl⟩ := exists_reads hleads
  refine ⟨run, q, s, q', ending, d, hreads, ?_⟩
  rw [← Option.some.inj hm, hreads.passes.spanTo]

end Form
end Import
end Strata
