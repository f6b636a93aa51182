/-
# Spaces that a statement may leave out

Specification, section 4.2: the statements with `from`.

A clause with braces or a star needs no space around it, and none stands in front of a
quote unless it is put there:

| place | with spaces | without |
| --- | --- | --- |
| behind the keyword | `import {a} from 's'` | `import{a} from 's'` |
| in front of `from` | `export * from 's'` | `export *from 's'` |
| behind `from` | `import * as n from 's'` | `import * as n from's'` |

A statement is found whatever spaces are left out in front of `from` and behind it. Behind
the keyword the form asks for a blank, so a statement without one there is not found
(`specifiers_spaced`). In such a text no keyword stands in front of a blank (`Quiet`), and
that is all that the form could begin with (`exists_keyword_of_leads_clause`).
-/

import Strata.Proofs.Import.Strewn

namespace Strata

namespace Import

open Text Pattern

/-! ### Texts that open no clause -/

namespace Form

variable {c d : Cursor} {caps caps' : Captures}

/-- A clause opens with a keyword at the edge of a word and a blank behind it. -/
theorem exists_keyword_of_leads_clause (h : clause.pattern.Leads c caps d caps') :
    Place.wordEdge.holds c = true ∧
      ∃ w b rest, (w = "import".toList ∨ w = "export".toList) ∧ isBlank b = true ∧
        c.rest = w ++ b :: rest := by
  simp only [pattern, opening, leads_sequence_append, leads_sequence_cons, leads_either_text] at h
  obtain ⟨_, _, ⟨_, _, ⟨hedge, rfl, rfl⟩, _, _, ⟨w, hw, hword, rfl⟩, e, _,
    ⟨⟨b, hb, hblank⟩, rfl⟩, -⟩, -⟩ := h
  exact ⟨hedge, w, b, e.rest, hw, hb, (hword.append hblank).rest.trans (List.append_assoc ..)⟩

end Form

/-- Texts made of words, each with one character behind it that belongs to no word, and no
keyword in front of a blank. -/
inductive Quiet : List Char → Prop where
  | nil : Quiet []
  | word {w cs : List Char} {x : Char} : (∀ y ∈ w, isWord y = true) → isWord x = false →
      (isBlank x = true → w ≠ "import".toList ∧ w ≠ "export".toList) → Quiet cs →
      Quiet (w ++ x :: cs)

namespace Quiet

/-- A character of no word may stand in front of a quiet text. -/
theorem gap {x : Char} {cs : List Char} (hx : isWord x = false) (h : Quiet cs) :
    Quiet (x :: cs) :=
  .word (w := []) (by simp) hx (fun _ => by simp) h

/-- Spaces may stand in front of a quiet text. -/
theorem spaces {cs : List Char} (h : Quiet cs) (n : Nat) : Quiet (List.replicate n ' ' ++ cs) := by
  induction n with
  | zero => exact h
  | succ n ih => exact .gap rfl ih

/-- **No clause opens in a quiet text.** -/
theorem matchesAt {cs : List Char} (h : Quiet cs) {c d : Cursor} (hpasses : c.Passes cs d)
    (hbefore : c.before.any isWord = false) :
    Form.clause.pattern.matchesAt c = Form.clause.pattern.matchesAt d := by
  induction h generalizing c with
  | nil => rw [hpasses.eq_of_nil]
  | @word w cs x hw hx hkeyword _ ih =>
    obtain ⟨e, hword, hbehind⟩ := hpasses.exists_between
    obtain ⟨e', hgap, hrest⟩ := hbehind.exists_behind_first
    have hinside : Form.clause.pattern.matchesAt c = Form.clause.pattern.matchesAt e := by
      refine matchesAt_of_none hword fun xs ys g hsplit hys hg => matchAt?_eq_none_iff.2
        fun d' caps hleads => ?_
      obtain ⟨hedge, w', b, rest, hw', hb, hcut⟩ := Form.exists_keyword_of_leads_clause hleads
      subst hsplit
      obtain ⟨y, ys, rfl⟩ := List.exists_cons_of_ne_nil hys
      have hgrest := (hword.behind hg).rest
      rcases List.eq_nil_or_concat xs with rfl | ⟨xs, z, rfl⟩
      · -- the whole word is read, up to the blank
        have hletters : ∀ u ∈ w', ¬ isWord u = false := by
          rcases hw' with rfl | rfl <;> exact List.all_iff_forall_prop.1 (by decide)
        have hall : (y :: ys) ++ x :: e'.rest = w' ++ b :: rest := by
          rw [← hcut, hgrest, hgap.rest]
          rfl
        obtain ⟨rfl, rfl, -⟩ := append_cons_inj_of_first (p := fun u => isWord u = false)
          (fun u hu => by simp [hw u hu]) hletters hx (isWord_of_isBlank hb) hall
        rcases hw' with hw' | hw'
        · exact (hkeyword hb).1 hw'
        · exact (hkeyword hb).2 hw'
      · -- in the middle of a word there is no edge
        rw [List.concat_eq_append] at hg
        rw [Place.holds, hg.before, hgrest] at hedge
        simp [hw z (by simp), hw y (by simp)] at hedge
    have hstep : Form.clause.pattern.matchesAt e = Form.clause.pattern.matchesAt e' :=
      Form.matchesAt_of_first hgap (by
        simp only [List.forall_mem_singleton]
        refine ⟨?_, ?_, ?_⟩ <;> rintro rfl <;> exact absurd hx (by decide))
    rw [hinside, hstep]
    exact ih hrest (by rw [hgap.before]; exact hx)

end Quiet

/-! ### Statements with any spaces -/

/-- A character that ends no clause and begins no comment. -/
def Bare (x : Char) : Prop := noneOf "'\";" x = true ∧ x ≠ '/'

instance : DecidablePred Bare := fun _ => inferInstanceAs (Decidable (_ ∧ _))

/-- A character of a word ends no clause. -/
theorem bare_of_isWord {x : Char} (h : isWord x = true) : Bare x := by
  have hne : x ≠ '\'' ∧ x ≠ '"' ∧ x ≠ ';' ∧ x ≠ '/' := by
    refine ⟨?_, ?_, ?_, ?_⟩ <;> rintro rfl <;> exact absurd h (by decide)
  simpa [Bare, noneOf, and_assoc] using hne

/-- A name that a clause binds: a word, and no keyword of a clause. -/
structure Binding where
  chars : List Char
  word : ∀ x ∈ chars, isWord x = true
  free : chars ≠ "import".toList ∧ chars ≠ "export".toList

/-- A name that is bound holds nothing that ends a clause. -/
theorem Binding.bare (n : Binding) : ∀ x ∈ n.chars, Bare x := fun x hx =>
  bare_of_isWord (n.word x hx)

/-- What stands between a keyword and `from`. -/
inductive Clause where
  /-- `{a}` -/
  | one (a : Binding)
  /-- `{a, b}` -/
  | two (a b : Binding)
  /-- `* as n` -/
  | named (n : Binding)
  /-- `*`, for an export -/
  | all

namespace Clause

/-- A clause as it is written, with the blank in front of `from` that a name needs. -/
def chars : Clause → List Char
  | one a => '{' :: (a.chars ++ ['}'])
  | two a b => '{' :: (a.chars ++ ',' :: ' ' :: (b.chars ++ ['}']))
  | named n => '*' :: ' ' :: ("as".toList ++ ' ' :: (n.chars ++ [' ']))
  | all => ['*']

/-- No clause holds what ends one, or a slash. -/
theorem bare (k : Clause) : ∀ x ∈ k.chars, Bare x := by
  have has : ∀ x ∈ "as".toList, Bare x := List.all_iff_forall_prop.1 (by decide)
  cases k <;>
    simp only [chars, List.forall_mem_cons, List.forall_mem_append, List.not_mem_nil,
      false_implies, implies_true, and_true]
  case one a => exact ⟨by decide, a.bare, by decide⟩
  case two a b => exact ⟨by decide, a.bare, by decide, by decide, b.bare, by decide⟩
  case named n => exact ⟨by decide, by decide, has, by decide, n.bare, by decide⟩
  case all => decide

/-- A clause does not end in a word. -/
theorem exists_last (k : Clause) : ∃ front x, k.chars = front ++ [x] ∧ isWord x = false := by
  cases k with
  | one a => exact ⟨'{' :: a.chars, '}', rfl, rfl⟩
  | two a b => exact ⟨'{' :: (a.chars ++ ',' :: ' ' :: b.chars), '}', by simp [chars], rfl⟩
  | named n => exact ⟨'*' :: ' ' :: ("as".toList ++ ' ' :: n.chars), ' ', by simp [chars], rfl⟩
  | all => exact ⟨[], '*', rfl, rfl⟩

/-- Behind a keyword, a clause without a blank in front is quiet. -/
theorem quiet (k : Clause) {w cs : List Char} (hw : ∀ x ∈ w, isWord x = true) (h : Quiet cs) :
    Quiet (w ++ (k.chars ++ cs)) := by
  cases k with
  | one a =>
    have hname : Quiet (a.chars ++ '}' :: cs) := .word a.word rfl (fun _ => a.free) h
    have hsplit : w ++ ((one a).chars ++ cs) = w ++ '{' :: (a.chars ++ '}' :: cs) := by
      simp [chars]
    rw [hsplit]
    exact .word hw rfl (fun hblank => absurd hblank (by decide)) hname
  | two a b =>
    have hnames : Quiet (a.chars ++ ',' :: ' ' :: (b.chars ++ '}' :: cs)) :=
      .word a.word rfl (fun _ => a.free) (.gap rfl (.word b.word rfl (fun _ => b.free) h))
    have hsplit : w ++ ((two a b).chars ++ cs) =
        w ++ '{' :: (a.chars ++ ',' :: ' ' :: (b.chars ++ '}' :: cs)) := by
      simp [chars]
    rw [hsplit]
    exact .word hw rfl (fun hblank => absurd hblank (by decide)) hnames
  | named n =>
    have hname : Quiet ("as".toList ++ ' ' :: (n.chars ++ ' ' :: cs)) :=
      .word (List.all_iff_forall_prop.1 (by decide)) rfl (fun _ => by decide)
        (.word n.word rfl (fun _ => n.free) h)
    have hsplit : w ++ ((named n).chars ++ cs) =
        w ++ '*' :: ' ' :: ("as".toList ++ ' ' :: (n.chars ++ ' ' :: cs)) := by
      simp [chars]
    rw [hsplit]
    exact .word hw rfl (fun hblank => absurd hblank (by decide)) (.gap rfl hname)
  | all => exact .word hw rfl (fun hblank => absurd hblank (by decide)) h

end Clause

/-- An import or export with a clause: how many spaces stand where the language asks for none,
with which quotes it is written, whether a semicolon ends it, and what it names. -/
structure SpacedImport where
  isExport : Bool
  clause : Clause
  behindKeyword : Nat
  behindClause : Nat
  behindFrom : Nat
  doubleQuotes : Bool
  semicolon : Bool
  specifier : String
  quotable : Quotable specifier

namespace SpacedImport

/-- A run of spaces. -/
def spaces (n : Nat) : List Char := List.replicate n ' '

/-- Spaces are blanks. -/
theorem isBlank_of_mem_spaces {n : Nat} {x : Char} (hx : x ∈ spaces n) : isBlank x = true := by
  rw [List.eq_of_mem_replicate hx]
  rfl

variable (s : SpacedImport)

/-- The keyword that a statement begins with. -/
def keyword : List Char := if s.isExport then "export".toList else "import".toList

/-- What stands in front of the quoted specifier. -/
def front : List Char :=
  s.keyword ++ (spaces s.behindKeyword ++ (s.clause.chars ++ (spaces s.behindClause ++
    ("from".toList ++ spaces s.behindFrom))))

/-- The quote on both sides of the specifier. -/
def quote : Char := quoteMark s.doubleQuotes

/-- What ends the statement. -/
def ending : List Char := if s.semicolon then [';'] else []

/-- The statement as it is written. -/
def chars : List Char := s.front ++ s.quote :: (s.specifier.toList ++ s.quote :: s.ending)

/-- A statement begins with one of two keywords. -/
theorem keyword_eq : s.keyword = "import".toList ∨ s.keyword = "export".toList := by
  cases h : s.isExport
  · exact .inl (by rw [keyword, h]; rfl)
  · exact .inr (by rw [keyword, h]; rfl)

/-- Both keywords are words. -/
theorem isWord_of_mem_keyword : ∀ x ∈ s.keyword, isWord x = true := by
  rcases s.keyword_eq with h | h <;> rw [h] <;> exact List.all_iff_forall_prop.1 (by decide)

theorem isQuote_quote : IsQuote s.quote := isQuote_quoteMark s.doubleQuotes

/-- What ends a statement stops no specifier, and no keyword or comment begins there. -/
theorem behind_quote :
    ∀ x ∈ s.ending, ¬ IsStop x ∧ (x ≠ 'i' ∧ x ≠ 'e' ∧ x ≠ 'r') ∧ x ≠ '/' := by
  cases h : s.semicolon <;> simp [ending, h, IsStop, IsQuote]

/-- No quote, semicolon or slash stands in front of the opening quote. -/
theorem bare_of_mem_front : ∀ x ∈ s.front, Bare x := by
  have hspaces (n : Nat) : ∀ x ∈ spaces n, Bare x := fun x hx => by
    rw [List.eq_of_mem_replicate hx]
    decide
  have hfrom : ∀ x ∈ "from".toList, Bare x := List.all_iff_forall_prop.1 (by decide)
  simp only [front, List.forall_mem_append]
  exact ⟨fun x hx => bare_of_isWord (s.isWord_of_mem_keyword x hx), hspaces _, s.clause.bare,
    hspaces _, hfrom, hspaces _⟩

/-- The opening quote is the first one of the statement. -/
theorem not_isQuote_of_mem_front {x : Char} (hx : x ∈ s.front) : ¬ IsQuote x :=
  not_isQuote_of_noneOf (s.bare_of_mem_front x hx).1

/-- The last character in front of the opening quote, blanks aside, ends `from`. -/
theorem getLast?_ink_front : (ink s.front).getLast? = some 'm' := by
  have hend : (ink ("from".toList ++ spaces s.behindFrom)).getLast? = some 'm' := by
    rw [ink_append, ink_of_blank fun x => isBlank_of_mem_spaces, List.append_nil]
    decide
  exact getLast?_ink_append (getLast?_ink_append (getLast?_ink_append (getLast?_ink_append hend)))

/-- Without a space behind the keyword, what stands in front of the specifier is quiet. -/
theorem quiet_front (h : s.behindKeyword = 0) : Quiet (s.front ++ [s.quote]) := by
  have hquote : isWord s.quote = false := by
    rcases s.isQuote_quote with h | h <;> rw [h] <;> decide
  have hfrom : Quiet ("from".toList ++ (spaces s.behindFrom ++ [s.quote])) := by
    have hword : ∀ x ∈ "from".toList, isWord x = true := List.all_iff_forall_prop.1 (by decide)
    cases s.behindFrom with
    | zero => exact .word hword hquote (fun _ => by decide) .nil
    | succ n => exact .word hword rfl (fun _ => by decide) (.spaces (.gap hquote .nil) n)
  have hsplit : s.front ++ [s.quote] = s.keyword ++ (s.clause.chars ++
      (spaces s.behindClause ++ ("from".toList ++ (spaces s.behindFrom ++ [s.quote])))) := by
    simp [front, h, spaces]
  rw [hsplit]
  exact s.clause.quiet s.isWord_of_mem_keyword (.spaces hfrom _)

/-- The character in front of `from` belongs to no word. -/
theorem exists_last :
    ∃ xs x, s.clause.chars ++ spaces s.behindClause = xs ++ [x] ∧ isWord x = false := by
  cases s.behindClause with
  | zero => simpa [spaces] using s.clause.exists_last
  | succ n => exact ⟨s.clause.chars ++ spaces n, ' ', by simp [spaces, List.replicate_succ'], rfl⟩

variable {s} {f : Form} {c d : Cursor}

/-- With a space behind the keyword, it is an opening of its form. -/
theorem leads_opening (hspace : s.behindKeyword ≠ 0) (hbefore : c.before.any isWord = false)
    (h : c.Passes s.front d) : (sequence Form.clause.opening).Leads c [] d [] := by
  obtain ⟨n, hspace⟩ := Nat.exists_eq_succ_of_ne_zero hspace
  have hsplit : s.front = s.keyword ++ ([' '] ++ ((spaces n ++ (s.clause.chars ++
      spaces s.behindClause)) ++ ("from".toList ++ spaces s.behindFrom))) := by
    simp [front, hspace, spaces, List.replicate_succ]
  have hgap : ∀ x ∈ spaces n ++ (s.clause.chars ++ spaces s.behindClause),
      noneOf "'\";" x = true := fun x hx =>
    (s.bare_of_mem_front x (by rw [hsplit]; simp only [List.mem_append] at hx ⊢; tauto)).1
  obtain ⟨xs, x, hclause, hx⟩ := s.exists_last
  have hlast : isWord ((' ' :: (spaces n ++ (s.clause.chars ++ spaces s.behindClause))).getLast
      (List.cons_ne_nil _ _)) = false := by
    simp [hclause, hx]
  exact Form.leads_clause_opening hbefore s.keyword_eq rfl hgap hlast
    (fun x => isBlank_of_mem_spaces) (hsplit ▸ h)

/-- With a space behind the keyword, a statement is a quotation of its own. -/
def quotation (s : SpacedImport) (hspace : s.behindKeyword ≠ 0) : Quotation where
  form := .clause
  lead := []
  opening := s.front
  quote := s.quote
  specifier := s.specifier
  closing := []
  behind := s.ending
  edge := rfl
  plain x hx := ⟨s.not_isQuote_of_mem_front hx, (s.bare_of_mem_front x hx).2⟩
  opens _ _ := leads_opening hspace
  isQuote := s.isQuote_quote
  oneLine := s.quotable.oneLine
  closes := rfl
  ends := s.behind_quote

/-- **Without a space behind the keyword nothing is found.** -/
theorem mentionsAt_tight (hspace : s.behindKeyword = 0) (f : Form) :
    mentionsAt f (.start s.chars) = [] := by
  obtain ⟨d, hpasses, hnil⟩ :=
    Cursor.exists_passes (c := .start s.chars) (List.append_nil s.chars).symm
  have hbehind : ∀ x ∈ s.ending, ¬ IsStop x ∧ x ≠ 'i' ∧ x ≠ 'e' ∧ x ≠ 'r' := fun x hx =>
    ⟨(s.behind_quote x hx).1, (s.behind_quote x hx).2.1⟩
  have hend : ∀ x, d.rest.head? = some x → x = '\n' := by simp [hnil]
  have hnothing : f.pattern.matchesAt (.start s.chars) = f.pattern.matchesAt d := by
    by_cases hf : f = .clause
    · -- no keyword stands in front of a blank
      have hsplit : s.chars =
          (s.front ++ [s.quote]) ++ (s.specifier.toList ++ s.quote :: s.ending) := by
        simp [chars]
      rw [hsplit] at hpasses ⊢
      obtain ⟨e, hfront, hquoted⟩ := hpasses.exists_between
      rw [hf, (s.quiet_front hspace).matchesAt hfront rfl,
        Form.matchesAt_of_specifier hquoted s.isQuote_quote s.quotable.oneLine hbehind hend]
    · have hink : (ink s.front).getLast? ≠ some f.lastInk := by
        rw [s.getLast?_ink_front]
        exact fun hlast => hf (Form.lastInk_inj (g := .clause) (Option.some.inj hlast.symm))
      exact Form.matchesAt_of_foreign hpasses (fun _ => s.not_isQuote_of_mem_front) hink
        s.isQuote_quote s.quotable.oneLine hbehind hend
  rw [mentionsAt, hnothing, Form.matchesAt_nil hnil, List.filterMap_nil]

/-- No comment begins in a statement. -/
theorem isChain_chars (s : SpacedImport) : s.chars.IsChain NoComment :=
  s.quotable.isChain_line s.isQuote_quote (fun x hx => (s.bare_of_mem_front x hx).2) fun x hx =>
    (s.behind_quote x hx).2.2

end SpacedImport

/-- **A statement is found exactly if a space stands behind its keyword, whatever spaces stand
in front of `from` and behind it.** The forms of section 4.2 of the specification ask for no
space there, and neither does the language. -/
theorem specifiers_spaced (s : SpacedImport) :
    specifiers (String.ofList s.chars) = if s.behindKeyword = 0 then [] else [s.specifier] := by
  have hstrip := stripComments_eq_self s.isChain_chars
  split
  · rename_i hspace
    have hnone : ∀ f, mentionsAt f (.start s.chars) = ofForm f [] :=
      SpacedImport.mentionsAt_tight hspace
    rw [specifiers, String.toList_ofList, hstrip, mentions_of_found hnone .nil]
    rfl
  · rename_i hspace
    have hlines : Lines [s.chars] (stripComments s.chars) := by
      rw [hstrip]
      exact .single s.chars
    rw [specifiers_of_strewn (.statement (s.quotation hspace) .nil) hlines]
    have hnamed : (s.quotation hspace).named = s.specifier := s.quotable.trimmed
    have hkept : (!s.specifier.isEmpty) = true := by simpa using s.quotable.nonempty
    simp [hnamed, hkept, List.eraseDups_cons]

/-- A brace right behind the keyword hides an import. -/
theorem specifiers_tight_braces :
    specifiers "import{a} from './x';" = [] ∧ specifiers "import {a} from './x';" = ["./x"] := by
  decide +kernel

end Import
end Strata
