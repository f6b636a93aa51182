/-
# Statements among lines that import nothing

Without its comments a source has quotations on some of its lines. On the others blanks
are left, or a string, or the beginning of a string whose end went with a comment:

| line | what stands behind its last quote |
| --- | --- |
| blanks | the next line, as behind the quote before them |
| `const v = 'u';` | a semicolon and the next line |
| `const v = 'u` | `u` and the next line |

The last one matters: an opening may begin in `u` and reach over the line feed to the
quote of the next quotation. Since a quotation is found whatever quoteless text stands in
front of its line, the forms find the quotations and nothing else (`Finds`), and the source
imports what they name (`specifiers_of_strewn`).
-/

import Strata.Proofs.Import.Comments
import Strata.Proofs.Import.Quotation

namespace Strata
namespace Import

open Text Pattern

/-! ### Lines without statements -/

/-- What a string is written behind. -/
def literalLead : List Char := "const v = '".toList

/-- What is left of lines that import nothing. -/
inductive Silent : List Char → Prop where
  | blank {l : List Char} : (∀ x ∈ l, isBlank x = true) → Silent l
  | closed {u : List Char} : (∀ x ∈ u, ¬ IsStop x) → Silent (literalLead ++ (u ++ "';".toList))
  | cut {u : List Char} : (∀ x ∈ u, ¬ IsStop x) → Silent (literalLead ++ u)

/-- The lines of a source without its comments: quotations, in this order, and silent
lines. -/
inductive Strewn : List Quotation → List (List Char) → Prop where
  | nil : Strewn [] []
  | statement (s : Quotation) {statements : List Quotation} {ls : List (List Char)} :
      Strewn statements ls → Strewn (s :: statements) (s.chars :: ls)
  | silent {l : List Char} {statements : List Quotation} {ls : List (List Char)} :
      Silent l → Strewn statements ls → Strewn statements (l :: ls)

/-- No form finds anything in front of the quote of a string. -/
theorem mentionsAt_literal {f : Form} {c d e : Cursor} {v : List Char} (h : c.Passes v d)
    (hv : ∀ x ∈ v, ¬ IsQuote x) (hlead : d.Passes literalLead e) :
    mentionsAt f c = mentionsAt f e := by
  have hsplit : literalLead = "const v = ".toList ++ ['\''] := rfl
  obtain ⟨d₁, hname, hquote⟩ := (hsplit ▸ hlead).exists_between
  have hquotes : ∀ x ∈ v ++ "const v = ".toList, ¬ IsQuote x :=
    List.forall_mem_append.2 ⟨hv, List.all_iff_forall_prop.1 (by decide)⟩
  have hink : (ink (v ++ "const v = ".toList)).getLast? ≠ some f.lastInk := by
    rw [getLast?_ink_append (x := '=') (by decide)]
    cases f <;> decide
  rw [mentionsAt, Form.matchesAt_of_lastInk (h.append hname) hquote.rest hquotes (.inl rfl) hink,
    Form.matchesAt_of_first hquote (by simp), ← mentionsAt]

/-! ### What is found line by line -/

/-- What the forms find from the start of a line on, whatever stands in front of it
without a quote. -/
def Finds (cs : List Char) (n : Nat) (found : List (Form × Mention)) : Prop :=
  ∀ f c d v, c.Passes v d → (∀ x ∈ v, ¬ IsQuote x) → d.before.any isWord = false →
    d.rest = cs → d.position = n → mentionsAt f c = ofForm f found

/-- What the forms find behind a line, whatever stands in front without a quote. -/
def FindsBehind (tail : List Char) (n : Nat) (found : List (Form × Mention)) : Prop :=
  ∀ f c d v, c.Passes v d → (∀ x ∈ v, ¬ IsQuote x) → d.rest = tail → d.position = n →
    mentionsAt f c = ofForm f found

section Steps

variable {cs tail l : List Char} {n : Nat} {found : List (Form × Mention)}

theorem Finds.behind_feed (h : Finds cs (n + 1) found) : FindsBehind ('\n' :: cs) n found := by
  rintro f c d v hpasses hv hrest rfl
  obtain ⟨e, hfeed, he⟩ := Cursor.exists_passes (hrest.trans List.singleton_append.symm)
  have hquotes : ∀ x ∈ v ++ ['\n'], ¬ IsQuote x :=
    List.forall_mem_append.2 ⟨hv, by simp [IsQuote]⟩
  exact h f c e _ (hpasses.append hfeed) hquotes (by rw [hfeed.before]; rfl) he hfeed.position

/-- A quotation is found in front of what is found behind its line. -/
theorem FindsBehind.statement {s : Quotation} (h : FindsBehind tail (n + s.chars.length) found)
    (hend : ∀ x, tail.head? = some x → x = '\n') :
    Finds (s.chars ++ tail) n (s.found n ++ found) := by
  rintro f c d v hpasses hv hbefore hrest rfl
  obtain ⟨e, hline, he⟩ := Cursor.exists_passes hrest
  rw [Quotation.mentionsAt_line hpasses hv hbefore hline (he ▸ hend),
    h f e e [] (.refl e) (by simp) he hline.position, ofForm_append]

/-- On a line that imports nothing, nothing is found. -/
theorem FindsBehind.silent (h : FindsBehind tail (n + l.length) found) (hl : Silent l)
    (hend : ∀ x, tail.head? = some x → x = '\n') : Finds (l ++ tail) n found := by
  rintro f c d v hpasses hv - hrest rfl
  obtain ⟨e, hline, he⟩ := Cursor.exists_passes hrest
  cases hl with
  | blank hblank =>
    refine h f c e _ (hpasses.append hline) (List.forall_mem_append.2 ⟨hv, fun x hx => ?_⟩) he
      hline.position
    exact not_isQuote_of_isBlank (hblank x hx)
  | @closed u hu =>
    have hsplit : literalLead ++ (u ++ "';".toList) = literalLead ++ ((u ++ ['\'']) ++ [';']) := by
      simp
    obtain ⟨d₁, hlead, hbehind⟩ := (hsplit ▸ hline).exists_between
    obtain ⟨d₂, hstring, hlast⟩ := hbehind.exists_between
    have hquotes : ∀ x ∈ u, ¬ IsQuote x := fun x hx hquote => hu x hx (.inl hquote)
    rw [mentionsAt_literal hpasses hv hlead, mentionsAt, Form.matchesAt_of_last_quote hstring
      hquotes (.inl rfl) hlast.rest (by simp [IsStop, IsQuote]) (he ▸ hend), ← mentionsAt]
    exact h f d₂ e _ hlast (by simp [IsQuote]) he hline.position
  | @cut u hu =>
    obtain ⟨d₁, hlead, hbehind⟩ := hline.exists_between
    rw [mentionsAt_literal hpasses hv hlead]
    exact h f d₁ e u hbehind (fun x hx hquote => hu x hx (.inl hquote)) he hline.position

end Steps

/-- What is found on lines: at increasing places from the given one on, the specifiers
that are not empty, trimmed. -/
structure Found (n : Nat) (statements : List Quotation) (found : List (Form × Mention)) :
    Prop where
  ordered : (found.map Prod.snd).Pairwise (·.position < ·.position)
  behind : ∀ m ∈ found.map Prod.snd, n ≤ m.position
  specifiers : (found.map Prod.snd).map Mention.specifier =
    (statements.filter fun s => s.specifier ≠ "").map Quotation.named

namespace Found

variable {n n' : Nat} {statements : List Quotation} {found : List (Form × Mention)}

theorem nil (n : Nat) : Found n [] [] := ⟨.nil, by simp, rfl⟩

theorem mono (h : Found n' statements found) (hn : n ≤ n') : Found n statements found :=
  ⟨h.ordered, fun m hm => hn.trans (h.behind m hm), h.specifiers⟩

theorem cons {s : Quotation} (h : Found (n + s.chars.length) statements found) :
    Found n (s :: statements) (s.found n ++ found) := by
  have hlength : s.front.length + 2 ≤ s.chars.length := by
    simp only [Quotation.chars, List.length_append, List.length_cons]
    omega
  have hrest := h.specifiers
  simp only [ne_eq] at hrest
  by_cases hempty : s.specifier = ""
  · rw [Quotation.found, if_pos hempty, List.nil_append]
    exact ⟨h.ordered, (h.mono (Nat.le_add_right ..)).behind, by simp [hrest, hempty]⟩
  · rw [Quotation.found, if_neg hempty]
    refine ⟨List.pairwise_cons.2 ⟨fun m hm => ?_, h.ordered⟩, ?_, by simp [hrest, hempty]⟩
    · have hbehind := h.behind m hm
      change n + s.front.length + 1 < m.position
      omega
    · refine List.forall_mem_cons.2 ⟨?_, (h.mono (Nat.le_add_right ..)).behind⟩
      change n ≤ n + s.front.length + 1
      omega

end Found

/-- **The forms find the statements among lines that import nothing, and nothing else.** -/
theorem Strewn.exists_found {statements : List Quotation} {ls : List (List Char)}
    (h : Strewn statements ls) {tail : List Char} (htail : Tail ls tail) (n : Nat) :
    ∃ found, Found n statements found ∧ FindsBehind tail n found := by
  induction h generalizing tail n with
  | nil =>
    refine ⟨[], .nil n, fun f c d v hpasses hv hrest _ => Form.mentionsAt_of_no_quote ?_⟩
    rw [hpasses.rest, hrest]
    refine List.forall_mem_append.2 ⟨hv, ?_⟩
    cases htail with
    | done => simp
    | feed => simp [IsQuote]
  | statement s _ ih =>
    cases htail with
    | line _ htail =>
      obtain ⟨found, hfound, hbehind⟩ := ih htail (n + 1 + s.chars.length)
      exact ⟨_, hfound.cons.mono (Nat.le_add_right n 1),
        (hbehind.statement htail.eq_newline_of_mem_head?).behind_feed⟩
  | @silent l _ _ hl _ ih =>
    cases htail with
    | line _ htail =>
      obtain ⟨found, hfound, hbehind⟩ := ih htail (n + 1 + l.length)
      exact ⟨found, hfound.mono (by omega),
        (hbehind.silent hl htail.eq_newline_of_mem_head?).behind_feed⟩

/-- **The mentions of a source that is left with these lines.** -/
theorem mentions_of_strewn {statements : List Quotation} {ls : List (List Char)}
    {cs : List Char} (h : Strewn statements ls) (hlines : Lines ls cs) :
    (mentions cs).map Mention.specifier =
      (statements.filter fun s => s.specifier ≠ "").map Quotation.named := by
  have hstart {found : List (Form × Mention)} (hfound : Found 0 statements found)
      (hfinds : Finds cs 0 found) : (mentions cs).map Mention.specifier =
        (statements.filter fun s => s.specifier ≠ "").map Quotation.named := by
    rw [mentions_of_found (fun f => hfinds f _ (.start cs) [] (.refl _) (by simp) rfl rfl rfl)
      hfound.ordered, hfound.specifiers]
  -- the first line has nothing in front of it; the others are found behind a line feed
  cases hlines with
  | nil =>
    cases h with
    | nil =>
      refine hstart (.nil 0) fun f c d v hpasses hv _ hrest _ => Form.mentionsAt_of_no_quote ?_
      rwa [hpasses.rest, hrest, List.append_nil]
  | cons l htail =>
    cases h with
    | statement s h =>
      obtain ⟨found, hfound, hbehind⟩ := h.exists_found htail (0 + s.chars.length)
      exact hstart hfound.cons (hbehind.statement htail.eq_newline_of_mem_head?)
    | silent hl h =>
      obtain ⟨found, hfound, hbehind⟩ := h.exists_found htail (0 + l.length)
      exact hstart (hfound.mono (Nat.zero_le _))
        (hbehind.silent hl htail.eq_newline_of_mem_head?)

/-- **A source imports what is named on these lines**, each name once. -/
theorem specifiers_of_strewn {statements : List Quotation} {ls : List (List Char)}
    {cs : List Char} (h : Strewn statements ls) (hlines : Lines ls (stripComments cs)) :
    specifiers (String.ofList cs) =
      ((statements.map Quotation.named).filter fun s => !s.isEmpty).eraseDups := by
  rw [specifiers, String.toList_ofList, mentions_of_strewn h hlines, List.filter_map,
    List.filter_map, List.filter_filter]
  refine congrArg (fun ss => (List.map Quotation.named ss).eraseDups)
    (List.filter_congr fun s _ => ?_)
  -- nothing is left of an empty specifier
  by_cases hempty : s.specifier = ""
  · have hnamed : s.named = "" := by rw [Quotation.named, hempty]; rfl
    simp [hnamed]
  · simp [hempty]

end Import
end Strata
