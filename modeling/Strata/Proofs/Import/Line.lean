/-
# Lines of a source

Three kinds of lines stand in the sources that comments and strings are put into:

| line | example |
| --- | --- |
| `ImportLine` | `import x from 's';`, `await import('s');` |
| `Comment` | `// text`, `/* text */` |
| `Literal` | `const v = 'text';` |

Every import line is a quotation (`ImportLine.quotation`), and nothing on it looks like a
comment unless its specifier does (`ImportLine.not_pair_infix_chars`).
-/

import Strata.Proofs.Import.Strewn

namespace Strata
namespace Import

open Text Pattern

/-! ### Lines with statements -/

/-- A specifier that can be written between quotes on a line and looks like no comment. -/
structure Plain (specifier : String) : Prop where
  oneLine : ∀ x ∈ specifier.toList, ¬ IsStop x
  noLineComment : ¬ ['/', '/'] <:+: specifier.toList
  noBlockComment : ∀ inside, ¬ marker inside <:+: specifier.toList

/-- What stands around a specifier. A clause is any text on the line that holds no quote,
semicolon or slash. A call may stand behind any text that holds no quote or slash and
does not run into it. -/
inductive Phrase where
  /-- `import x from 's';` or `export * from 's';` -/
  | clause (isExport : Bool) (text : String)
      (plain : ∀ x ∈ text.toList, ¬ IsStop x ∧ x ≠ ';' ∧ x ≠ '/')
  /-- `import 's';` -/
  | effect
  /-- `const v = require('s');` or `const v = await import('s');` -/
  | call (text : String) (isDynamic : Bool) (plain : ∀ x ∈ text.toList, ¬ IsStop x ∧ x ≠ '/')
      (edge : text.toList.getLast?.any isWord = false)

namespace Phrase

/-- The form that reads such a line. -/
def form : Phrase → Form
  | clause .. => .clause
  | effect => .effect
  | call .. => .call

/-- What stands in front of the statement proper. -/
def lead : Phrase → List Char
  | clause .. | effect => []
  | call text .. => text.toList

/-- What the statement begins with. -/
def opening : Phrase → List Char
  | clause isExport text _ =>
    (if isExport then "export" else "import").toList ++
      ([' '] ++ ((text.toList ++ [' ']) ++ ("from".toList ++ [' '])))
  | effect => "import ".toList
  | call _ isDynamic .. => if isDynamic then "import(".toList else "require(".toList

variable (k : Phrase)

/-- What stands in front of the quote. -/
def front : List Char := k.lead ++ k.opening

theorem front_clause (isExport : Bool) (text : String)
    (plain : ∀ x ∈ text.toList, ¬ IsStop x ∧ x ≠ ';' ∧ x ≠ '/') :
    (clause isExport text plain).front = (if isExport then "export" else "import").toList ++
      ([' '] ++ ((text.toList ++ [' ']) ++ ("from".toList ++ [' ']))) := rfl

theorem front_call (text : String) (isDynamic : Bool)
    (plain : ∀ x ∈ text.toList, ¬ IsStop x ∧ x ≠ '/')
    (edge : text.toList.getLast?.any isWord = false) :
    (call text isDynamic plain edge).front =
      text.toList ++ if isDynamic then "import(".toList else "require(".toList := rfl

/-- Nothing in front of the quote is a quote, a line feed or a slash. -/
theorem plain_of_mem_front : ∀ x ∈ k.front, ¬ IsStop x ∧ x ≠ '/' := by
  cases k with
  | clause isExport text plain =>
    simp only [front_clause, List.forall_mem_append]
    have htext : ∀ x ∈ text.toList, ¬ IsStop x ∧ x ≠ '/' := fun x hx =>
      ⟨(plain x hx).1, (plain x hx).2.2⟩
    have hblank : ∀ x ∈ [' '], ¬ IsStop x ∧ x ≠ '/' := List.all_iff_forall_prop.1 (by decide)
    refine ⟨?_, hblank, ⟨htext, hblank⟩, List.all_iff_forall_prop.1 (by decide), hblank⟩
    cases isExport <;> exact List.all_iff_forall_prop.1 (by decide)
  | effect => exact List.all_iff_forall_prop.1 (by decide)
  | call text isDynamic plain edge =>
    rw [front_call, List.forall_mem_append]
    refine ⟨plain, ?_⟩
    cases isDynamic <;> exact List.all_iff_forall_prop.1 (by decide)

/-- What stands in front of the statement proper does not run into it. -/
theorem edge_lead : k.lead.getLast?.any isWord = false := by
  cases k with
  | clause | effect => rfl
  | call text isDynamic plain edge => exact edge

/-- The statement proper begins with an opening of its form. -/
theorem leads_opening {c e : Cursor} (hbefore : c.before.any isWord = false)
    (h : c.Passes k.opening e) : (sequence k.form.opening).Leads c [] e [] := by
  have hblank : ∀ x ∈ [' '], isBlank x = true := List.all_eq_true.1 rfl
  have hnothing : ∀ x ∈ [], isBlank x = true := by simp
  cases k with
  | clause isExport text plain =>
    have hgap : ∀ x ∈ text.toList ++ [' '], noneOf "'\";" x = true := by
      refine List.forall_mem_append.2 ⟨fun x hx => ?_, List.all_eq_true.1 rfl⟩
      obtain ⟨hstop, hsemicolon, -⟩ := plain x hx
      simp only [IsStop, IsQuote, not_or] at hstop
      simp [noneOf, hstop, hsemicolon]
    cases isExport with
    | false =>
      exact Form.leads_clause_opening hbefore (.inl rfl) rfl hgap (by simp; rfl) hblank h
    | true => exact Form.leads_clause_opening hbefore (.inr rfl) rfl hgap (by simp; rfl) hblank h
  | effect => exact Form.leads_effect_opening hbefore hblank h
  | call text isDynamic plain edge =>
    cases isDynamic with
    | false => exact Form.leads_call_opening hbefore (.inl rfl) hnothing hnothing h
    | true => exact Form.leads_call_opening hbefore (.inr rfl) hnothing hnothing h

end Phrase

/-- A line with an import statement: how it is written, with which quotes, and what it
imports. -/
structure ImportLine where
  phrase : Phrase
  doubleQuotes : Bool
  specifier : String
  plain : Plain specifier

namespace ImportLine

variable (s : ImportLine)

/-- The quote on both sides of the specifier. -/
def quote : Char := quoteMark s.doubleQuotes

/-- The line that a statement is written on. -/
def chars : List Char :=
  s.phrase.front ++ s.quote :: (s.specifier.toList ++ s.quote :: (s.phrase.form.ending ++ [';']))

/-- What a statement names: its specifier without blanks on either side. -/
def named : String := trim s.specifier

/-- The specifier stands between two quotes. -/
theorem isQuote_quote : IsQuote s.quote := isQuote_quoteMark s.doubleQuotes

/-- The quotation on the line of a statement. -/
def quotation : Quotation where
  form := s.phrase.form
  lead := s.phrase.lead
  opening := s.phrase.opening
  quote := s.quote
  specifier := s.specifier
  closing := s.phrase.form.ending
  behind := [';']
  edge := s.phrase.edge_lead
  plain x hx := ⟨fun hquote => (s.phrase.plain_of_mem_front x hx).1 (.inl hquote),
    (s.phrase.plain_of_mem_front x hx).2⟩
  opens _ _ := s.phrase.leads_opening
  isQuote := s.isQuote_quote
  oneLine := s.plain.oneLine
  closes := s.phrase.form.closes_ending
  ends := s.phrase.form.behind_ending

/-- The quotation is written on the same line. -/
theorem chars_quotation : s.quotation.chars = s.chars := rfl

/-- Only the specifier could bring a comment on the line of a statement, since there is
no slash elsewhere. -/
theorem not_pair_infix_chars {a b : Char} (hslash : '/' ∈ [a, b]) (ha : a = '/' ∨ a = '*')
    (hb : b = '/' ∨ b = '*') (h : ¬ [a, b] <:+: s.specifier.toList) : ¬ [a, b] <:+: s.chars := by
  obtain ⟨-, hstart, hstar⟩ := s.isQuote_quote.ne_first
  have hne {x : Char} (hx : x = '/' ∨ x = '*') : s.quote ≠ x := by
    rcases hx with rfl | rfl
    · exact hstart
    · exact hstar
  intro hwithin
  rcases pair_infix_append (hne ha) (hne hb) hwithin with hfront | hbehind
  · exact (s.phrase.plain_of_mem_front _ (hfront.subset hslash)).2 rfl
  · rcases pair_infix_append (hne ha) (hne hb) hbehind with hspecifier | hend
    · exact h hspecifier
    · exact (s.phrase.form.behind_ending _ (hend.subset hslash)).2.2 rfl

/-- No block begins or ends on the line of a statement. -/
theorem no_marker_within (inside : Bool) : ¬ marker inside <:+: s.chars := by
  cases inside with
  | false =>
    exact s.not_pair_infix_chars (by simp) (.inl rfl) (.inr rfl) (s.plain.noBlockComment false)
  | true =>
    exact s.not_pair_infix_chars (by simp) (.inr rfl) (.inl rfl) (s.plain.noBlockComment true)

/-- No line comment begins there. -/
theorem no_slashes_within : ¬ ['/', '/'] <:+: s.chars :=
  s.not_pair_infix_chars (by simp) (.inl rfl) (.inl rfl) s.plain.noLineComment

/-- The line is one line. -/
theorem not_newline_mem : '\n' ∉ s.chars := by
  have hstop : IsStop '\n' := .inr rfl
  have hquote : '\n' ≠ s.quote := by
    rcases s.isQuote_quote with h | h <;> simp [h]
  intro hmem
  rcases List.mem_append.1 hmem with hfront | hmem
  · exact (s.phrase.plain_of_mem_front _ hfront).1 hstop
  rcases List.mem_append.1 ((List.mem_cons.1 hmem).resolve_left hquote) with hspecifier | hmem
  · exact s.plain.oneLine _ hspecifier hstop
  · have hend := (List.mem_cons.1 hmem).resolve_left hquote
    exact (s.phrase.form.behind_ending _ hend).1 hstop

end ImportLine

/-! ### Lines without statements -/

/-- A comment on lines of its own. -/
inductive Comment where
  | line (text : String) (oneLine : '\n' ∉ text.toList)
  | block (text : String) (noClose : ¬ marker true <:+: text.toList)

/-- A comment as it is written. -/
def Comment.chars : Comment → List Char
  | line text _ => "// ".toList ++ text.toList
  | block text _ => "/* ".toList ++ (text.toList ++ " */".toList)

/-- A string on a line of its own, as the value of a variable. -/
structure Literal where
  text : String
  plain : ∀ x ∈ text.toList, ¬ IsStop x ∧ x ≠ '\\'

/-- A string as it is written. -/
def Literal.chars (l : Literal) : List Char := literalLead ++ (l.text.toList ++ "';".toList)

/-- What may stand between import statements. -/
inductive Filler where
  | comment (c : Comment)
  | literal (l : Literal)

/-- What stands on a line without a statement. -/
def Filler.chars : Filler → List Char
  | comment c => c.chars
  | literal l => l.chars

/-- A line of a source. -/
inductive Line where
  | statement (s : ImportLine)
  | filler (x : Filler)

namespace Line

/-- The text of a line. -/
def chars : Line → List Char
  | statement s => s.chars
  | filler x => x.chars

/-- True for the line of a statement. -/
def isStatement : Line → Bool
  | statement _ => true
  | filler _ => false

/-- The statement on a line. -/
def statement? : Line → Option ImportLine
  | statement s => some s
  | filler _ => none

end Line

end Import
end Strata
