/-
# Statements that are written down are found again

Specification, section 4.2: five forms of statement, results in the order of their first
occurrence, each once.

A source has one import statement on every line, in one of five shapes:

| shape | line |
| --- | --- |
| `fromImport` | `import x from 's';` |
| `fromExport` | `export * from 's';` |
| `effect` | `import 's';` |
| `require` | `const v = require('s');` |
| `dynamic` | `const v = await import('s');` |

Each of these lines is a quotation (`Statement.quotation`), so it is found by the form of its
shape and by no other, whatever words the specifier holds. No comment begins on it, and the
source imports what was written, each specifier once (`specifiers_of_written`).
-/

import Strata.Proofs.Import.Strewn

namespace Strata
namespace Import

open Text Pattern

/-! ### Sources with one statement on every line -/

/-- The ways to write an import. -/
inductive Shape where
  | fromImport
  | fromExport
  | effect
  | require
  | dynamic
  deriving Repr, DecidableEq

namespace Shape

/-- The form that reads such a line. -/
def form : Shape → Form
  | fromImport | fromExport => .clause
  | effect => .effect
  | require | dynamic => .call

/-- What stands in front of the statement proper. -/
def lead : Shape → List Char
  | fromImport | fromExport | effect => []
  | require => "const v = ".toList
  | dynamic => "const v = await ".toList

/-- What the statement begins with. -/
def opening : Shape → List Char
  | fromImport => "import x from ".toList
  | fromExport => "export * from ".toList
  | effect => "import ".toList
  | require => "require(".toList
  | dynamic => "import(".toList

end Shape

/-- An import statement: how it is written, with which quotes, and what it names. -/
structure Statement where
  shape : Shape
  doubleQuotes : Bool
  specifier : String
  deriving Repr, DecidableEq

namespace Statement

/-- The quote on both sides of the specifier. -/
def quote (s : Statement) : Char := quoteMark s.doubleQuotes

/-- The line that a statement is written on. -/
def chars (s : Statement) : List Char :=
  s.shape.lead ++ s.shape.opening ++
    s.quote :: (s.specifier.toList ++ s.quote :: (s.shape.form.ending ++ [';']))

end Statement

/-- A source with these statements, one on every line. The last line may be ended by a
line feed as the others are. -/
inductive Written : List Statement → List Char → Prop where
  | nil : Written [] []
  | last (s : Statement) : Written [s] s.chars
  | line (s : Statement) {rest : List Statement} {cs : List Char} :
      Written rest cs → Written (s :: rest) (s.chars ++ '\n' :: cs)

/-! ### The parts of a line -/

namespace Shape

/-- Nothing in front of the quote is a quote or a slash. -/
theorem plain (k : Shape) : ∀ x ∈ k.lead ++ k.opening, ¬ IsQuote x ∧ x ≠ '/' := by
  cases k <;> exact List.all_iff_forall_prop.1 (by decide)

/-- What stands in front of the statement proper does not run into it. -/
theorem edge (k : Shape) : k.lead.getLast?.any isWord = false := by
  cases k <;> rfl

/-- The statement proper begins with an opening of its form. -/
theorem leads_opening (k : Shape) {c e : Cursor} (hbefore : c.before.any isWord = false)
    (h : c.Passes k.opening e) : (sequence k.form.opening).Leads c [] e [] := by
  have hblank : ∀ x ∈ [' '], isBlank x = true := List.all_eq_true.1 rfl
  have hnothing : ∀ x ∈ [], isBlank x = true := by simp
  cases k with
  | fromImport =>
    have hgap : ∀ x ∈ ['x', ' '], noneOf "'\";" x = true := List.all_eq_true.1 rfl
    exact Form.leads_clause_opening hbefore (.inl rfl) rfl hgap rfl hblank h
  | fromExport =>
    have hgap : ∀ x ∈ ['*', ' '], noneOf "'\";" x = true := List.all_eq_true.1 rfl
    exact Form.leads_clause_opening hbefore (.inr rfl) rfl hgap rfl hblank h
  | effect => exact Form.leads_effect_opening hbefore hblank h
  | require => exact Form.leads_call_opening hbefore (.inl rfl) hnothing hnothing h
  | dynamic => exact Form.leads_call_opening hbefore (.inr rfl) hnothing hnothing h

end Shape

/-! ### What is found -/

namespace Statement

/-- The quotation on the line of a statement. -/
def quotation (s : Statement) (hs : Quotable s.specifier) : Quotation where
  form := s.shape.form
  lead := s.shape.lead
  opening := s.shape.opening
  quote := s.quote
  specifier := s.specifier
  closing := s.shape.form.ending
  behind := [';']
  edge := s.shape.edge
  plain := s.shape.plain
  opens _ _ := s.shape.leads_opening
  isQuote := isQuote_quoteMark s.doubleQuotes
  oneLine := hs.oneLine
  closes := s.shape.form.closes_ending
  ends := s.shape.form.behind_ending

theorem chars_quotation (s : Statement) (hs : Quotable s.specifier) :
    (s.quotation hs).chars = s.chars := rfl

/-- There is nothing to trim. -/
theorem named_quotation (s : Statement) (hs : Quotable s.specifier) :
    (s.quotation hs).named = s.specifier := hs.trimmed

theorem isChain_chars {s : Statement} (hs : Quotable s.specifier) : s.chars.IsChain NoComment :=
  (s.quotation hs).isChain_chars hs

end Statement

namespace Written

variable {statements : List Statement} {cs : List Char}

/-- A written source is made of the lines of its statements. -/
theorem lines (h : Written statements cs) : Lines (statements.map Statement.chars) cs := by
  induction h with
  | nil => exact .nil
  | last s => exact .single s.chars
  | line s _ ih => exact .cons s.chars ih.behind_feed

/-- Each of these lines is a quotation. -/
theorem exists_strewn (hs : ∀ s ∈ statements, Quotable s.specifier) :
    ∃ quotations : List Quotation, Strewn quotations (statements.map Statement.chars) ∧
      quotations.map Quotation.named = statements.map Statement.specifier := by
  induction statements with
  | nil => exact ⟨[], .nil, rfl⟩
  | cons s statements ih =>
    obtain ⟨hquotable, hs⟩ := List.forall_mem_cons.1 hs
    obtain ⟨quotations, hstrewn, hnamed⟩ := ih hs
    refine ⟨s.quotation hquotable :: quotations, .statement _ hstrewn, ?_⟩
    rw [List.map_cons, List.map_cons, hnamed, s.named_quotation]

/-- No comment begins anywhere. -/
theorem isChain (h : Written statements cs) (hs : ∀ s ∈ statements, Quotable s.specifier) :
    cs.IsChain NoComment := by
  induction h with
  | nil => exact .nil
  | last s => exact s.isChain_chars (hs s List.mem_cons_self)
  | line s _ ih =>
    obtain ⟨hquotable, hs⟩ := List.forall_mem_cons.1 hs
    refine (s.isChain_chars hquotable).append ((ih hs).cons fun y _ => ?_) fun x _ y hy => ?_
    · exact fun h => absurd h (by decide)
    · obtain rfl : '\n' = y := by simpa using hy
      exact fun _ => by decide

end Written

/-- **A source imports what was written, each specifier once**, in the order in which they come
first. Whatever a specifier holds, keywords and blanks too, it is read by the form of its own
statement only. Source: specification, section 4.2. -/
theorem specifiers_of_written {statements : List Statement} {cs : List Char}
    (h : Written statements cs) (hs : ∀ s ∈ statements, Quotable s.specifier) :
    specifiers (String.ofList cs) = (statements.map Statement.specifier).eraseDups := by
  have hkept : (statements.map Statement.specifier).filter (fun s => !s.isEmpty) =
      statements.map Statement.specifier := by
    refine List.filter_eq_self.2 fun name hname => ?_
    obtain ⟨s, hmem, rfl⟩ := List.mem_map.1 hname
    simpa using (hs s hmem).nonempty
  obtain ⟨quotations, hstrewn, hnamed⟩ := Written.exists_strewn hs
  rw [specifiers_of_strewn hstrewn ((stripComments_eq_self (h.isChain hs)).symm ▸ h.lines), hnamed,
    hkept]

theorem specifiers_of_written_keywords :
    specifiers "export * from \"require\";\nimport 'from';\nconst v = require('require');" =
      ["require", "from"] := by
  have hwritten : Written [⟨.fromExport, true, "require"⟩, ⟨.effect, false, "from"⟩,
      ⟨.require, false, "require"⟩]
      "export * from \"require\";\nimport 'from';\nconst v = require('require');".toList :=
    .line _ (.line _ (.last _))
  have hrequire : Quotable "require" :=
    ⟨by decide, List.all_iff_forall_prop.1 (by decide), by decide, by decide,
      by rintro _ ⟨⟩; rfl, by rintro _ ⟨⟩; rfl⟩
  have hfrom : Quotable "from" :=
    ⟨by decide, List.all_iff_forall_prop.1 (by decide), by decide, by decide,
      by rintro _ ⟨⟩; rfl, by rintro _ ⟨⟩; rfl⟩
  exact specifiers_of_written hwritten (by simp [hrequire, hfrom])

end Import
end Strata
