/-
# What may stand between import statements

Specification, section 4.2: line and block comments are stripped before statements are
looked for.

Comments and strings are put on lines of their own between import statements. Blocks are
removed first, from `/*` to the next `*/`, and neither a line comment nor a string keeps
its text from them. So what stands on one line can hide the statements on the next ones:

| line | next line | line after it | imports |
| --- | --- | --- | --- |
| `// src/*` | `import './a';` | `/* b */` | none |
| `const v = '/*';` | `import './a';` | `const v = '*/';` | none |

The lines of a kind change nothing, wherever they stand and however many there are,
exactly when each of them closes the blocks that it opens, or when none of them closes a
block (`harmless_iff`).
-/

import Strata.Proofs.Import.Line

namespace Strata
namespace Import

open Text Pattern

/-- Lines of a kind change nothing: a source with such lines among its import statements
has the specifiers of the source without them. -/
def Harmless (fillers : Filler → Prop) : Prop :=
  ∀ (lines : List Line) (source bare : List Char), (∀ x, .filler x ∈ lines → fillers x) →
    Lines (lines.map Line.chars) source →
    Lines ((lines.filter Line.isStatement).map Line.chars) bare →
      specifiers (String.ofList source) = specifiers (String.ofList bare)

/-! ### What is left of lines -/

/-- A line without two slashes is not cut. -/
theorem cutLine_of_no_slashes {l : List Char} (h : ¬ ['/', '/'] <:+: l) : cutLine l = l := by
  have hbehind : cutBehind l = l := by
    induction l with
    | nil => rfl
    | cons x l ih =>
      have hbegins : ['/', '/'].isPrefixOf l = false := by
        rw [← Bool.not_eq_true, List.isPrefixOf_iff_prefix]
        exact fun hbegins => h (List.infix_cons hbegins.isInfix)
      rw [cutBehind, hbegins, Bool.and_false, ih fun hwithin => h (List.infix_cons hwithin)]
      rfl
  rw [cutLine, if_neg, hbehind]
  rw [List.isPrefixOf_iff_prefix]
  exact fun hbegins => h hbegins.isInfix

/-- What a string holds is kept, or cut at two slashes. -/
theorem cutBehind_append (u rest : List Char) :
    cutBehind (u ++ rest) = u ++ cutBehind rest ∨ cutBehind (u ++ rest) <+: u := by
  induction u with
  | nil => exact .inl rfl
  | cons x u ih =>
    rw [List.cons_append, cutBehind]
    split
    · exact .inr (List.prefix_append [x] u)
    · exact ih.imp (congrArg (x :: ·)) (List.cons_prefix_cons.2 ⟨rfl, ·⟩)

/-- No line comment begins in front of the string. -/
theorem cutLine_literalLead (cs : List Char) :
    cutLine (literalLead ++ cs) = literalLead ++ cutBehind cs := rfl

/-- Cut at two slashes or not, a line with a string names no module. -/
theorem silent_cutLine_literal {u : List Char} (hu : ∀ x ∈ u, ¬ IsStop x) :
    Silent (cutLine (literalLead ++ (u ++ "';".toList))) := by
  rw [cutLine_literalLead]
  rcases cutBehind_append u "';".toList with h | hbegins
  · rw [h]
    exact .closed hu
  · exact .cut fun x hx => hu x (hbegins.subset hx)

/-- Outside of blocks nothing stands but blanks that was not there before. -/
theorem eq_blank_or_mem_of_mem_outside {inside : Bool} {cs : List Char} {x : Char}
    (h : x ∈ outside inside cs) : x = ' ' ∨ x ∈ cs := by
  induction inside, cs using scan_induction with
  | nil inside => cases inside <;> cases h
  | mark inside cs ih =>
    rw [scan_marker.2, List.mem_append] at h
    rcases h with h | h
    · cases inside with
      | false => exact .inl (List.mem_singleton.1 h)
      | true => cases h
    · exact (ih h).imp_right (List.mem_append_right _)
  | cons inside y cs hmark ih =>
    rw [(scan_cons hmark).2, List.mem_append] at h
    rcases h with h | h
    · cases inside with
      | false => exact .inr (List.mem_singleton.1 h ▸ List.mem_cons_self)
      | true => cases h
    · exact (ih h).imp_right (List.mem_cons_of_mem y)

namespace Literal

variable (l : Literal)

/-- Only the text of a string can leave a block open. -/
theorem leavesOpen_chars : leavesOpen false l.chars = leavesOpen false l.text.toList := by
  have hend (inside : Bool) : leavesOpen inside "';".toList = inside := by cases inside <;> rfl
  have hlead : leavesOpen false l.chars = leavesOpen false (l.text.toList ++ "';".toList) := rfl
  rw [hlead, (scan_append (by simp)).1, hend]

/-- A string that closes the blocks it opens keeps its quotes. -/
theorem outside_chars (h : leavesOpen false l.text.toList = false) :
    outside false l.chars = literalLead ++ (outside false l.text.toList ++ "';".toList) := by
  have hlead : outside false l.chars =
      literalLead ++ outside false (l.text.toList ++ "';".toList) := rfl
  rw [hlead, (scan_append (by simp)).2, h]
  rfl

/-- Only the text of a string can close a block. -/
theorem close_infix_chars : marker true <:+: l.chars ↔ marker true <:+: l.text.toList := by
  have hsplit : l.chars = "const v = ".toList ++ '\'' :: (l.text.toList ++ '\'' :: [';']) := rfl
  rw [hsplit]
  constructor
  · intro h
    have hbehind := (marker_infix_append (by decide) h).resolve_left (by decide)
    exact (marker_infix_append (by decide) hbehind).resolve_right (by decide)
  · exact fun h => h.trans ⟨"const v = '".toList, "';".toList, by simp⟩

end Literal

/-- What a string leaves is silent. -/
theorem silent_literal {u : List Char} (hu : ∀ x ∈ u, ¬ IsStop x) :
    '\n' ∉ literalLead ++ (u ++ "';".toList) ∧
      Silent (cutLine (literalLead ++ (u ++ "';".toList))) := by
  refine ⟨fun hmem => ?_, silent_cutLine_literal hu⟩
  rcases List.mem_append.1 hmem with hmem | hmem
  · exact absurd hmem (by decide)
  rcases List.mem_append.1 hmem with hmem | hmem
  · exact hu _ hmem (.inr rfl)
  · exact absurd hmem (by decide)

namespace Comment

/-- Only the text of a line comment can leave a block open. -/
theorem leavesOpen_line {t : String} (h : '\n' ∉ t.toList) :
    leavesOpen false (line t h).chars = leavesOpen false t.toList := rfl

/-- A block is closed by its end and not before. -/
theorem scan_chars_block {t : String} (h : ¬ marker true <:+: t.toList) :
    leavesOpen false (block t h).chars = false ∧ outside false (block t h).chars = [' '] := by
  have hsplit : (block t h).chars =
      marker false ++ ((' ' :: (t.toList ++ [' '])) ++ (marker true ++ [])) := by
    simp [chars, marker]
  have hinner : ¬ marker true <:+: ' ' :: (t.toList ++ [' ']) := fun hwithin => by
    have hblank : marker true <:+: [] ++ ' ' :: (t.toList ++ [' ']) := hwithin
    have hbehind := (marker_infix_append (by decide) hblank).resolve_left (by decide)
    exact (marker_infix_append (by decide) hbehind).elim h (by decide)
  rw [hsplit, scan_marker.1, scan_marker.2]
  exact ⟨(scan_block hinner).1, congrArg (' ' :: ·) (scan_block hinner).2⟩

/-- What a comment leaves outside of blocks is silent. -/
theorem silent_outside (c : Comment) :
    '\n' ∉ outside false c.chars ∧ Silent (cutLine (outside false c.chars)) := by
  cases c with
  | line t ht =>
    have houtside : outside false (line t ht).chars = "// ".toList ++ outside false t.toList := rfl
    rw [houtside]
    refine ⟨fun hmem => ?_, .blank (by simp [cutLine])⟩
    rcases List.mem_append.1 hmem with hmem | hmem
    · exact absurd hmem (by decide)
    · exact (eq_blank_or_mem_of_mem_outside hmem).elim (absurd · (by decide)) ht
  | block t ht =>
    rw [(scan_chars_block ht).2]
    exact ⟨by decide, .blank (List.all_eq_true.1 rfl)⟩

/-- Only the text of a line comment can close a block. -/
theorem close_infix_line {t : String} (h : '\n' ∉ t.toList) :
    marker true <:+: (line t h).chars ↔ marker true <:+: t.toList := by
  have hsplit : (line t h).chars = ['/', '/'] ++ ' ' :: t.toList := rfl
  rw [hsplit]
  constructor
  · exact fun hwithin => (marker_infix_append (by decide) hwithin).resolve_left (by decide)
  · exact fun hwithin => hwithin.trans ⟨"// ".toList, [], by simp⟩

/-- Every block is closed by its own end. -/
theorem close_infix_block {t : String} (h : ¬ marker true <:+: t.toList) :
    marker true <:+: (block t h).chars :=
  ⟨"/* ".toList ++ (t.toList ++ [' ']), [], by simp [chars, marker]⟩

end Comment

namespace Filler

/-- What a line without statement leaves, where it closes the blocks that it opens. -/
theorem silent_of_closed {x : Filler} (h : leavesOpen false x.chars = false) :
    '\n' ∉ outside false x.chars ∧ Silent (cutLine (outside false x.chars)) := by
  cases x with
  | comment c => exact c.silent_outside
  | literal l =>
    change leavesOpen false l.chars = false at h
    rw [l.leavesOpen_chars] at h
    change '\n' ∉ outside false l.chars ∧ Silent (cutLine (outside false l.chars))
    rw [l.outside_chars h]
    refine silent_literal fun x hx => ?_
    rcases eq_blank_or_mem_of_mem_outside hx with rfl | hx
    · simp [IsStop, IsQuote]
    · exact (l.plain x hx).1

/-- What it leaves where no block is closed. -/
theorem silent_of_no_close {x : Filler} (h : ¬ marker true <:+: x.chars) :
    '\n' ∉ x.chars ∧ Silent (cutLine x.chars) := by
  cases x with
  | literal l => exact silent_literal fun x hx => (l.plain x hx).1
  | comment c =>
    cases c with
    | line t ht =>
      refine ⟨fun hmem => ?_, .blank ?_⟩
      · rcases List.mem_append.1 hmem with hmem | hmem
        · exact absurd hmem (by decide)
        · exact ht hmem
      · have hcut : cutLine (Comment.line t ht).chars = [] := rfl
        simp [chars, hcut]
    | block t ht => exact absurd (Comment.close_infix_block ht) h

end Filler

/-! ### What is found among lines -/

/-- What these statements import: what they name, each name once. -/
def imported (statements : List ImportLine) : List String :=
  ((statements.map ImportLine.named).filter fun s => !s.isEmpty).eraseDups

/-- The statements on the lines. -/
def statementsOf (lines : List Line) : List ImportLine := lines.filterMap Line.statement?

/-- The quotations on the lines. -/
def quotationsOf (lines : List Line) : List Quotation :=
  (statementsOf lines).map ImportLine.quotation

section Lines

variable {lines : List Line} {cs : List Char}

/-- A source that is cleaned line by line is left with its statements among silent
lines. -/
theorem strewn_of_lines (clean : List Char → List Char)
    (hstatement : ∀ s : ImportLine, clean s.chars = s.chars)
    (hfiller : ∀ x, .filler x ∈ lines → Silent (clean x.chars)) :
    Strewn (quotationsOf lines) ((lines.map Line.chars).map clean) := by
  induction lines with
  | nil => exact .nil
  | cons l lines ih =>
    have hrest := ih fun x hx => hfiller x (List.mem_cons_of_mem l hx)
    cases l with
    | statement s =>
      rw [List.map_cons, List.map_cons, Line.chars, hstatement s]
      exact .statement s.quotation hrest
    | filler x => exact .silent (hfiller x List.mem_cons_self) hrest

/-- What these lines are left with is imported. -/
theorem specifiers_of_cleaned {ls : List (List Char)} (h : Strewn (quotationsOf lines) ls)
    (hlines : Lines ls (stripComments cs)) :
    specifiers (String.ofList cs) = imported (statementsOf lines) := by
  rw [specifiers_of_strewn h hlines, quotationsOf, List.map_map]
  rfl

/-- **A source imports what its statements name**, where every other line closes the blocks
that it opens, or none of them closes a block. -/
theorem specifiers_of_lines (h : Lines (lines.map Line.chars) cs)
    (hblocks : (∀ x, .filler x ∈ lines → leavesOpen false x.chars = false) ∨
      ∀ x, .filler x ∈ lines → ¬ marker true <:+: x.chars) :
    specifiers (String.ofList cs) = imported (statementsOf lines) := by
  have hall {p : List Char → Prop} (hstatement : ∀ s : ImportLine, p s.chars)
      (hfiller : ∀ x, .filler x ∈ lines → p x.chars) : ∀ l ∈ lines.map Line.chars, p l := by
    intro l hl
    obtain ⟨l, hmem, rfl⟩ := List.mem_map.1 hl
    cases l with
    | statement s => exact hstatement s
    | filler x => exact hfiller x hmem
  rcases hblocks with hclosed | hclose
  · have hscan (s : ImportLine) := scan_of_no_marker (s.no_marker_within false)
    refine specifiers_of_cleaned (strewn_of_lines (cutLine ∘ outside false)
      (fun s => ?_) fun x hx => (Filler.silent_of_closed (hclosed x hx)).2)
      (stripComments_lines h (hall (fun s => (hscan s).1) hclosed)
        (hall (fun s => ?_) fun x hx => (Filler.silent_of_closed (hclosed x hx)).1))
    · rw [Function.comp_apply, (hscan s).2]
      exact cutLine_of_no_slashes s.no_slashes_within
    · rw [(hscan s).2]
      exact s.not_newline_mem
  · have hnone : ¬ marker true <:+: cs := fun hwithin => by
      obtain ⟨l, hl, hwithin⟩ := h.exists_marker hwithin
      exact hall (p := (¬ marker true <:+: ·)) (fun s => s.no_marker_within true) hclose l hl
        hwithin
    exact specifiers_of_cleaned (strewn_of_lines cutLine
      (fun s => cutLine_of_no_slashes s.no_slashes_within)
      fun x hx => (Filler.silent_of_no_close (hclose x hx)).2)
      (stripComments_lines_of_no_close h hnone (hall (fun s => s.not_newline_mem)
        fun x hx => (Filler.silent_of_no_close (hclose x hx)).1))

end Lines

/-! ### Which lines change nothing -/

/-- The other lines hold no statement. -/
theorem statementsOf_filter (lines : List Line) :
    statementsOf (lines.filter Line.isStatement) = statementsOf lines := by
  rw [statementsOf, statementsOf, List.filterMap_filter]
  refine List.filterMap_congr fun l _ => ?_
  cases l <;> rfl

/-- What stands between a block that the first line leaves open and the place where the
last line closes it does not show. -/
theorem stripComments_hidden {x front : List Char} (behind : List Char)
    (hopen : leavesOpen false x = true) (hfront : ¬ marker true <:+: front) {s s' : ImportLine}
    (hlength : s.chars.length = s'.chars.length) :
    stripComments (x ++ '\n' :: (s.chars ++ '\n' :: (front ++ (marker true ++ behind)))) =
      stripComments (x ++ '\n' :: (s'.chars ++ '\n' :: (front ++ (marker true ++ behind)))) := by
  obtain ⟨written, hwritten⟩ := replacedAt_of_leavesOpen hopen
  have hstrip (t : ImportLine) (ht : t.chars.length = s'.chars.length) :
      blockComment.replaceIn (fun _ => [' '])
          (x ++ '\n' :: (t.chars ++ '\n' :: (front ++ (marker true ++ behind)))) =
        written ++ blockComment.replacedAt (fun _ => [' '])
          ⟨some '/', behind, x.length + s'.chars.length + front.length + 4⟩ := by
    have hcovered : ¬ marker true <:+: t.chars ++ '\n' :: front := fun hwithin =>
      (marker_infix_append (by decide) hwithin).elim (t.no_marker_within true) hfront
    refine hwritten _ (.start _) _ hcovered ⟨?_, ?_, ?_⟩
    · simp [Cursor.start]
    · have hlast : x ++ '\n' :: (t.chars ++ '\n' :: front ++ marker true) =
          (x ++ '\n' :: (t.chars ++ '\n' :: (front ++ ['*']))) ++ ['/'] := by simp [marker]
      rw [hlast, List.getLast?_concat]
      rfl
    · simp only [Cursor.start, List.length_append, List.length_cons, ht, marker, List.length_nil]
      omega
  rw [stripComments, stripComments, hstrip s hlength, hstrip s' rfl]

/-- A statement between two lines that change nothing. -/
theorem Harmless.specifiers_between {fillers : Filler → Prop} (h : Harmless fillers)
    {x y : Filler} (hx : fillers x) (hy : fillers y) (s : ImportLine) :
    specifiers (String.ofList (x.chars ++ '\n' :: (s.chars ++ '\n' :: y.chars))) =
      imported [s] := by
  have hbare : Lines (([.statement s] : List Line).map Line.chars) s.chars := .single s.chars
  have hlines := Lines.cons x.chars (.line s.chars (.line y.chars .done))
  rw [List.append_nil] at hlines
  have hkind : ∀ z, .filler z ∈ [Line.filler x, .statement s, .filler y] → fillers z := by
    intro z hz
    simp only [List.mem_cons, Line.filler.injEq, reduceCtorEq, List.not_mem_nil, or_false,
      false_or] at hz
    rcases hz with rfl | rfl
    · exact hx
    · exact hy
  have halone : specifiers (String.ofList s.chars) =
      imported (statementsOf [.statement s]) := specifiers_of_lines hbare (.inl (by simp))
  exact (h _ _ _ hkind hlines hbare).trans halone

/-- `import 's';` -/
def ImportLine.effect (specifier : String) (plain : Plain specifier) : ImportLine :=
  ⟨.effect, false, specifier, plain⟩

theorem plain_a : Plain "a" := ⟨List.all_iff_forall_prop.1 (by decide), by decide, by decide⟩

theorem plain_b : Plain "b" := ⟨List.all_iff_forall_prop.1 (by decide), by decide, by decide⟩

/-- A line that leaves a block open hides a statement in front of a line that closes one. -/
theorem not_harmless {fillers : Filler → Prop} {x y : Filler} (hx : fillers x) (hy : fillers y)
    (hopen : leavesOpen false x.chars = true) (hclose : marker true <:+: y.chars) :
    ¬ Harmless fillers := by
  intro h
  obtain ⟨front, behind, hsplit, hfront⟩ := exists_first_marker hclose
  -- two statements that differ in nothing but what they import
  have ha := h.specifiers_between hx hy (.effect "a" plain_a)
  have hb := h.specifiers_between hx hy (.effect "b" plain_b)
  have hsame := stripComments_hidden behind hopen hfront
    (show (ImportLine.effect "a" plain_a).chars.length =
      (ImportLine.effect "b" plain_b).chars.length by decide)
  rw [specifiers, String.toList_ofList, hsplit] at ha hb
  rw [hsame, hb] at ha
  exact absurd ha (by decide)

/-- **Lines of a kind change nothing exactly when each of them closes the blocks that it
opens, or none of them closes a block.** -/
theorem harmless_iff (fillers : Filler → Prop) :
    Harmless fillers ↔ (∀ x, fillers x → leavesOpen false x.chars = false) ∨
      ∀ x, fillers x → ¬ marker true <:+: x.chars := by
  constructor
  · intro h
    by_contra hnone
    push Not at hnone
    obtain ⟨⟨x, hx, hopen⟩, y, hy, hclose⟩ := hnone
    exact not_harmless hx hy (by simpa using hopen) hclose h
  · intro h lines source bare hfillers hsource hbare
    have hkind : (∀ x, .filler x ∈ lines → leavesOpen false x.chars = false) ∨
        ∀ x, .filler x ∈ lines → ¬ marker true <:+: x.chars :=
      h.imp (fun h x hx => h x (hfillers x hx)) fun h x hx => h x (hfillers x hx)
    have hnothing : ∀ x, .filler x ∈ lines.filter Line.isStatement →
        leavesOpen false x.chars = false := fun x hx =>
      absurd (List.mem_filter.1 hx).2 (by simp [Line.isStatement])
    rw [specifiers_of_lines hsource hkind, specifiers_of_lines hbare (.inl hnothing),
      statementsOf_filter]

/-! ### Comments and strings -/

/-- **Comments change nothing exactly when every line comment closes the blocks that it opens,
or when all of them are line comments and none closes a block.** A block comment closes its own
block, and every block that was left open before it. Source: specification, section 4.2,
stripped comments. -/
theorem comments_harmless_iff (comments : Comment → Prop) :
    Harmless (fun x => ∃ c, comments c ∧ x = .comment c) ↔
      (∀ t h, comments (.line t h) → leavesOpen false t.toList = false) ∨
      ∀ c, comments c → ∃ t h, c = .line t h ∧ ¬ marker true <:+: t.toList := by
  rw [harmless_iff]
  constructor
  · rintro (hclosed | hclose)
    · exact .inl fun t h ht => (Comment.leavesOpen_line h).symm.trans (hclosed _ ⟨_, ht, rfl⟩)
    · refine .inr fun c hc => ?_
      have hnone : ¬ marker true <:+: c.chars := hclose _ ⟨c, hc, rfl⟩
      cases c with
      | line t h => exact ⟨t, h, rfl, fun hwithin => hnone ((Comment.close_infix_line h).2 hwithin)⟩
      | block t h => exact absurd (Comment.close_infix_block h) hnone
  · rintro (hclosed | hclose)
    · refine .inl ?_
      rintro _ ⟨c, hc, rfl⟩
      cases c with
      | line t h => exact (Comment.leavesOpen_line h).trans (hclosed t h hc)
      | block t h => exact (Comment.scan_chars_block h).1
    · refine .inr ?_
      rintro _ ⟨c, hc, rfl⟩
      obtain ⟨t, h, rfl, hnone⟩ := hclose c hc
      exact fun hwithin => hnone ((Comment.close_infix_line h).1 hwithin)

/-- A glob in a line comment opens a block, and the next block comment closes it. -/
theorem comment_hides_import :
    specifiers "// see src/*\nimport './a';\n/* b */\n" = [] ∧
      specifiers "import './a';\n" = ["./a"] := by
  decide +kernel

/-- **Strings change nothing exactly when each of them closes the blocks that it opens, or none
of them closes a block.** Slashes never matter: what is cut off a line has no statement in it.
Source: specification, section 4.2, stripped comments. -/
theorem literals_harmless_iff (literals : Literal → Prop) :
    Harmless (fun x => ∃ l, literals l ∧ x = .literal l) ↔
      (∀ l, literals l → leavesOpen false l.text.toList = false) ∨
      ∀ l, literals l → ¬ marker true <:+: l.text.toList := by
  rw [harmless_iff]
  refine or_congr ?_ ?_
  · constructor
    · exact fun h l hl => l.leavesOpen_chars.symm.trans (h _ ⟨l, hl, rfl⟩)
    · rintro h _ ⟨l, hl, rfl⟩
      exact l.leavesOpen_chars.trans (h l hl)
  · constructor
    · exact fun h l hl hwithin => h _ ⟨l, hl, rfl⟩ (l.close_infix_chars.2 hwithin)
    · rintro h _ ⟨l, hl, rfl⟩ hwithin
      exact h l hl (l.close_infix_chars.1 hwithin)

/-- A string that opens a block, and one that closes it. -/
theorem literal_hides_import :
    specifiers "const v = '/*';\nimport './a';\nconst v = '*/';" = [] ∧
      specifiers "import './a';" = ["./a"] := by
  decide +kernel

end Import
end Strata
