/-
# What the message of the type checker reads

The message begins at the start of a line with a file, and it ends with a name between two
quotes. It is read part by part (`TypeCheck`):

| part | may be |
| --- | --- |
| `file` | characters, but no blanks, parentheses and colons |
| `place` | `(line,column)`, `:line:column`, or nothing |
| `gap`, `gap'` | blanks |
| `dash` | `:`, `-`, or nothing |
| `name` | characters, but no quotes |

The ways of the message are its readings (`leads_typeCheckerMessage`). What the type checker
writes has one reading only (`TypeCheck.Proper.eq_written`), so the message finds it
(`matchAt?_written`).

A blank may be a line feed, so a file at the end of a line and `error` on the next one would
be read together. That a line has no message may therefore depend on the next line
(`matchAt?_eq_none_of_listed`).
-/

import Strata.Failure.Signals
import Strata.Proofs.Lists
import Strata.Proofs.Text.Replace

namespace Strata
namespace Signals

open Text Pattern

/-- What holds of all characters of a text is decided along the text, and not by trying all
characters that there are. -/
scoped instance (priority := high) decidableForallMem {p : Char → Prop} [DecidablePred p]
    (cs : List Char) : Decidable (∀ x ∈ cs, p x) := List.decidableBAll p cs

/-- A text without a quote. -/
def Unquoted (cs : List Char) : Prop := ∀ x ∈ cs, ¬ x = '\''

instance : DecidablePred Unquoted := fun _ => inferInstanceAs (Decidable (∀ _ ∈ _, _))

/-- Two ways to cut a text in front of its first quote are the same. -/
theorem quote_inj {xs xs' ys ys' : List Char} (hxs : Unquoted xs) (hxs' : Unquoted xs')
    (h : xs ++ '\'' :: ys = xs' ++ '\'' :: ys') : xs = xs' ∧ ys = ys' := by
  obtain ⟨hxs, -, hys⟩ := append_cons_inj_of_first (p := (· = '\'')) hxs hxs' rfl rfl h
  exact ⟨hxs, hys⟩

/-- The class that the message reads names with is that of the characters without the quote. -/
theorem noneOf_quote {x : Char} : noneOf "'" x = true ↔ ¬ x = '\'' := by
  simp [noneOf]

/-- A character that ends the name of a file. -/
def EndsFile (x : Char) : Prop := isBlank x = true ∨ x ∈ ['(', ')', ':']

instance : DecidablePred EndsFile := fun _ => inferInstanceAs (Decidable (_ ∨ _))

/-- A decimal number. -/
def IsNumber (cs : List Char) : Prop := cs ≠ [] ∧ ∀ x ∈ cs, isDigit x = true

instance : DecidablePred IsNumber := fun _ => inferInstanceAs (Decidable (_ ∧ ∀ _ ∈ _, _))

/-- A place in a file, as the type checker tells it. -/
def IsPlace (place : List Char) : Prop :=
  ∃ line column, IsNumber line ∧ IsNumber column ∧
    (place = '(' :: (line ++ ',' :: (column ++ [')'])) ∨ place = ':' :: (line ++ ':' :: column))

/-- What the message of the type checker reads, part by part. -/
structure TypeCheck where
  file : List Char
  place : List Char
  gap : List Char
  dash : List Char
  gap' : List Char
  name : List Char

namespace TypeCheck

/-- What stands in front of the words. -/
def front (r : TypeCheck) : List Char := r.file ++ (r.place ++ (r.gap ++ (r.dash ++ r.gap')))

/-- The parts together. -/
def chars (r : TypeCheck) : List Char :=
  r.front ++ ("error TS2307: Cannot find module '".toList ++ (r.name ++ ['\'']))

/-- The parts are of the right kinds. -/
structure Proper (r : TypeCheck) : Prop where
  file_ne : r.file ≠ []
  file : ∀ x ∈ r.file, ¬ EndsFile x
  place : r.place = [] ∨ IsPlace r.place
  gap : ∀ x ∈ r.gap, isBlank x = true
  dash : r.dash = [] ∨ r.dash = [':'] ∨ r.dash = ['-']
  gap' : ∀ x ∈ r.gap', isBlank x = true
  name_ne : r.name ≠ []
  name : Unquoted r.name

end TypeCheck

variable {c d : Cursor} {caps caps' : Captures}

/-- The class that the message reads files with is that of the characters that end no name of a
file. -/
theorem endsFile_iff {x : Char} :
    (!isBlank x && noneOf "():" x) = true ↔ ¬ EndsFile x := by
  simp [EndsFile, noneOf]

/-- Where the optional place in a file leads. -/
theorem leads_place :
    (optional (.either (sequence [.text "(", number, .text ",", number, .text ")"])
      (sequence [.text ":", number, .text ":", number]))).Leads c caps d caps' ↔
      ∃ place, (place = [] ∨ IsPlace place) ∧ c.Passes place d ∧ caps' = caps := by
  -- in both directions: parentheses and a comma, two colons, or nothing
  constructor
  · rintro ((h | h) | ⟨rfl, rfl⟩)
    · simp only [leads_sequence_cons, leads_sequence_nil, leads_text, number,
        leads_greedyPlus] at h
      obtain ⟨e₁, _, ⟨hopen, rfl⟩, e₂, _, ⟨line, hne, hline, hone, rfl⟩, e₃, _, ⟨hcomma, rfl⟩, e₄,
        _, ⟨column, hne', hcolumn, htwo, rfl⟩, e₅, _, ⟨hclose, rfl⟩, rfl, rfl⟩ := h
      exact ⟨_, .inr ⟨line, column, ⟨hne, hline⟩, ⟨hne', hcolumn⟩, .inl rfl⟩,
        hopen.append (hone.append (hcomma.append (htwo.append hclose))), rfl⟩
    · simp only [leads_sequence_cons, leads_sequence_nil, leads_text, number,
        leads_greedyPlus] at h
      obtain ⟨e₁, _, ⟨hopen, rfl⟩, e₂, _, ⟨line, hne, hline, hone, rfl⟩, e₃, _, ⟨hcolon, rfl⟩, e₄,
        _, ⟨column, hne', hcolumn, htwo, rfl⟩, rfl, rfl⟩ := h
      exact ⟨_, .inr ⟨line, column, ⟨hne, hline⟩, ⟨hne', hcolumn⟩, .inr rfl⟩,
        hopen.append (hone.append (hcolon.append htwo)), rfl⟩
    · exact ⟨[], .inl rfl, .refl _, rfl⟩
  · rintro ⟨_, rfl | ⟨line, column, ⟨hne, hline⟩, ⟨hne', hcolumn⟩, rfl | rfl⟩, hpasses, rfl⟩
    · exact .inr ⟨hpasses.eq_of_nil, rfl⟩
    · obtain ⟨e₁, hopen, h⟩ := hpasses.exists_behind_first
      obtain ⟨e₂, hone, h⟩ := h.exists_between
      obtain ⟨e₃, hcomma, h⟩ := h.exists_behind_first
      obtain ⟨e₄, htwo, hclose⟩ := h.exists_between
      refine .inl (.inl ?_)
      simp only [leads_sequence_cons, leads_sequence_nil, leads_text, number, leads_greedyPlus]
      exact ⟨e₁, _, ⟨hopen, rfl⟩, e₂, _, ⟨line, hne, hline, hone, rfl⟩, e₃, _, ⟨hcomma, rfl⟩, e₄,
        _, ⟨column, hne', hcolumn, htwo, rfl⟩, d, _, ⟨hclose, rfl⟩, rfl, rfl⟩
    · obtain ⟨e₁, hopen, h⟩ := hpasses.exists_behind_first
      obtain ⟨e₂, hone, h⟩ := h.exists_between
      obtain ⟨e₃, hcolon, htwo⟩ := h.exists_behind_first
      refine .inl (.inr ?_)
      simp only [leads_sequence_cons, leads_sequence_nil, leads_text, number, leads_greedyPlus]
      exact ⟨e₁, _, ⟨hopen, rfl⟩, e₂, _, ⟨line, hne, hline, hone, rfl⟩, e₃, _, ⟨hcolon, rfl⟩, d, _,
        ⟨column, hne', hcolumn, htwo, rfl⟩, rfl, rfl⟩

/-- Where the optional dash leads. -/
theorem leads_dash :
    (optional (.one (among ":-"))).Leads c caps d caps' ↔
      ∃ dash, (dash = [] ∨ dash = [':'] ∨ dash = ['-']) ∧ c.Passes dash d ∧ caps' = caps := by
  constructor
  · rintro (⟨⟨x, hx, hpasses⟩, rfl⟩ | ⟨rfl, rfl⟩)
    · have hx : x = ':' ∨ x = '-' := by simpa [among] using hx
      exact ⟨[x], .inr (by simpa using hx), hpasses, rfl⟩
    · exact ⟨[], .inl rfl, .refl _, rfl⟩
  · rintro ⟨_, rfl | rfl | rfl, hpasses, rfl⟩
    · exact .inr ⟨hpasses.eq_of_nil, rfl⟩
    · exact .inl ⟨⟨_, rfl, hpasses⟩, rfl⟩
    · exact .inl ⟨⟨_, rfl, hpasses⟩, rfl⟩

/-- **The ways of the message of the type checker** are the readings of a line's start. -/
theorem leads_typeCheckerMessage :
    typeCheckerMessage.Leads c [] d caps ↔
      Place.lineStart.holds c = true ∧ ∃ r : TypeCheck, r.Proper ∧ c.Passes r.chars d ∧
        caps = [("import", ⟨c.position + r.front.length + 34, r.name⟩),
          ("file", ⟨c.position, r.file⟩)] := by
  simp only [typeCheckerMessage, missingName, leads_sequence_cons, leads_sequence_nil,
    leads_text, leads_named_greedyPlus, leads_named_lazyPlus, leads_place, leads_dash]
  -- the parts of a way are the parts of a reading, one after the other
  constructor
  · rintro ⟨_, _, ⟨hstart, rfl, rfl⟩, e₁, _, ⟨file, hfile_ne, hfile, hone, rfl⟩, e₂, _,
      ⟨place, hplace, htwo, rfl⟩, e₃, _, ⟨⟨gap, hgap, hthree⟩, rfl⟩, e₄, _,
      ⟨dash, hdash, hfour, rfl⟩, e₅, _, ⟨⟨gap', hgap', hfive⟩, rfl⟩, e₆, _, ⟨herror, rfl⟩, e₇, _,
      ⟨name, hne, hname, hpasses, rfl⟩, e₈, _, ⟨hclose, rfl⟩, rfl, rfl⟩
    have hfront := hone.append (htwo.append (hthree.append (hfour.append hfive)))
    refine ⟨hstart, ⟨file, place, gap, dash, gap', name⟩, ⟨hfile_ne,
      fun x hx => endsFile_iff.1 (hfile x hx), hplace, hgap, hdash, hgap', hne,
      fun x hx => noneOf_quote.1 (hname x hx)⟩,
      hfront.append (herror.append (hpasses.append hclose)), ?_⟩
    rw [(hfront.append herror).position, List.length_append, ← Nat.add_assoc]
    rfl
  · rintro ⟨hstart, ⟨file, place, gap, dash, gap', name⟩, hr, h, rfl⟩
    obtain ⟨e₅, hfront, h⟩ := h.exists_between
    obtain ⟨e₆, herror, h⟩ := h.exists_between
    obtain ⟨e₇, hpasses, hclose⟩ := h.exists_between
    have hposition := (hfront.append herror).position
    obtain ⟨e₁, hone, hfront⟩ := hfront.exists_between
    obtain ⟨e₂, htwo, hfront⟩ := hfront.exists_between
    obtain ⟨e₃, hthree, hfront⟩ := hfront.exists_between
    obtain ⟨e₄, hfour, hfive⟩ := hfront.exists_between
    refine ⟨c, _, ⟨hstart, rfl, rfl⟩, e₁, _, ⟨file, hr.file_ne,
      fun x hx => endsFile_iff.2 (hr.file x hx), hone, rfl⟩, e₂, _, ⟨place, hr.place, htwo, rfl⟩,
      e₃, _, ⟨⟨gap, hr.gap, hthree⟩, rfl⟩, e₄, _, ⟨dash, hr.dash, hfour, rfl⟩, e₅, _,
      ⟨⟨gap', hr.gap', hfive⟩, rfl⟩, e₆, _, ⟨herror, rfl⟩, e₇, _, ⟨name, hr.name_ne,
      fun x hx => noneOf_quote.2 (hr.name x hx), hpasses, rfl⟩, d, _, ⟨hclose, rfl⟩, rfl, ?_⟩
    rw [hposition, List.length_append, ← Nat.add_assoc]
    rfl

/-- A number has no blank. -/
theorem isBlank_eq_false_of_isNumber {cs : List Char} (h : IsNumber cs) :
    ∀ x ∈ cs, isBlank x = false := fun x hx =>
  Bool.eq_false_iff.2 fun hblank =>
    Bool.noConfusion ((h.2 x hx).symm.trans (isDigit_of_isBlank hblank))

/-- A place in a file has no blank. -/
theorem IsPlace.isBlank_eq_false {place : List Char} (h : IsPlace place) :
    ∀ x ∈ place, isBlank x = false := by
  obtain ⟨line, column, hline, hcolumn, rfl | rfl⟩ := h <;>
    simp only [List.forall_mem_cons, List.forall_mem_append]
  · exact ⟨by decide, isBlank_eq_false_of_isNumber hline, by decide,
      isBlank_eq_false_of_isNumber hcolumn, by decide, by simp⟩
  · exact ⟨by decide, isBlank_eq_false_of_isNumber hline, by decide,
      isBlank_eq_false_of_isNumber hcolumn⟩

/-- Blanks in front of what begins with no blank are none. -/
theorem nil_of_blanks {gap xs ys : List Char} {y : Char} (hgap : ∀ x ∈ gap, isBlank x = true)
    (hy : isBlank y = false) (h : gap ++ xs = y :: ys) : gap = [] := by
  cases gap with
  | nil => rfl
  | cons x gap =>
    obtain rfl : x = y := (List.cons.inj h).1
    exact absurd (hgap x List.mem_cons_self) (by simp [hy])

namespace TypeCheck

/-- What stands behind the place. -/
def behind (r : TypeCheck) : List Char :=
  r.gap ++ (r.dash ++ (r.gap' ++ ("error TS2307: Cannot find module '".toList ++
    (r.name ++ ['\'']))))

/-- The file, its place and what stands behind them are the whole. -/
theorem chars_eq (r : TypeCheck) : r.chars = r.file ++ (r.place ++ r.behind) := by
  simp only [chars, front, behind, List.append_assoc]

/-- The file, the line and the column as the type checker writes them. -/
def written (file line column name : List Char) : TypeCheck where
  file := file
  place := '(' :: (line ++ ',' :: (column ++ [')']))
  gap := []
  dash := [':']
  gap' := [' ']
  name := name

variable {r : TypeCheck} {file line column name rest rest' : List Char}

/-- What the type checker writes has parts of the right kinds. -/
theorem proper_written (hfile_ne : file ≠ []) (hfile : ∀ x ∈ file, ¬ EndsFile x)
    (hline : IsNumber line) (hcolumn : IsNumber column) (hname_ne : name ≠ [])
    (hname : Unquoted name) : (written file line column name).Proper where
  file_ne := hfile_ne
  file := hfile
  place := .inr ⟨line, column, hline, hcolumn, .inl rfl⟩
  gap := by simp [written]
  dash := .inr (.inl rfl)
  gap' := by simp [written, isBlank]
  name_ne := hname_ne
  name := hname

/-- The file ends at the first character that can end it; when that is a parenthesis, a place
in the file begins there. -/
theorem Proper.exists_end (hr : r.Proper) :
    ∃ xs x ys, r.place ++ r.behind = xs ++ x :: ys ∧ (∀ y ∈ xs, ¬ EndsFile y) ∧ EndsFile x ∧
      (x = '(' → xs = [] ∧ ∃ line column, IsNumber line ∧ IsNumber column ∧
        r.place = '(' :: (line ++ ',' :: (column ++ [')']))) := by
  obtain ⟨file, place, gap, dash, gap', name⟩ := r
  have hblank : ∀ {x}, isBlank x = true → x ≠ '(' := by rintro x hx rfl; exact absurd hx (by decide)
  obtain rfl | ⟨line, column, hline, hcolumn, rfl | rfl⟩ : place = [] ∨ IsPlace place := hr.place
  · cases gap with
    | cons x gap =>
      have hx := hr.gap x List.mem_cons_self
      exact ⟨[], x, _, rfl, by simp, .inl hx, fun h => absurd h (hblank hx)⟩
    | nil =>
      obtain rfl | rfl | rfl : dash = [] ∨ dash = [':'] ∨ dash = ['-'] := hr.dash
      · cases gap' with
        | cons x gap' =>
          have hx := hr.gap' x List.mem_cons_self
          exact ⟨[], x, _, rfl, by simp, .inl hx, fun h => absurd h (hblank hx)⟩
        | nil => exact ⟨"error".toList, ' ', _, rfl, by decide, by decide,
            fun h => absurd h (by decide)⟩
      · exact ⟨[], ':', _, rfl, by simp, by decide, fun h => absurd h (by decide)⟩
      · cases gap' with
        | cons x gap' =>
          have hx := hr.gap' x List.mem_cons_self
          exact ⟨['-'], x, _, rfl, by decide, .inl hx, fun h => absurd h (hblank hx)⟩
        | nil => exact ⟨"-error".toList, ' ', _, rfl, by decide, by decide,
            fun h => absurd h (by decide)⟩
  · exact ⟨[], '(', _, rfl, by simp, by decide, fun _ => ⟨rfl, line, column, hline, hcolumn, rfl⟩⟩
  · exact ⟨[], ':', _, rfl, by simp, by decide, fun h => absurd h (by decide)⟩

/-- No character of a number ends a run of digits. -/
theorem isDigit_of_isNumber {cs : List Char} (h : IsNumber cs) {x : Char} (hx : x ∈ cs) :
    ¬ isDigit x = false := by
  simp [h.2 x hx]

/-- What stands behind the place is read in one way. -/
theorem Proper.behind_eq (hr : r.Proper) (hname : Unquoted name)
    (h : r.behind ++ rest = (written file line column name).behind ++ rest') :
    r.gap = [] ∧ r.dash = [':'] ∧ r.gap' = [' '] ∧ r.name = name := by
  obtain ⟨words, hwords⟩ : ∃ words, "error TS2307: Cannot find module '".toList = 'e' :: words :=
    ⟨_, rfl⟩
  have hblanks := hr.gap'
  simp only [behind, written, hwords, List.append_assoc, List.nil_append, List.cons_append] at h
  have hgap : r.gap = [] := nil_of_blanks hr.gap (by decide) h
  rw [hgap, List.nil_append] at h
  -- the dash is the first character that is no blank, and no other part begins with it
  have hdash : r.dash = [':'] := by
    rcases hr.dash with hdash | hdash | hdash
    · rw [hdash, List.nil_append] at h
      rw [nil_of_blanks hblanks (by decide) h, List.nil_append] at h
      exact absurd (List.cons.inj h).1 (by decide)
    · exact hdash
    · rw [hdash] at h
      exact absurd (List.cons.inj h).1 (by decide)
  rw [hdash, List.singleton_append] at h
  have h := (List.cons.inj h).2
  cases hgap' : r.gap' with
  | nil =>
    rw [hgap'] at h
    exact absurd (List.cons.inj h).1 (by decide)
  | cons x gap =>
    rw [hgap'] at h hblanks
    obtain ⟨rfl, hwords⟩ := List.cons.inj h
    obtain rfl : gap = [] := nil_of_blanks (y := 'e')
      (fun x hx => hblanks x (List.mem_cons_of_mem _ hx)) (by decide) hwords
    have hnames := List.append_cancel_left (List.cons.inj hwords).2
    exact ⟨hgap, hdash, rfl, (quote_inj hr.name hname hnames).1⟩

/-- **What the type checker writes is read in one way.** -/
theorem Proper.eq_written (hr : r.Proper) (hfile : ∀ x ∈ file, ¬ EndsFile x)
    (hline : IsNumber line) (hcolumn : IsNumber column) (hname : Unquoted name)
    (h : r.chars ++ rest = (written file line column name).chars ++ rest') :
    r = written file line column name := by
  obtain ⟨xs, x, ys, hend, hxs, hx, hplace⟩ := hr.exists_end
  have h : (r.file ++ xs) ++ x :: (ys ++ rest) = file ++ '(' :: (line ++ ',' :: (column ++
      ')' :: ((written file line column name).behind ++ rest'))) := by
    rw [chars_eq, chars_eq, hend] at h
    simpa only [written, List.append_assoc, List.cons_append, List.nil_append] using h
  obtain ⟨hfiles, rfl, hrest⟩ := append_cons_inj_of_first (p := EndsFile)
    (List.forall_mem_append.2 ⟨hr.file, hxs⟩) hfile hx (by decide) h
  obtain ⟨rfl, line', column', hline', hcolumn', hplace⟩ := hplace rfl
  have hys : ys = line' ++ ',' :: (column' ++ ')' :: r.behind) := by
    rw [hplace] at hend
    simpa using (List.cons.inj hend).2.symm
  rw [hys, List.append_assoc, List.cons_append, List.append_assoc, List.cons_append] at hrest
  obtain ⟨hlines, -, hrest⟩ := append_cons_inj_of_first (p := fun x => isDigit x = false)
    (fun _ => isDigit_of_isNumber hline') (fun _ => isDigit_of_isNumber hline) (by decide)
    (by decide) hrest
  obtain ⟨hcolumns, -, hrest⟩ := append_cons_inj_of_first (p := fun x => isDigit x = false)
    (fun _ => isDigit_of_isNumber hcolumn') (fun _ => isDigit_of_isNumber hcolumn) (by decide)
    (by decide) hrest
  obtain ⟨hgap, hdash, hgap', hnames⟩ := hr.behind_eq hname hrest
  rw [List.append_nil] at hfiles
  rw [hlines, hcolumns] at hplace
  cases r
  exact TypeCheck.mk.injEq .. ▸ ⟨hfiles, hplace, hgap, hdash, hgap', hnames⟩

/-- What stands behind the first blank of the message: the words from `error` on, perhaps
behind a dash and more blanks, or the words behind `error`. -/
def TellsError (more : List Char) : Prop :=
  (∃ gap dash gap' ys, more = gap ++ (dash ++ (gap' ++ ("error".toList ++ ' ' :: ys))) ∧
    (∀ y ∈ gap, isBlank y = true) ∧ (dash = [] ∨ dash = [':'] ∨ dash = ['-']) ∧
    ∀ y ∈ gap', isBlank y = true) ∨
  ∃ ys, more = "TS2307".toList ++ ':' :: ys

/-- What follows the message does not matter. -/
theorem TellsError.append {more : List Char} (h : TellsError more) (rest : List Char) :
    TellsError (more ++ rest) := by
  obtain ⟨gap, dash, gap', ys, rfl, hgaps⟩ | ⟨ys, rfl⟩ := h
  · exact .inl ⟨gap, dash, gap', ys ++ rest, by simp only [List.append_assoc, List.cons_append],
      hgaps⟩
  · exact .inr ⟨ys ++ rest, by simp only [List.append_assoc, List.cons_append]⟩

/-- The text up to the first blank, and what follows that. -/
theorem Proper.exists_blank (hr : r.Proper) :
    ∃ word x more, r.chars = word ++ x :: more ∧ (∀ y ∈ word, isBlank y = false) ∧
      isBlank x = true ∧ TellsError more := by
  obtain ⟨file, place, gap, dash, gap', name⟩ := r
  obtain ⟨ys, hys⟩ : ∃ ys, TypeCheck.chars ⟨file, place, gap, dash, gap', name⟩ =
      file ++ (place ++ (gap ++ (dash ++ (gap' ++ ("error".toList ++
        ' ' :: ("TS2307".toList ++ ':' :: ys)))))) :=
    ⟨_, chars_eq _⟩
  have hfile : ∀ y ∈ file, isBlank y = false := fun y hy =>
    Bool.eq_false_iff.2 fun hblank => hr.file y hy (.inl hblank)
  have hplace : ∀ y ∈ place, isBlank y = false := by
    obtain rfl | hplace : place = [] ∨ IsPlace place := hr.place
    · simp
    · exact hplace.isBlank_eq_false
  have hdash : ∀ y ∈ dash, isBlank y = false := by
    obtain rfl | rfl | rfl : dash = [] ∨ dash = [':'] ∨ dash = ['-'] := hr.dash <;> decide
  have hgaps : ∀ y ∈ gap, isBlank y = true := hr.gap
  have hgaps' : ∀ y ∈ gap', isBlank y = true := hr.gap'
  rw [hys]
  -- the first blank is the first one of a gap, or the one behind `error`
  match gap, gap', hgaps, hgaps' with
  | x :: gap, gap', hgaps, hgaps' =>
    obtain ⟨hx, hgap⟩ := List.forall_mem_cons.1 hgaps
    refine ⟨file ++ place, x, _, ?_, List.forall_mem_append.2 ⟨hfile, hplace⟩, hx,
      .inl ⟨gap, dash, gap', "TS2307".toList ++ ':' :: ys, rfl, hgap, hr.dash, hgaps'⟩⟩
    simp only [List.append_assoc, List.cons_append]
  | [], x :: gap', _, hgaps' =>
    obtain ⟨hx, hgap⟩ := List.forall_mem_cons.1 hgaps'
    refine ⟨file ++ (place ++ dash), x, _, ?_,
      List.forall_mem_append.2 ⟨hfile, List.forall_mem_append.2 ⟨hplace, hdash⟩⟩, hx,
      .inl ⟨gap', [], [], "TS2307".toList ++ ':' :: ys, rfl, hgap, .inl rfl, by simp⟩⟩
    simp only [List.append_assoc, List.cons_append, List.nil_append]
  | [], [], _, _ =>
    refine ⟨file ++ (place ++ (dash ++ "error".toList)), ' ', _, ?_, ?_, rfl, .inr ⟨ys, rfl⟩⟩
    · simp only [List.append_assoc, List.nil_append]
    · simp only [List.forall_mem_append]
      exact ⟨hfile, hplace, hdash, by decide⟩

/-- What begins with no blank begins with a dash or a word. -/
theorem TellsError.mem_of_cons {more : List Char} {y : Char} (h : TellsError (y :: more))
    (hy : isBlank y = false) : y ∈ [':', '-', 'e', 'T'] := by
  obtain ⟨gap, dash, gap', ys, heq, hgap, hdash, hgap'⟩ | ⟨ys, heq⟩ := h
  · rw [nil_of_blanks hgap hy heq.symm, List.nil_append] at heq
    rcases hdash with rfl | rfl | rfl
    · rw [List.nil_append] at heq
      rw [nil_of_blanks hgap' hy heq.symm, List.nil_append] at heq
      obtain rfl : y = 'e' := (List.cons.inj heq).1
      decide
    · obtain rfl : y = ':' := (List.cons.inj heq).1
      decide
    · obtain rfl : y = '-' := (List.cons.inj heq).1
      decide
  · obtain rfl : y = 'T' := (List.cons.inj heq).1
    decide

/-- The first character that can end a file. A blank stands there at once, behind a dash, or
behind `error`. -/
theorem TellsError.exists_end {more : List Char} (h : TellsError more) :
    ∃ xs x ys, more = xs ++ x :: ys ∧ (∀ y ∈ xs, ¬ EndsFile y) ∧ EndsFile x ∧
      (x = '\n' → xs = [] ∨ ∃ blanks ys', ys = blanks ++ ("error".toList ++ ' ' :: ys') ∧
        ∀ y ∈ blanks, isBlank y = true) := by
  obtain ⟨gap, dash, gap', ys, rfl, hgap, hdash, hgap'⟩ | ⟨ys, rfl⟩ := h
  · match gap, dash, gap', hgap, hdash, hgap' with
    | x :: gap, dash, gap', hgap, _, _ =>
      exact ⟨[], x, _, rfl, by simp, .inl (hgap x List.mem_cons_self), fun _ => .inl rfl⟩
    | [], _, x :: gap', _, .inl rfl, hgap' =>
      exact ⟨[], x, _, rfl, by simp, .inl (hgap' x List.mem_cons_self), fun _ => .inl rfl⟩
    | [], _, [], _, .inl rfl, _ =>
      exact ⟨"error".toList, ' ', ys, rfl, by decide, by decide, fun h => absurd h (by decide)⟩
    | [], _, gap', _, .inr (.inl rfl), _ =>
      exact ⟨[], ':', _, rfl, by simp, by decide, fun _ => .inl rfl⟩
    | [], _, [], _, .inr (.inr rfl), _ =>
      exact ⟨"-error".toList, ' ', ys, rfl, by decide, by decide, fun h => absurd h (by decide)⟩
    | [], _, x :: gap', _, .inr (.inr rfl), hgap' =>
      obtain ⟨hx, hblanks⟩ := List.forall_mem_cons.1 hgap'
      exact ⟨['-'], x, _, rfl, by decide, .inl hx, fun _ => .inr ⟨gap', ys, rfl, hblanks⟩⟩
  · exact ⟨"TS2307".toList, ':', ys, rfl, by decide, by decide, fun h => absurd h (by decide)⟩

end TypeCheck

/-! ### Where the message is and is not -/

/-- **The message as it is written is found.** -/
theorem matchAt?_written {file line column name : List Char}
    (hr : (TypeCheck.written file line column name).Proper) (hline : IsNumber line)
    (hcolumn : IsNumber column) (hstart : Place.lineStart.holds c = true)
    (h : c.Passes (TypeCheck.written file line column name).chars d) :
    typeCheckerMessage.matchAt? c = some ⟨c.spanTo d,
      [("import", ⟨c.position + (TypeCheck.written file line column name).front.length + 34, name⟩),
        ("file", ⟨c.position, file⟩)]⟩ := by
  refine matchAt?_eq_of_unique (leads_typeCheckerMessage.2 ⟨hstart, _, hr, h, rfl⟩)
    fun e caps hleads => ?_
  obtain ⟨-, r, hr', hpasses, rfl⟩ := leads_typeCheckerMessage.1 hleads
  obtain rfl := hr'.eq_written hr.file hline hcolumn hr.name (hpasses.rest.symm.trans h.rest)
  exact ⟨hpasses.unique h, rfl⟩

/-- The message is nowhere but at the start of a line. -/
theorem matchAt?_eq_none_of_inside (h : Place.lineStart.holds c = false) :
    typeCheckerMessage.matchAt? c = none :=
  matchAt?_eq_none_iff.2 fun _ _ hleads =>
    Bool.noConfusion (h.symm.trans (leads_typeCheckerMessage.1 hleads).1)

/-- What follows the first blank where the message begins. -/
theorem tellsError_of_leads (h : typeCheckerMessage.Leads c [] d caps) {word more : List Char}
    {x : Char} (hword : ∀ y ∈ word, isBlank y = false) (hx : isBlank x = true)
    (hrest : c.rest = word ++ x :: more) : TypeCheck.TellsError more := by
  obtain ⟨-, r, hr, hpasses, -⟩ := leads_typeCheckerMessage.1 h
  obtain ⟨word', x', more', hchars, hword', hx', hmore⟩ := hr.exists_blank
  have heq := hpasses.rest.symm.trans hrest
  rw [hchars, List.append_assoc, List.cons_append] at heq
  obtain ⟨-, -, rfl⟩ := append_cons_inj_of_first (p := fun x => isBlank x = true)
    (fun y hy => by simp [hword' y hy]) (fun y hy => by simp [hword y hy]) hx' hx heq
  exact hmore.append d.rest

/-- The message does not begin with two words of which the second is about something else. -/
theorem matchAt?_eq_none_of_word {word more : List Char} {y : Char}
    (hword : ∀ x ∈ word, isBlank x = false) (hy : isBlank y = false)
    (hne : y ∉ [':', '-', 'e', 'T']) (hrest : c.rest = word ++ ' ' :: y :: more) :
    typeCheckerMessage.matchAt? c = none :=
  matchAt?_eq_none_iff.2 fun _ _ hleads =>
    hne ((tellsError_of_leads hleads hword rfl hrest).mem_of_cons hy)

/-- A file at the end of a line ends at the line feed. -/
theorem eq_feed_of_endsFile {file xs ys rest : List Char} {x : Char}
    (hfile : ∀ y ∈ file, ¬ EndsFile y) (hend : ∀ y, rest.head? = some y → y = '\n')
    (hxs : ∀ y ∈ xs, ¬ EndsFile y) (hx : EndsFile x) (h : xs ++ x :: ys = file ++ rest) :
    xs = file ∧ x = '\n' ∧ rest = '\n' :: ys := by
  cases rest with
  | nil =>
    have hmem : x ∈ file := by
      rw [List.append_nil] at h
      exact h ▸ by simp
    exact absurd hx (hfile x hmem)
  | cons y rest =>
    obtain rfl : y = '\n' := hend y rfl
    obtain ⟨rfl, rfl, rfl⟩ := append_cons_inj_of_first (p := EndsFile) hxs hfile hx (by decide) h
    exact ⟨rfl, rfl, rfl⟩

/-- The message does not begin with the line that lists a file, when the next line does not
begin with `error`. -/
theorem matchAt?_eq_none_of_listed {file rest : List Char} (hne : file ≠ [])
    (hfile : ∀ y ∈ file, ¬ EndsFile y) (hend : ∀ y, rest.head? = some y → y = '\n')
    (hnext : ∀ more, rest = '\n' :: more → ∃ word behind, more = word ++ ' ' :: behind ∧
      word ≠ [] ∧ (∀ y ∈ word, isBlank y = false) ∧ word ≠ "error".toList)
    (hrest : c.rest = '-' :: ' ' :: (file ++ rest)) : typeCheckerMessage.matchAt? c = none := by
  refine matchAt?_eq_none_iff.2 fun d caps hleads => ?_
  have hdash : c.rest = ['-'] ++ ' ' :: (file ++ rest) := hrest
  have htells : TypeCheck.TellsError (file ++ rest) :=
    tellsError_of_leads hleads (by decide) (by decide) hdash
  obtain ⟨xs, x, ys, heq, hxs, hx, hfeed⟩ := htells.exists_end
  obtain ⟨rfl, rfl, hmore⟩ := eq_feed_of_endsFile hfile hend hxs hx heq.symm
  obtain rfl | ⟨blanks, ys', rfl, hblanks⟩ := hfeed rfl
  · exact hne rfl
  · obtain ⟨word, behind, hnext, hword_ne, hword, herror⟩ := hnext _ hmore
    obtain ⟨y, word, rfl⟩ := List.exists_cons_of_ne_nil hword_ne
    rw [nil_of_blanks hblanks (hword y List.mem_cons_self) hnext, List.nil_append] at hnext
    obtain ⟨heq, -⟩ := append_cons_inj_of_first (p := fun x => isBlank x = true) (by decide)
      (fun x hx => by simp [hword x hx]) (by decide) (by decide) hnext
    exact herror heq.symm

end Signals
end Strata
