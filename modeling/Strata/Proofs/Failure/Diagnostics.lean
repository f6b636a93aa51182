/-
# Diagnostics about missing modules

Specification, section 4.5, item 3: module-not-found signals in raw output.

A diagnostic tells a missing module and the file that asks for it, in the words of who tells
it (`Diagnostic.text`):

| teller | text |
| --- | --- |
| `typeChecker line column` | `file(line,column): error TS2307: Cannot find module 'name'` |
| `bundler` | `Module not found: Error: Can't resolve 'name' in 'file'` |
| `moduleLoader` | `Error [ERR_MODULE_NOT_FOUND]: Cannot find module 'name' imported from file` |
| `plainLoader` | `Error: Cannot find module 'name' imported from file` |
| `plainLoaderWithStack` | `Error: Cannot find module 'name'`, `Require stack:`, `- file` |

A name may end with the words of a loader. The closing quote behind it then looks like the
opening one of another name, which goes on to the next quote, be that in the next diagnostic
(`Diagnostic.Misleads`). Except for that, a message finds nothing in a diagnostic that is not
its own (`Diagnostic.exists_name`, `Diagnostic.sightingsAt_name`).
-/

import Strata.Proofs.Failure.Messages

namespace Strata
namespace Signals

open Text Pattern

/-- Who tells that a module is missing, and how. -/
inductive Teller where
  /-- the type checker, with the place in the file -/
  | typeChecker (line column : String)
  /-- the bundler -/
  | bundler
  /-- the module loader -/
  | moduleLoader
  /-- the plain loader, with the importing file -/
  | plainLoader
  /-- the plain loader, with the files that led to it -/
  | plainLoaderWithStack
  deriving Repr, DecidableEq

namespace Teller

/-- The messages that read a name of this teller. -/
def isReadBy : Teller → Message → Bool
  | typeChecker _ _, .typeChecker | bundler, .bundler | moduleLoader, .moduleLoader
  | plainLoader, .moduleLoader | plainLoader, .plainLoader
  | plainLoaderWithStack, .plainLoader => true
  | _, _ => false

/-- A place in a file is told by decimal numbers. -/
def TellsNumbers : Teller → Prop
  | typeChecker line column => IsNumber line.toList ∧ IsNumber column.toList
  | bundler | moduleLoader | plainLoader | plainLoaderWithStack => True

instance : DecidablePred TellsNumbers
  | typeChecker _ _ => inferInstanceAs (Decidable (_ ∧ _))
  | bundler | moduleLoader | plainLoader | plainLoaderWithStack => inferInstanceAs (Decidable True)

/-- Nothing follows the name on its line. -/
def endsLine : Teller → Bool
  | typeChecker _ _ | plainLoaderWithStack => true
  | bundler | moduleLoader | plainLoader => false

/-- A teller that the module loader's message does not read, and that is not the bundler, ends a
line behind the name. -/
theorem endsLine_of_not_isReadBy {t : Teller} (h : t ≠ .bundler)
    (hforeign : t.isReadBy .moduleLoader = false) : t.endsLine = true := by
  cases t with
  | typeChecker line column | plainLoaderWithStack => rfl
  | bundler => exact absurd rfl h
  | moduleLoader | plainLoader => exact Bool.noConfusion hforeign

end Teller

/-- A missing module, the file that asked for it, and who tells it. -/
structure Diagnostic where
  teller : Teller
  file : String
  specifier : String
  deriving Repr, DecidableEq

namespace Diagnostic

/-- What stands in front of the opening quote. -/
def lead (d : Diagnostic) : String :=
  match d.teller with
  | .typeChecker line column =>
    d.file ++ "(" ++ line ++ "," ++ column ++ "): error TS2307: Cannot find module "
  | .bundler => "Module not found: Error: Can't resolve "
  | .moduleLoader => "Error [ERR_MODULE_NOT_FOUND]: Cannot find module "
  | .plainLoader | .plainLoaderWithStack => "Error: Cannot find module "

/-- What stands behind the closing quote. -/
def tail (d : Diagnostic) : String :=
  match d.teller with
  | .typeChecker _ _ => ""
  | .bundler => " in '" ++ d.file ++ "'"
  | .moduleLoader | .plainLoader => " imported from " ++ d.file
  | .plainLoaderWithStack => "\nRequire stack:\n- " ++ d.file

/-- The text of a diagnostic. -/
def text (d : Diagnostic) : String := d.lead ++ "'" ++ d.specifier ++ "'" ++ d.tail

/-- What a diagnostic tells. -/
def missing (d : Diagnostic) : MissingModule := ⟨some d.file, d.specifier⟩

/-- A file without blanks, quotes, colons and parentheses, a specifier on one line without
quotes, and decimal numbers. -/
structure Proper (d : Diagnostic) : Prop where
  file_ne : d.file ≠ ""
  file : ∀ x ∈ d.file.toList, ¬ EndsFile x
  file_unquoted : Unquoted d.file.toList
  specifier_ne : d.specifier ≠ ""
  specifier : Unquoted d.specifier.toList
  specifier_line : '\n' ∉ d.specifier.toList
  place : d.teller.TellsNumbers

instance : DecidablePred Proper := fun d =>
  decidable_of_iff (d.file ≠ "" ∧ (∀ x ∈ d.file.toList, ¬ EndsFile x) ∧ Unquoted d.file.toList ∧
      d.specifier ≠ "" ∧ Unquoted d.specifier.toList ∧ '\n' ∉ d.specifier.toList ∧
      d.teller.TellsNumbers)
    ⟨fun ⟨h₁, h₂, h₃, h₄, h₅, h₆, h₇⟩ => ⟨h₁, h₂, h₃, h₄, h₅, h₆, h₇⟩,
      fun h => ⟨h.1, h.2, h.3, h.4, h.5, h.6, h.7⟩⟩

/-- The specifier goes on as the message of the module loader does behind the name. -/
def ContinuesImport (d : Diagnostic) : Prop :=
  d.teller ≠ .bundler ∧ ∃ rest, d.specifier.toList = " imported from ".toList ++ rest ∧
    ∀ x, rest.head? = some x → isBlank x = false

/-- The closing quote of a specifier misleads a message of a loader that does not read it: the
specifier ends with the words of the message, and what follows the quote is taken for a name.
The module loader asks for words behind that name too, and the name of the next diagnostic is
the only place where they can stand. -/
def Misleads (d : Diagnostic) (next : Option Diagnostic) : Message → Prop
  | .typeChecker | .bundler => False
  | .moduleLoader =>
    ("Cannot find module ".toList <:+ d.specifier.toList ∨
      "Cannot find package ".toList <:+ d.specifier.toList) ∧
      d.teller.endsLine = true ∧ ∃ n ∈ next, n.ContinuesImport
  | .plainLoader =>
    "Error: Cannot find module ".toList <:+ d.specifier.toList ∧
      d.teller.isReadBy .plainLoader = false ∧ (next = none → d.teller = .bundler)

/-- What follows a diagnostic in a text. -/
def Followed (next : Option Diagnostic) (rest : List Char) : Prop :=
  match next with
  | none => rest = []
  | some n => n.Proper ∧ ∃ more, rest = '\n' :: (n.text.toList ++ more)

variable {d : Diagnostic} {next : Option Diagnostic} {m : Message} {c e : Cursor}

/-- The text of a diagnostic is what leads to the name, the name between quotes, and the rest. -/
theorem toList_text (d : Diagnostic) :
    d.text.toList = d.lead.toList ++ '\'' :: (d.specifier.toList ++ '\'' :: d.tail.toList) := by
  simp [text]

/-- Behind a diagnostic stands a line feed, if anything. -/
theorem Followed.head? {rest : List Char} (h : Followed next rest) :
    ∀ x, rest.head? = some x → x = '\n' := by
  cases next with
  | none => simp [show rest = [] from h]
  | some n =>
    obtain ⟨-, more, rfl⟩ := h
    rintro x ⟨⟩
    rfl

/-- Every diagnostic but the one of the bundler has no quotes but those around the name. -/
theorem Proper.unquoted (h : d.Proper) (hteller : d.teller ≠ .bundler) :
    Unquoted d.lead.toList ∧ Unquoted d.tail.toList := by
  obtain ⟨teller, file, specifier⟩ := d
  have hfile : Unquoted file.toList := h.file_unquoted
  have hdigit : ∀ {cs : List Char}, IsNumber cs → Unquoted cs := fun hcs x hx heq =>
    absurd (hcs.2 x hx) (heq ▸ by decide)
  cases teller with
  | typeChecker line column =>
    obtain ⟨hline, hcolumn⟩ : IsNumber line.toList ∧ IsNumber column.toList := h.place
    simp only [lead, tail, String.toList_append, Unquoted, List.forall_mem_append]
    exact ⟨⟨⟨⟨⟨⟨hfile, by decide⟩, hdigit hline⟩, by decide⟩, hdigit hcolumn⟩, by decide⟩,
      by decide⟩
  | bundler => exact absurd rfl hteller
  | moduleLoader | plainLoader | plainLoaderWithStack =>
    simp only [lead, tail, String.toList_append, Unquoted, List.forall_mem_append]
    exact ⟨by decide, by decide, hfile⟩

/-- The words in front of a name. -/
def words : Teller → List Char
  | .typeChecker _ _ => "): error TS2307: Cannot find module ".toList
  | .bundler => "Module not found: Error: Can't resolve ".toList
  | .moduleLoader => "Error [ERR_MODULE_NOT_FOUND]: Cannot find module ".toList
  | .plainLoader | .plainLoaderWithStack => "Error: Cannot find module ".toList

/-- The words of all but the bundler. -/
theorem words_mem {t : Teller} (h : t ≠ .bundler) :
    words t ∈ ["): error TS2307: Cannot find module ".toList,
      "Error [ERR_MODULE_NOT_FOUND]: Cannot find module ".toList,
      "Error: Cannot find module ".toList] := by
  cases t with
  | typeChecker line column => exact .head _
  | bundler => exact absurd rfl h
  | moduleLoader => exact .tail _ (.head _)
  | plainLoader | plainLoaderWithStack => exact .tail _ (.tail _ (.head _))

/-- The words of a teller stand right in front of the quote. -/
theorem suffix_words (d : Diagnostic) : words d.teller <:+ d.lead.toList := by
  unfold lead
  cases d.teller with
  | typeChecker line column =>
    rw [String.toList_append]
    exact List.suffix_append ..
  | bundler | moduleLoader | plainLoader | plainLoaderWithStack => exact List.suffix_refl _

/-- What does not end the words in front of a name, and is not ended by them, does not end the
text in front of the name. -/
theorem not_suffix_lead {w : List Char}
    (h : ¬ w <:+ words d.teller ∧ ¬ words d.teller <:+ w) : ¬ w <:+ d.lead.toList := fun hw =>
  (List.suffix_or_suffix_of_suffix hw d.suffix_words).elim h.1 h.2

/-- What follows a name begins with a blank. -/
theorem head?_behind {rest : List Char} (hnext : Followed next rest) :
    ∀ x, (d.tail.toList ++ rest).head? = some x → x = ' ' ∨ x = '\n' := by
  obtain ⟨teller, file, specifier⟩ := d
  intro x hx
  cases teller with
  | typeChecker line column => exact .inr (hnext.head? x hx)
  | bundler | moduleLoader | plainLoader =>
    simp only [tail, String.toList_append] at hx
    exact .inl (Option.some.inj hx).symm
  | plainLoaderWithStack =>
    simp only [tail, String.toList_append] at hx
    exact .inr (Option.some.inj hx).symm

/-- A name that ends its line is followed by a line feed, if by anything. -/
theorem head?_behind_endsLine (hteller : d.teller.endsLine = true) {rest : List Char}
    (hnext : Followed next rest) :
    ∀ x, (d.tail.toList ++ rest).head? = some x → x = '\n' := by
  obtain ⟨teller, file, specifier⟩ := d
  intro x hx
  cases teller with
  | typeChecker line column => exact hnext.head? x hx
  | bundler | moduleLoader | plainLoader => cases hteller
  | plainLoaderWithStack =>
    simp only [tail, String.toList_append] at hx
    exact (Option.some.inj hx).symm

/-- The words with which the messages of the loaders open. -/
def openings : List (List Char) :=
  ["Cannot find module ".toList, "Cannot find package ".toList, "Error: Cannot find module ".toList]

/-- What a loader's message asks for in front of a name is one of its openings. -/
theorem mem_openings (hm : m = .moduleLoader ∨ m = .plainLoader) {w name behind : List Char}
    (h : m.Fits w name behind) : w ∈ openings := by
  rcases hm with rfl | rfl
  · rcases h.1 with rfl | rfl
    · exact .head _
    · exact .tail _ (.head _)
  · exact (show w = _ from h) ▸ .tail _ (.tail _ (.head _))

/-- The module loader goes on behind the quote with its words and a file. -/
theorem closes_iff {cs behind : List Char} :
    Message.moduleLoader.Closes true (cs ++ '\'' :: behind) ↔
      ∃ rest, cs = " imported from ".toList ++ rest ∧
        ∀ x, rest.head? = some x → isBlank x = false := by
  constructor
  · rintro ⟨x, more, heq, hx⟩
    obtain ⟨rest, hrest, hmore⟩ | ⟨rest, rfl, hmore⟩ := List.append_eq_append_iff.1 heq
    · cases rest with
      | nil => exact ⟨[], by simpa using hrest.symm, by simp⟩
      | cons y rest =>
        obtain rfl : '\'' = y := (List.cons.inj hmore).1
        have hquote : '\'' ∈ " imported from ".toList := hrest ▸ by simp
        exact absurd hquote (by decide)
    · refine ⟨rest, rfl, fun y hy => ?_⟩
      cases rest with
      | nil => cases hy
      | cons z rest =>
        obtain rfl : x = z := (List.cons.inj hmore).1
        exact Option.some.inj hy ▸ hx
  · rintro ⟨rest, rfl, hrest⟩
    cases rest with
    | nil => exact ⟨'\'', behind, by simp, by decide⟩
    | cons x rest => exact ⟨x, rest ++ '\'' :: behind, by simp, hrest x rfl⟩

/-- The first quote of a diagnostic, and whether the message of the module loader may end
there. -/
theorem Proper.exists_first_quote (hd : d.Proper) :
    ∃ front back, d.text.toList = front ++ '\'' :: back ∧ Unquoted front ∧
      ∀ more, Message.moduleLoader.Closes true (back ++ more) ↔ d.ContinuesImport := by
  by_cases hteller : d.teller = .bundler
  · refine ⟨"Module not found: Error: Can".toList,
      "t resolve ".toList ++ '\'' :: (d.specifier.toList ++ '\'' :: d.tail.toList), ?_, by decide,
      fun more => ⟨?_, fun h => absurd hteller h.1⟩⟩
    · simp [text, lead, hteller]
    · rintro ⟨x, rest, heq, -⟩
      exact absurd (congrArg List.head? heq) (by simp)
  · refine ⟨d.lead.toList, d.specifier.toList ++ '\'' :: d.tail.toList, d.toList_text,
      (hd.unquoted hteller).1, fun more => ?_⟩
    rw [List.append_assoc, List.cons_append, closes_iff]
    exact ⟨fun h => ⟨hteller, h⟩, fun h => h.2⟩

/-- What follows a name that is not the last one goes up to the first quote of the next
diagnostic. -/
theorem Followed.exists_quote {n : Diagnostic} (hd : d.Proper) (hteller : d.teller ≠ .bundler)
    {rest : List Char} (hnext : Followed (some n) rest) :
    ∃ name behind, d.tail.toList ++ rest = name ++ '\'' :: behind ∧ Unquoted name ∧
      '\n' ∈ name ∧ (Message.moduleLoader.Closes true behind ↔ n.ContinuesImport) := by
  obtain ⟨hn, more, rfl⟩ := hnext
  obtain ⟨front, back, htext, hfront, hcloses⟩ := hn.exists_first_quote
  refine ⟨d.tail.toList ++ '\n' :: front, back ++ more, ?_, ?_, by simp, hcloses more⟩
  · rw [htext]
    simp
  · exact List.forall_mem_append.2
      ⟨(hd.unquoted hteller).2, List.forall_mem_cons.2 ⟨by decide, hfront⟩⟩

/-- What follows the last name has no quote. -/
theorem Followed.not_quote (hd : d.Proper) (hteller : d.teller ≠ .bundler)
    {rest name behind : List Char} (hnext : Followed none rest) :
    d.tail.toList ++ rest ≠ name ++ '\'' :: behind := by
  intro heq
  have hquote : '\'' ∈ d.tail.toList := by
    rw [show rest = [] from hnext, List.append_nil] at heq
    exact heq ▸ by simp
  exact (hd.unquoted hteller).2 '\'' hquote rfl

/-- What follows a name that the bundler tells goes up to the quote in front of the file. -/
theorem tail_bundler (hteller : d.teller = .bundler) (rest : List Char) :
    d.tail.toList ++ rest = " in ".toList ++ '\'' :: (d.file.toList ++ '\'' :: rest) := by
  simp [tail, hteller]

/-- The name of a file does not begin as what the module loader goes on with. -/
theorem not_closes_file (hd : d.Proper) (behind : List Char) :
    ¬ Message.moduleLoader.Closes true (d.file.toList ++ behind) := by
  rintro ⟨x, more, heq, -⟩
  obtain ⟨y, ys, hfile⟩ := List.exists_cons_of_ne_nil (mt String.toList_eq_nil_iff.1 hd.file_ne)
  rw [hfile] at heq
  obtain rfl : y = ' ' := (List.cons.inj heq).1
  exact hd.file ' ' (hfile ▸ List.mem_cons_self) (by decide)

/-- **A message is found at a closing quote** exactly when the name ends with its words and
what follows fits. -/
theorem misleads_iff (hm : m ≠ .typeChecker) (hd : d.Proper)
    (hforeign : d.teller.isReadBy m = false) {rest : List Char} (hnext : Followed next rest) :
    d.Misleads next m ↔ ∃ w name behind, w <:+ d.specifier.toList ∧
      d.tail.toList ++ rest = name ++ '\'' :: behind ∧ Unquoted name ∧ m.Fits w name behind := by
  cases m with
  | typeChecker => exact absurd rfl hm
  | bundler =>
    -- it would go on with `t resolve`, and no blank stands in front of that
    refine ⟨False.elim, ?_⟩
    rintro ⟨w, name, behind, -, heq, -, -, rfl⟩
    exact absurd (head?_behind hnext 't' (by rw [heq]; rfl)) (by decide)
  | moduleLoader =>
    by_cases hteller : d.teller = .bundler
    · constructor
      · rintro ⟨-, hends, -⟩
        exact absurd hends (by rw [hteller]; decide)
      · rintro ⟨w, name, behind, -, heq, hname, -, hcloses⟩
        obtain ⟨-, rfl⟩ := quote_inj (by decide) hname ((tail_bundler hteller rest).symm.trans heq)
        exact absurd hcloses (not_closes_file hd _)
    · have hends := Teller.endsLine_of_not_isReadBy hteller hforeign
      constructor
      · rintro ⟨hwords, -, n, rfl, hn⟩
        obtain ⟨name, behind, heq, hname, -, hiff⟩ := hnext.exists_quote hd hteller
        rcases hwords with hw | hw
        · exact ⟨_, name, behind, hw, heq, hname, .inl rfl, hiff.2 hn⟩
        · exact ⟨_, name, behind, hw, heq, hname, .inr rfl, hiff.2 hn⟩
      · rintro ⟨w, name, behind, hw, heq, hname, hopens, hcloses⟩
        cases next with
        | none => exact absurd heq (hnext.not_quote hd hteller)
        | some n =>
          obtain ⟨name', behind', heq', hname', -, hiff⟩ := hnext.exists_quote hd hteller
          obtain ⟨-, rfl⟩ := quote_inj hname hname' (heq.symm.trans heq')
          rcases hopens with rfl | rfl
          · exact ⟨.inl hw, hends, n, rfl, hiff.1 hcloses⟩
          · exact ⟨.inr hw, hends, n, rfl, hiff.1 hcloses⟩
  | plainLoader =>
    by_cases hteller : d.teller = .bundler
    · constructor
      · rintro ⟨hw, -⟩
        exact ⟨_, _, _, hw, tail_bundler hteller rest, by decide, rfl⟩
      · rintro ⟨w, name, behind, hw, -, -, hopens⟩
        exact ⟨(show w = _ from hopens) ▸ hw, hforeign, fun _ => hteller⟩
    · constructor
      · rintro ⟨hw, -, hlast⟩
        cases next with
        | none => exact absurd (hlast rfl) hteller
        | some n =>
          obtain ⟨name, behind, heq, hname, -⟩ := hnext.exists_quote hd hteller
          exact ⟨_, name, behind, hw, heq, hname, rfl⟩
      · rintro ⟨w, name, behind, hw, heq, -, hopens⟩
        refine ⟨(show w = _ from hopens) ▸ hw, hforeign, fun hnone => ?_⟩
        subst hnone
        exact absurd heq (hnext.not_quote hd hteller)

/-! ### Diagnostics that a message does not read -/

/-- The text in front of a name that a message does not read does not end with its words. -/
theorem not_fits_lead (hm : m ≠ .typeChecker) (hforeign : d.teller.isReadBy m = false)
    (hteller : d.teller ≠ .bundler) {w name rest : List Char} (hnext : Followed next rest)
    (hw : w <:+ d.lead.toList) : ¬ m.Fits w name (d.tail.toList ++ rest) := by
  intro hfits
  -- what is in front of the name is compared, or what is behind it
  cases m with
  | typeChecker => exact hm rfl
  | bundler =>
    obtain ⟨rfl, -⟩ := hfits
    refine not_suffix_lead ?_ hw
    exact (by decide : ∀ v ∈ ["): error TS2307: Cannot find module ".toList,
      "Error [ERR_MODULE_NOT_FOUND]: Cannot find module ".toList,
      "Error: Cannot find module ".toList], ¬ "Module not found: Error: Can".toList <:+ v ∧
        ¬ v <:+ "Module not found: Error: Can".toList) _ (words_mem hteller)
  | moduleLoader =>
    obtain ⟨-, x, more, heq, -⟩ := hfits
    have hends := Teller.endsLine_of_not_isReadBy hteller hforeign
    exact absurd (head?_behind_endsLine hends hnext ' ' (by rw [heq]; rfl)) (by decide)
  | plainLoader =>
    obtain rfl : w = "Error: Cannot find module ".toList := hfits
    have hwords : words d.teller = "): error TS2307: Cannot find module ".toList ∨
        words d.teller = "Error [ERR_MODULE_NOT_FOUND]: Cannot find module ".toList := by
      revert hteller hforeign
      cases d.teller with
      | typeChecker line column => exact fun _ _ => .inl rfl
      | bundler => exact fun h _ => absurd rfl h
      | moduleLoader => exact fun _ _ => .inr rfl
      | plainLoader | plainLoaderWithStack => exact fun _ h => Bool.noConfusion h
    refine not_suffix_lead ?_ hw
    rcases hwords with h | h <;> rw [h] <;> decide

/-- A message of a loader, where the bundler's name is not its own. -/
theorem isLoader_of_bundler (hm : m ≠ .typeChecker) (hforeign : d.teller.isReadBy m = false)
    (hteller : d.teller = .bundler) : m = .moduleLoader ∨ m = .plainLoader := by
  cases m with
  | typeChecker => exact absurd rfl hm
  | bundler => exact absurd hforeign (by rw [hteller]; decide)
  | moduleLoader => exact .inl rfl
  | plainLoader => exact .inr rfl

/-- **Up to the name** there is nothing for a message that does not read it. -/
theorem exists_name (hm : m ≠ .typeChecker) (hd : d.Proper)
    (hforeign : d.teller.isReadBy m = false) (h : c.Passes d.text.toList e)
    (hnext : Followed next e.rest) :
    ∃ e₁, c.Passes (d.lead.toList ++ ['\'']) e₁ ∧
      e₁.Passes ((d.specifier.toList ++ ['\'']) ++ d.tail.toList) e ∧
      m.sightingsAt c = m.sightingsAt e₁ := by
  have hsplit : d.text.toList =
      (d.lead.toList ++ ['\'']) ++ ((d.specifier.toList ++ ['\'']) ++ d.tail.toList) := by
    simp [toList_text]
  obtain ⟨e₁, hlead, hname⟩ := (hsplit ▸ h).exists_between
  refine ⟨e₁, hlead, hname, congrArg (List.filterMap sighting?) ?_⟩
  -- the bundler has a quote in front of its name, in the word that is shortened
  by_cases hteller : d.teller = .bundler
  · have hloader := isLoader_of_bundler hm hforeign hteller
    have hcant : d.lead.toList ++ ['\''] = ("Module not found: Error: Can".toList ++ ['\'']) ++
        ("t resolve ".toList ++ ['\'']) := by
      simp [lead, hteller]
    obtain ⟨e₂, hcan, hresolve⟩ := (hcant ▸ hlead).exists_between
    rw [Message.matchesAt_up_to_quote hm hcan (by decide) fun w _ _ hw _ _ hfits =>
        (by decide : ∀ w ∈ openings, ¬ w <:+ "Module not found: Error: Can".toList) w
          (mem_openings hloader hfits) hw,
      Message.matchesAt_up_to_quote hm hresolve (by decide) fun w _ _ hw _ _ hfits =>
        (by decide : ∀ w ∈ openings, ¬ w <:+ "t resolve ".toList) w
          (mem_openings hloader hfits) hw]
  · refine Message.matchesAt_up_to_quote hm hlead (hd.unquoted hteller).1
      fun w name behind hw heq hunquoted => ?_
    have hrest : e₁.rest = d.specifier.toList ++ '\'' :: (d.tail.toList ++ e.rest) := by
      rw [hname.rest]
      simp
    obtain ⟨rfl, rfl⟩ := quote_inj hunquoted hd.specifier (heq.symm.trans hrest)
    exact not_fits_lead hm hforeign hteller hnext hw

/-- **From the name on** there is nothing for a message that does not read it and that it does
not mislead. -/
theorem sightingsAt_name (hm : m ≠ .typeChecker) (hd : d.Proper)
    (hforeign : d.teller.isReadBy m = false)
    (h : c.Passes ((d.specifier.toList ++ ['\'']) ++ d.tail.toList) e)
    (hnext : Followed next e.rest) (hmisleads : ¬ d.Misleads next m) :
    m.sightingsAt c = m.sightingsAt e := by
  obtain ⟨e₁, hname, htail⟩ := h.exists_between
  refine congrArg (List.filterMap sighting?) ?_
  rw [Message.matchesAt_up_to_quote hm hname hd.specifier
    fun w name behind hw heq hunquoted hfits => hmisleads ((misleads_iff hm hd hforeign hnext).2
      ⟨w, name, behind, hw, htail.rest ▸ heq, hunquoted, hfits⟩)]
  by_cases hteller : d.teller = .bundler
  · have hloader := isLoader_of_bundler hm hforeign hteller
    have hfile : ∀ w ∈ openings, ¬ w <:+ d.file.toList := fun w hw hsuffix =>
      hd.file ' ' (hsuffix.subset ((by decide : ∀ w ∈ openings, ' ' ∈ w) w hw)) (by decide)
    have hsplit : d.tail.toList = (" in ".toList ++ ['\'']) ++ (d.file.toList ++ ['\'']) := by
      simp [tail, hteller]
    obtain ⟨e₂, hin, hlast⟩ := (hsplit ▸ htail).exists_between
    rw [Message.matchesAt_up_to_quote hm hin (by decide) fun w _ _ hw _ _ hfits =>
        (by decide : ∀ w ∈ openings, ¬ w <:+ " in ".toList) w (mem_openings hloader hfits) hw,
      Message.matchesAt_up_to_quote hm hlast hd.file_unquoted fun w _ _ hw _ _ hfits =>
        hfile w (mem_openings hloader hfits) hw]
  · exact Message.matchesAt_up_to_line_end hm htail (hd.unquoted hteller).2 hnext.head?

/-- **A misleading diagnostic** leads to a sighting at its closing quote. -/
theorem exists_sighting_of_misleads (hm : m ≠ .typeChecker) (hd : d.Proper)
    (hforeign : d.teller.isReadBy m = false)
    (h : c.Passes ((d.specifier.toList ++ ['\'']) ++ d.tail.toList) e)
    (hnext : Followed next e.rest) (hmisleads : d.Misleads next m) :
    ∃ s ∈ m.sightingsAt c, s.position = c.position + d.specifier.toList.length + 1 := by
  have hloader : m = .moduleLoader ∨ m = .plainLoader := by
    cases m with
    | typeChecker | bundler => exact hmisleads.elim
    | moduleLoader => exact .inl rfl
    | plainLoader => exact .inr rfl
  obtain ⟨w, name, behind, ⟨front, hfront⟩, heq, hunquoted, hfits⟩ :=
    (misleads_iff hm hd hforeign hnext).1 hmisleads
  have hne : name ≠ [] := by
    rintro rfl
    exact absurd (head?_behind hnext '\'' (by rw [heq]; rfl)) (by decide)
  have hrest : c.rest = front ++ (w ++ '\'' :: (name ++ '\'' :: behind)) := by
    rw [h.rest, ← hfront, ← heq]
    simp
  obtain ⟨e₁, hpasses, hrest₁⟩ := Cursor.exists_passes hrest
  obtain ⟨e', caps, hleads⟩ := Message.exists_leads_of_fits hloader hrest₁ hne hunquoted hfits
  -- a match begins in front of the quote, perhaps earlier than where the words begin
  cases hmatch : m.pattern.matchAt? e₁ with
  | none => exact absurd hleads (matchAt?_eq_none_iff.1 hmatch e' caps)
  | some x =>
    obtain ⟨xs, e₂, x₂, ⟨ys, hys⟩, hpasses₂, hmatch₂, hmem⟩ := exists_mem_matchesAt hpasses hmatch
    obtain ⟨lead, name₂, behind₂, s, hrest₂, -, hopens, hs, hposition, -, -⟩ :=
      Message.exists_of_matchAt? hmatch₂
    refine ⟨s, List.mem_filterMap.2 ⟨x₂, hmem, hs⟩, ?_⟩
    have hlead : Unquoted lead := by
      rcases hloader with rfl | rfl
      · rcases hopens with rfl | rfl <;> decide
      · exact (show lead = _ from hopens) ▸ by decide
    have hend : Unquoted (ys ++ w) := fun y hy =>
      hd.specifier y (hfront ▸ hys ▸ by simpa [or_assoc] using .inr (List.mem_append.1 hy))
    have hsame : (ys ++ w) ++ '\'' :: (name ++ '\'' :: behind) =
        lead ++ '\'' :: (name₂ ++ '\'' :: behind₂) := by
      have hbehind : e₂.Passes ys e₁ := (hys ▸ hpasses).behind hpasses₂
      rw [← hrest₂, hbehind.rest, hrest₁, List.append_assoc]
    -- wherever it begins, its name begins behind the same quote
    obtain ⟨rfl, -⟩ := quote_inj hend hlead hsame
    rw [hposition, hpasses₂.position, ← hfront, ← hys]
    simp only [List.length_append]
    omega

end Diagnostic

end Signals
end Strata
