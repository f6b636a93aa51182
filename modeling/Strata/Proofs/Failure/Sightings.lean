/-
# What the messages see of a diagnostic

A message sees the name in each diagnostic of its own, and unless it is misled, nothing in
the others (`Diagnostic.sightingsAt_text`). A name may be seen by two messages:

| teller | seen by | with the file |
| --- | --- | --- |
| `typeChecker` | `typeChecker` | yes |
| `bundler` | `bundler` | yes |
| `moduleLoader` | `moduleLoader` | yes |
| `plainLoader` | `moduleLoader` | yes |
| | `plainLoader` | no |
| `plainLoaderWithStack` | `plainLoader` | yes |
-/

import Strata.Proofs.Failure.Diagnostics

namespace Strata
namespace Signals

open Text Pattern

namespace Diagnostic

variable {d : Diagnostic} {next : Option Diagnostic} {m : Message} {c e : Cursor}

/-- The file that a message reads. -/
def fileReadBy (d : Diagnostic) : Message → Option String
  | .plainLoader => if d.teller = .plainLoader then none else some d.file
  | .typeChecker | .bundler | .moduleLoader => some d.file

/-- What a message sees of a diagnostic that begins at this position. -/
def seenBy (d : Diagnostic) (n : Nat) (m : Message) : List Sighting :=
  if d.teller.isReadBy m then [⟨n + d.lead.toList.length + 1, ⟨d.fileReadBy m, d.specifier⟩⟩]
  else []

theorem seenBy_of_isReadBy (h : d.teller.isReadBy m = true) (n : Nat) :
    d.seenBy n m = [⟨n + d.lead.toList.length + 1, ⟨d.fileReadBy m, d.specifier⟩⟩] := if_pos h

theorem seenBy_of_not_isReadBy (h : d.teller.isReadBy m = false) (n : Nat) :
    d.seenBy n m = [] := if_neg (by simp [h])

/-! ### Diagnostics of a message's own -/

theorem Followed.isBlank_head? {rest : List Char} (h : Followed next rest) :
    ∀ x, rest.head? = some x → isBlank x = true := fun x hx => h.head? x hx ▸ by decide

theorem Proper.isBlank_file (hd : d.Proper) : ∀ x ∈ d.file.toList, isBlank x = false :=
  fun x hx => Bool.eq_false_iff.2 fun hblank => hd.file x hx (.inl hblank)

/-- A diagnostic that ends with the importing file is seen by the module loader. -/
theorem sightingsAt_imported {front : List Char} (hd : d.Proper) (h : c.Passes d.text.toList e)
    (hnext : Followed next e.rest) (hfront : Unquoted front)
    (hlead : d.lead.toList = front ++ "Cannot find module ".toList)
    (htail : d.tail.toList = " imported from ".toList ++ d.file.toList) :
    Message.moduleLoader.sightingsAt c =
      ⟨c.position + d.lead.toList.length + 1, d.missing⟩ ::
        Message.moduleLoader.sightingsAt e := by
  have hsplit : d.text.toList = front ++ ("Cannot find module '".toList ++
      (d.specifier.toList ++ "' imported from ".toList ++ d.file.toList)) := by
    simp [toList_text, hlead, htail]
  obtain ⟨e₁, hskip, hmessage⟩ := (hsplit ▸ h).exists_between
  have hrest : e₁.rest = "Cannot find module ".toList ++ '\'' :: (d.specifier.toList ++
      ("' imported from ".toList ++ (d.file.toList ++ e.rest))) := by
    rw [hmessage.rest]
    simp
  have hfront : Message.moduleLoader.sightingsAt c = Message.moduleLoader.sightingsAt e₁ := by
    refine congrArg (List.filterMap sighting?) ?_
    -- the words are a suffix of what stands in front of the quote, so they begin behind `front`
    refine Message.matchesAt_of_not_fits (by decide) hskip
      fun xs lead name behind hxs hne heq hlead' hname hfit => ?_
    have hunquoted : Unquoted (xs ++ "Cannot find module ".toList) :=
      List.forall_mem_append.2 ⟨fun x hx => hfront x (hxs.subset hx), by decide⟩
    rw [hrest, ← List.append_assoc] at heq
    obtain ⟨rfl, -⟩ := quote_inj hunquoted hlead' heq
    rcases hfit.1 with hword | hword
    · exact hne (List.append_left_eq_self.1 hword)
    · exact absurd (show "Cannot find module ".toList <:+ "Cannot find package ".toList from
        ⟨xs, hword⟩) (by decide)
  have hposition : e₁.position + 20 = c.position + d.lead.toList.length + 1 := by
    have hlength : "Cannot find module ".toList.length = 19 := rfl
    rw [hskip.position, hlead, List.length_append, hlength]
    omega
  rw [hfront, Message.sightingsAt_moduleLoader (mt String.toList_eq_nil_iff.1 hd.specifier_ne)
    hd.specifier (mt String.toList_eq_nil_iff.1 hd.file_ne)
    hd.isBlank_file hnext.isBlank_head? hmessage,
    String.ofList_toList, String.ofList_toList, hposition]
  rfl

/-- **A message reads its own diagnostics.** -/
theorem sightingsAt_own (hm : m ≠ .typeChecker) (hd : d.Proper) (hown : d.teller.isReadBy m = true)
    (h : c.Passes d.text.toList e) (hnext : Followed next e.rest) :
    m.sightingsAt c = d.seenBy c.position m ++ m.sightingsAt e := by
  have hne := mt String.toList_eq_nil_iff.1 hd.specifier_ne
  have hne' := mt String.toList_eq_nil_iff.1 hd.file_ne
  rw [seenBy_of_isReadBy hown]
  obtain ⟨teller, file, specifier⟩ := d
  -- one case for each message and each teller that it reads; the loaders share two of them
  match m, teller, hown with
  | .typeChecker, _, _ => exact absurd rfl hm
  | .bundler, .bundler, _ =>
    have hsplit : (text ⟨.bundler, file, specifier⟩).toList =
        "Module not found: Error: Can't resolve '".toList ++
          (specifier.toList ++ "' in '".toList ++ (file.toList ++ "'".toList)) := by
      simp [text, lead, tail]
    rw [Message.sightingsAt_bundler hne hd.specifier hne' hd.file_unquoted (hsplit ▸ h),
      String.ofList_toList, String.ofList_toList]
    simp [lead, fileReadBy]
  | .moduleLoader, .moduleLoader, _ =>
    have hlead : (lead ⟨.moduleLoader, file, specifier⟩).toList =
        "Error [ERR_MODULE_NOT_FOUND]: ".toList ++ "Cannot find module ".toList := by simp [lead]
    exact sightingsAt_imported hd h hnext (by decide) hlead (String.toList_append ..)
  | .moduleLoader, .plainLoader, _ =>
    have hlead : (lead ⟨.plainLoader, file, specifier⟩).toList =
        "Error: ".toList ++ "Cannot find module ".toList := by simp [lead]
    exact sightingsAt_imported hd h hnext (by decide) hlead (String.toList_append ..)
  | .plainLoader, .plainLoader, _ =>
    have hsplit : (text ⟨.plainLoader, file, specifier⟩).toList =
        ("Error: Cannot find module '".toList ++ (specifier.toList ++ "'".toList)) ++
          (" imported from " ++ file).toList := by
      simp [text, lead, tail]
    obtain ⟨e₁, hmessage, hback⟩ := (hsplit ▸ h).exists_between
    -- without the files the message ends at the quote, and what follows on the line holds no other
    have hend : " imported".toList <+: e₁.rest := by
      refine ⟨" from ".toList ++ (file.toList ++ e.rest), ?_⟩
      rw [hback.rest]
      simp
    have htail := (hd.unquoted (by simp)).2
    have hrest : Message.plainLoader.sightingsAt e₁ = Message.plainLoader.sightingsAt e :=
      congrArg (List.filterMap sighting?)
        (Message.matchesAt_up_to_line_end (by decide) hback htail hnext.head?)
    rw [Message.sightingsAt_plainLoader hne hd.specifier hend hmessage, hrest,
      String.ofList_toList]
    simp [lead, fileReadBy]
  | .plainLoader, .plainLoaderWithStack, _ =>
    have hsplit : (text ⟨.plainLoaderWithStack, file, specifier⟩).toList =
        "Error: Cannot find module '".toList ++ (specifier.toList ++ "'".toList) ++
          ("\nRequire stack:".toList ++ ("\n-".toList ++ (" ".toList ++ file.toList))) := by
      simp [text, lead, tail]
    rw [Message.sightingsAt_plainLoader_stack hne hd.specifier hne' hd.isBlank_file
      hnext.isBlank_head? (hsplit ▸ h), String.ofList_toList, String.ofList_toList]
    simp [lead, fileReadBy]

/-! ### Lines of the type checker -/

/-- The text of a diagnostic of the type checker, in parts. -/
theorem toList_text_typeChecker (line column file specifier : String) :
    (text ⟨.typeChecker line column, file, specifier⟩).toList =
      (TypeCheck.written file.toList line.toList column.toList specifier.toList).chars := by
  simp [text, lead, tail, TypeCheck.written, TypeCheck.chars, TypeCheck.front]

/-- The other diagnostics begin with a word that the type checker does not know. -/
theorem exists_words (hteller : ∀ line column, d.teller ≠ .typeChecker line column) :
    ∃ word y behind, d.text.toList = word ++ ' ' :: y :: behind ∧
      word ∈ ["Module".toList, "Error".toList, "Error:".toList] ∧ y ∈ ['n', '[', 'C'] := by
  obtain ⟨teller, file, specifier⟩ := d
  cases teller with
  | typeChecker line column => exact absurd rfl (hteller line column)
  | bundler =>
    refine ⟨"Module".toList, 'n', "ot found: Error: Can't resolve '".toList ++
      (specifier.toList ++ '\'' :: (" in '" ++ file ++ "'").toList), ?_, by decide, by decide⟩
    simp [text, lead, tail]
  | moduleLoader =>
    refine ⟨"Error".toList, '[', "ERR_MODULE_NOT_FOUND]: Cannot find module '".toList ++
      (specifier.toList ++ '\'' :: (" imported from " ++ file).toList), ?_, by decide, by decide⟩
    simp [text, lead, tail]
  | plainLoader =>
    refine ⟨"Error:".toList, 'C', "annot find module '".toList ++
      (specifier.toList ++ '\'' :: (" imported from " ++ file).toList), ?_, by decide, by decide⟩
    simp [text, lead, tail]
  | plainLoaderWithStack =>
    refine ⟨"Error:".toList, 'C', "annot find module '".toList ++
      (specifier.toList ++ '\'' :: ("\nRequire stack:\n- " ++ file).toList), ?_, by decide,
      by decide⟩
    simp [text, lead, tail]

/-- The first word of a diagnostic is none of those that the type checker writes in front of a
name. -/
theorem Proper.exists_word (hd : d.Proper) :
    ∃ word behind, d.text.toList = word ++ ' ' :: behind ∧ word ≠ [] ∧
      (∀ x ∈ word, isBlank x = false) ∧ word ≠ "error".toList := by
  by_cases hteller : ∀ line column, d.teller ≠ .typeChecker line column
  · obtain ⟨word, y, behind, htext, hword, -⟩ := exists_words hteller
    obtain ⟨hne, hblank, herror⟩ := (by decide : ∀ word ∈
      ["Module".toList, "Error".toList, "Error:".toList],
      word ≠ [] ∧ (∀ x ∈ word, isBlank x = false) ∧ word ≠ "error".toList) word hword
    exact ⟨word, _, htext, hne, hblank, herror⟩
  · simp only [ne_eq, not_forall, not_not] at hteller
    obtain ⟨line, column, hteller⟩ := hteller
    obtain ⟨teller, file, specifier⟩ := d
    obtain rfl : teller = .typeChecker line column := hteller
    obtain ⟨hline, hcolumn⟩ : IsNumber line.toList ∧ IsNumber column.toList := hd.place
    refine ⟨file.toList ++ '(' :: (line.toList ++ ',' :: (column.toList ++ "):".toList)),
      "error TS2307: Cannot find module '".toList ++ (specifier.toList ++ ['\'']), ?_, by simp, ?_,
      fun heq => ?_⟩
    · simp [text, lead, tail]
    · simp only [List.forall_mem_append, List.forall_mem_cons]
      exact ⟨hd.isBlank_file, by decide, isBlank_eq_false_of_isNumber hline, by decide,
        isBlank_eq_false_of_isNumber hcolumn, by decide⟩
    · have hopen : '(' ∈ "error".toList := heq ▸ by simp
      exact absurd hopen (by decide)

/-- A diagnostic without a list of files is on one line. -/
theorem Proper.feed_not_mem (hd : d.Proper) (hteller : d.teller ≠ .plainLoaderWithStack) :
    '\n' ∉ d.text.toList := by
  have hfile : '\n' ∉ d.file.toList := fun hmem => hd.file '\n' hmem (by decide)
  have hspecifier := hd.specifier_line
  obtain ⟨teller, file, specifier⟩ := d
  cases teller with
  | typeChecker line column =>
    have hdigit : ∀ {cs : List Char}, IsNumber cs → '\n' ∉ cs := fun hcs hmem =>
      absurd (hcs.2 _ hmem) (by decide)
    obtain ⟨hline, hcolumn⟩ : IsNumber line.toList ∧ IsNumber column.toList := hd.place
    simp only [text, lead, tail, String.toList_append, List.mem_append, not_or]
    exact ⟨⟨⟨⟨⟨⟨⟨⟨⟨hfile, by decide⟩, hdigit hline⟩, by decide⟩, hdigit hcolumn⟩, by decide⟩,
      by decide⟩, hspecifier⟩, by decide⟩, by decide⟩
  | bundler =>
    simp only [text, lead, tail, String.toList_append, List.mem_append, not_or]
    exact ⟨⟨⟨⟨by decide, by decide⟩, hspecifier⟩, by decide⟩, ⟨by decide, hfile⟩, by decide⟩
  | moduleLoader | plainLoader =>
    simp only [text, lead, tail, String.toList_append, List.mem_append, not_or]
    exact ⟨⟨⟨⟨by decide, by decide⟩, hspecifier⟩, by decide⟩, by decide, hfile⟩
  | plainLoaderWithStack => exact absurd rfl hteller

/-- The message of the type checker does not begin on the lines that list files. -/
theorem sightingsAt_stack {file specifier : String}
    (hd : Proper ⟨.plainLoaderWithStack, file, specifier⟩)
    (h : c.Passes (text ⟨.plainLoaderWithStack, file, specifier⟩).toList e)
    (hnext : Followed next e.rest) (hnone : typeCheckerMessage.matchAt? c = none) :
    Message.typeChecker.sightingsAt c = Message.typeChecker.sightingsAt e := by
  have hsplit : (text ⟨.plainLoaderWithStack, file, specifier⟩).toList =
      (("Error: Cannot find module '" ++ specifier ++ "'").toList ++ ['\n']) ++
        (("Require stack:".toList ++ ['\n']) ++ ('-' :: ' ' :: file.toList)) := by
    simp [text, lead, tail]
  obtain ⟨e₁, hone, h⟩ := (hsplit ▸ h).exists_between
  obtain ⟨e₂, htwo, hthree⟩ := h.exists_between
  -- the diagnostic takes three lines, and the message begins on none of them
  have hline : '\n' ∉ (("Error: Cannot find module '" ++ specifier ++ "'").toList ++
      ['\n']).dropLast := by
    rw [List.dropLast_concat]
    simp only [String.toList_append, List.mem_append, not_or]
    exact ⟨⟨by decide, hd.specifier_line⟩, by decide⟩
  have hrequire : typeCheckerMessage.matchAt? e₁ = none := by
    have hrest : e₁.rest = "Require".toList ++ ' ' :: 's' :: ("tack:\n".toList ++ e₂.rest) :=
      htwo.rest
    exact matchAt?_eq_none_of_word (by decide) (by decide) (by decide) hrest
  have hlisted : typeCheckerMessage.matchAt? e₂ = none := by
    refine matchAt?_eq_none_of_listed (mt String.toList_eq_nil_iff.1 hd.file_ne) hd.file
      hnext.head? (fun more hmore => ?_) hthree.rest
    -- a file on the last line is followed by nothing or by the next diagnostic
    cases next with
    | none => cases (show e.rest = [] from hnext).symm.trans hmore
    | some n =>
      obtain ⟨hn, behind, hbehind⟩ := hnext
      obtain ⟨word, middle, htext, hword⟩ := hn.exists_word
      obtain rfl := (List.cons.inj (hmore.symm.trans hbehind)).2
      exact ⟨word, middle ++ behind, by simp [htext], hword⟩
  have hfile : '\n' ∉ ('-' :: ' ' :: file.toList).dropLast := fun hmem => by
    have hmem : '\n' ∈ file.toList := by simpa using (List.dropLast_prefix _).subset hmem
    exact hd.file '\n' hmem (by decide)
  rw [Message.sightingsAt_typeChecker_line hone hline hnone,
    Message.sightingsAt_typeChecker_line htwo (by decide) hrequire,
    Message.sightingsAt_typeChecker_line hthree hfile hlisted]

/-- **The message of the type checker** sees its own diagnostics. -/
theorem sightingsAt_typeChecker (hd : d.Proper) (hstart : Place.lineStart.holds c = true)
    (h : c.Passes d.text.toList e) (hnext : Followed next e.rest) :
    Message.typeChecker.sightingsAt c =
      d.seenBy c.position .typeChecker ++ Message.typeChecker.sightingsAt e := by
  -- a diagnostic of another teller begins with a word that the message does not begin with
  by_cases hteller : ∀ line column, d.teller ≠ .typeChecker line column
  · have hnone : typeCheckerMessage.matchAt? c = none := by
      obtain ⟨word, y, behind, htext, hword, hy⟩ := exists_words hteller
      have hblank := (by decide : ∀ word ∈ ["Module".toList, "Error".toList, "Error:".toList],
        ∀ x ∈ word, isBlank x = false) word hword
      obtain ⟨hblank', hne⟩ := (by decide : ∀ y ∈ ['n', '[', 'C'],
        isBlank y = false ∧ y ∉ [':', '-', 'e', 'T']) y hy
      have hrest : c.rest = word ++ ' ' :: y :: (behind ++ e.rest) := by
        rw [h.rest, htext]
        simp
      exact matchAt?_eq_none_of_word hblank hblank' hne hrest
    by_cases hstack : d.teller = .plainLoaderWithStack
    · obtain ⟨teller, file, specifier⟩ := d
      obtain rfl : teller = .plainLoaderWithStack := hstack
      exact sightingsAt_stack hd h hnext hnone
    · have hline : '\n' ∉ d.text.toList.dropLast := fun hmem =>
        hd.feed_not_mem hstack ((List.dropLast_prefix _).subset hmem)
      have hforeign : d.teller.isReadBy .typeChecker = false := by
        cases ht : d.teller with
        | typeChecker line column => exact absurd ht (hteller line column)
        | bundler | moduleLoader | plainLoader | plainLoaderWithStack => rfl
      rw [Message.sightingsAt_typeChecker_line h hline hnone, seenBy_of_not_isReadBy hforeign,
        List.nil_append]
  · simp only [ne_eq, not_forall, not_not] at hteller
    obtain ⟨line, column, hteller⟩ := hteller
    obtain ⟨teller, file, specifier⟩ := d
    obtain rfl : teller = .typeChecker line column := hteller
    obtain ⟨hline, hcolumn⟩ : IsNumber line.toList ∧ IsNumber column.toList := hd.place
    have hproper := TypeCheck.proper_written (mt String.toList_eq_nil_iff.1 hd.file_ne) hd.file
      hline hcolumn (mt String.toList_eq_nil_iff.1 hd.specifier_ne) hd.specifier
    rw [Message.sightingsAt_typeChecker hproper hline hcolumn hstart
      (toList_text_typeChecker .. ▸ h), String.ofList_toList, String.ofList_toList]
    have hlead : (lead ⟨.typeChecker line column, file, specifier⟩).toList =
        (TypeCheck.written file.toList line.toList column.toList specifier.toList).front ++
          "error TS2307: Cannot find module ".toList := by
      simp [lead, TypeCheck.written, TypeCheck.front]
    have hlength : "error TS2307: Cannot find module ".toList.length = 33 := rfl
    rw [seenBy_of_isReadBy rfl]
    simp only [fileReadBy, hlead, List.length_append, hlength, List.singleton_append,
      ← Nat.add_assoc]

/-- **What a message sees of a diagnostic**, unless it is misled. -/
theorem sightingsAt_text (hd : d.Proper) (hstart : Place.lineStart.holds c = true)
    (h : c.Passes d.text.toList e) (hnext : Followed next e.rest)
    (hmisleads : ¬ d.Misleads next m) :
    m.sightingsAt c = d.seenBy c.position m ++ m.sightingsAt e := by
  by_cases hm : m = .typeChecker
  · exact hm ▸ sightingsAt_typeChecker hd hstart h hnext
  · cases hread : d.teller.isReadBy m with
    | true => exact sightingsAt_own hm hd hread h hnext
    | false =>
      obtain ⟨e₁, -, hname, hfront⟩ := exists_name hm hd hread h hnext
      rw [seenBy_of_not_isReadBy hread, List.nil_append, hfront,
        sightingsAt_name hm hd hread hname hnext hmisleads]

/-- A diagnostic does not end with a line feed. -/
theorem Proper.getLast?_text (hd : d.Proper) :
    ∃ x, d.text.toList.getLast? = some x ∧ x ≠ '\n' := by
  have hfile : ∀ front : List Char, ∃ x, (front ++ d.file.toList).getLast? = some x ∧ x ≠ '\n' := by
    intro front
    have hne := mt String.toList_eq_nil_iff.1 hd.file_ne
    rw [List.getLast?_append_of_ne_nil _ hne, List.getLast?_eq_some_getLast hne]
    refine ⟨_, rfl, fun heq => ?_⟩
    exact hd.file _ (List.getLast_mem hne) (heq ▸ by decide)
  have hquote : ∀ front : List Char, ∃ x, (front ++ "'".toList).getLast? = some x ∧ x ≠ '\n' :=
    fun front => ⟨'\'', List.getLast?_concat, by decide⟩
  obtain ⟨teller, file, specifier⟩ := d
  simp only [text, tail, String.toList_append]
  cases teller with
  | typeChecker line column =>
    simp only [String.toList_empty, List.append_nil]
    exact hquote _
  | bundler =>
    simp only [String.toList_append, ← List.append_assoc]
    exact hquote _
  | moduleLoader | plainLoader | plainLoaderWithStack =>
    simp only [String.toList_append, ← List.append_assoc]
    exact hfile _

/-- The line feed behind a diagnostic leads to the next line. -/
theorem sightingsAt_feed {e' : Cursor} (m : Message) (hd : d.Proper) (h : c.Passes d.text.toList e)
    (hfeed : e.Passes ['\n'] e') :
    m.sightingsAt e = m.sightingsAt e' ∧ Place.lineStart.holds e' = true := by
  refine ⟨?_, ?_⟩
  · by_cases hm : m = .typeChecker
    · subst hm
      obtain ⟨x, hlast, hx⟩ := hd.getLast?_text
      refine Message.sightingsAt_typeChecker_line hfeed (by simp) (matchAt?_eq_none_of_inside ?_)
      rw [Place.holds, h.before, hlast]
      exact beq_eq_false_iff_ne.2 hx
    · exact congrArg (List.filterMap sighting?) (Message.matchesAt_feed hm hfeed)
  · rw [Place.holds, hfeed.before]
    rfl

end Diagnostic

end Signals
end Strata
