/-
# What the messages about a missing module tell

Each message reads a name between two quotes and has words of its own around it
(`Message.exists_of_leads`):

| message | in front of the name | behind it |
| --- | --- | --- |
| `typeChecker` | `error TS2307: Cannot find module` | |
| `bundler` | `Module not found: Error: Can't resolve` | `in` and the file between quotes |
| `moduleLoader` | `Cannot find module`, `Cannot find package` | `imported from` and the file |
| `plainLoader` | `Error: Cannot find module` | perhaps a list of files |

Only quotes end a name, not the end of its line. So whether a message begins somewhere is told
by the text up to the second quote from there (`Message.Fits`). It begins nowhere else
(`Message.matchesAt_of_not_fits`), and the message of a loader begins wherever that text fits
(`Message.exists_leads_of_fits`).
-/

import Strata.Proofs.Failure.TypeCheck

namespace Strata

namespace Signals

open Text Pattern

/-- What a match tells. -/
def sighting? (m : Match) : Option Sighting :=
  (m.part? "import").map fun span =>
    ⟨span.start, ⟨(m.part? "file").map fun f => String.ofList f.text, String.ofList span.text⟩⟩

/-- The messages about a missing module. -/
inductive Message where
  | typeChecker
  | bundler
  | moduleLoader
  | plainLoader
  deriving Repr, DecidableEq

namespace Message

/-- The pattern of a message. -/
def pattern : Message → Pattern
  | typeChecker => typeCheckerMessage
  | bundler => bundlerMessage
  | moduleLoader => moduleLoaderMessage
  | plainLoader => plainLoaderMessage

/-- The messages, in the order in which they are looked for. -/
def all : List Message := [typeChecker, bundler, moduleLoader, plainLoader]

theorem mem_all (m : Message) : m ∈ all := by cases m <;> decide

theorem missingModuleMessages_eq : missingModuleMessages = all.map pattern := rfl

/-- What a message has in front of the opening quote of the name. -/
def Opens : Message → List Char → Prop
  | typeChecker, lead => "error TS2307: Cannot find module ".toList <:+ lead
  | bundler, lead => lead = "Module not found: Error: Can't resolve ".toList
  | moduleLoader, lead =>
    lead = "Cannot find module ".toList ∨ lead = "Cannot find package ".toList
  | plainLoader, lead => lead = "Error: Cannot find module ".toList

/-- What a message that tells the file, or does not, has behind the closing quote. -/
def Closes : Message → (told : Bool) → List Char → Prop
  | typeChecker, _, _ => True
  | bundler, _, behind => " in '".toList <+: behind
  | moduleLoader, _, behind =>
    ∃ x rest, behind = " imported from ".toList ++ x :: rest ∧ isBlank x = false
  | plainLoader, told, behind => told = true → ∃ x rest, behind = x :: rest ∧ isBlank x = true

variable {m : Message} {c d : Cursor} {caps caps' : Captures}

theorem isVisible_iff {x : Char} : isVisible x = true ↔ isBlank x = false := by
  simp [isVisible]

theorem isVisible_eq_false_iff {x : Char} : isVisible x = false ↔ isBlank x = true := by
  simp [isVisible]

/-- **Every way of a message reads a name between two quotes.** -/
theorem exists_of_leads (h : m.pattern.Leads c [] d caps) :
    ∃ lead name behind, c.rest = lead ++ '\'' :: (name ++ '\'' :: behind) ∧ name ≠ [] ∧
      Unquoted name ∧ m.Opens lead ∧ m.Closes (caps.lookup "file").isSome behind ∧
      caps.lookup "import" = some ⟨c.position + lead.length + 1, name⟩ := by
  cases m with
  | typeChecker =>
    obtain ⟨-, r, hr, hpasses, rfl⟩ := leads_typeCheckerMessage.1 h
    refine ⟨r.front ++ "error TS2307: Cannot find module ".toList, r.name, d.rest, ?_, hr.name_ne,
      hr.name, List.suffix_append .., trivial, ?_⟩
    · rw [hpasses.rest, TypeCheck.chars]
      simp
    · rw [List.length_append, ← Nat.add_assoc]
      rfl
  | bundler =>
    simp only [pattern, bundlerMessage, missingName, leads_sequence_cons, leads_sequence_nil,
      leads_text, leads_named_greedyPlus] at h
    obtain ⟨e₁, _, ⟨hopen, rfl⟩, e₂, _, ⟨name, hne, hname, hpasses, rfl⟩, e₃, _, ⟨hclose, rfl⟩, e₄,
      _, ⟨file, -, -, hfile, rfl⟩, e₅, _, ⟨hend, rfl⟩, rfl, rfl⟩ := h
    refine ⟨_, name, " in '".toList ++ e₃.rest, ?_, hne, fun x hx => noneOf_quote.1 (hname x hx),
      rfl, List.prefix_append .., ?_⟩
    · rw [hopen.rest, hpasses.rest, hclose.rest]
      simp
    · rw [hopen.position]
      rfl
  | moduleLoader =>
    simp only [pattern, moduleLoaderMessage, missingName, leads_sequence_cons, leads_sequence_nil,
      leads_text, leads_named_greedyPlus, leads_either_text] at h
    obtain ⟨e₁, _, ⟨hfind, rfl⟩, e₂, _, ⟨w, hw, hword, rfl⟩, e₃, _, ⟨hquote, rfl⟩, e₄, _,
      ⟨name, hne, hname, hpasses, rfl⟩, e₅, _, ⟨hclose, rfl⟩, e₆, _,
      ⟨file, hfile, hvisible, hpasses', rfl⟩, rfl, rfl⟩ := h
    obtain ⟨x, file, rfl⟩ := List.exists_cons_of_ne_nil hfile
    have hx := hvisible x List.mem_cons_self
    refine ⟨"Cannot find ".toList ++ w ++ [' '], name, _, ?_, hne,
      fun y hy => noneOf_quote.1 (hname y hy), ?_, ⟨x, file ++ d.rest, rfl, isVisible_iff.1 hx⟩, ?_⟩
    · rw [hfind.rest, hword.rest, hquote.rest, hpasses.rest, hclose.rest, hpasses'.rest]
      simp
    · rcases hw with rfl | rfl
      · exact .inl rfl
      · exact .inr rfl
    · have hposition : e₃.position =
          c.position + ("Cannot find ".toList ++ w ++ [' ']).length + 1 := by
        have hlength : " '".toList.length = [' '].length + 1 := rfl
        rw [hquote.position, hword.position, hfind.position, hlength]
        simp only [List.length_append]
        omega
      rw [hposition]
      rfl
  | plainLoader =>
    simp only [pattern, plainLoaderMessage, missingName, leads_sequence_cons, leads_sequence_nil,
      leads_text, leads_named_greedyPlus] at h
    obtain ⟨e₁, _, ⟨hopen, rfl⟩, e₂, _, ⟨name, hne, hname, hpasses, rfl⟩, e₃, _, ⟨hclose, rfl⟩, e₄,
      _, hstack, rfl, rfl⟩ := h
    refine ⟨_, name, e₃.rest, ?_, hne, fun x hx => noneOf_quote.1 (hname x hx), rfl, ?_⟩
    · rw [hopen.rest, hpasses.rest, hclose.rest]
      simp
    · have hposition : e₁.position = c.position + "Error: Cannot find module ".toList.length + 1 :=
        hopen.position
      rw [← hposition]
      -- a file is told only behind blanks and a line feed
      rcases hstack with hstack | ⟨-, rfl⟩
      · simp only [leads_sequence_cons, leads_sequence_nil, leads_text, leads_named_greedyPlus]
          at hstack
        obtain ⟨e₅, _, ⟨⟨blanks, hblanks, hgap⟩, rfl⟩, e₆, _, ⟨hrequire, rfl⟩, e₇, _, ⟨-, rfl⟩, e₈,
          _, ⟨-, rfl⟩, e₉, _, ⟨-, rfl⟩, e₁₀, _, ⟨file, -, -, -, rfl⟩, -, rfl⟩ := hstack
        refine ⟨fun _ => ?_, rfl⟩
        rw [hgap.rest, hrequire.rest]
        cases blanks with
        | nil => exact ⟨'\n', _, rfl, rfl⟩
        | cons x blanks => exact ⟨x, _, rfl, hblanks x List.mem_cons_self⟩
      · exact ⟨fun h => absurd h Bool.noConfusion, rfl⟩

/-! ### The first two quotes -/

/-- What a message needs in front of a quote, up to the next one, and behind that. The
message of the type checker is told by its line instead. -/
def Fits : Message → (lead name behind : List Char) → Prop
  | typeChecker, _, _, _ => True
  | bundler, lead, name, _ =>
    lead = "Module not found: Error: Can".toList ∧ name = "t resolve ".toList
  | moduleLoader, lead, _, behind => moduleLoader.Opens lead ∧ moduleLoader.Closes true behind
  | plainLoader, lead, _, _ => plainLoader.Opens lead

/-- **A message begins only where the text up to the second quote fits it.** -/
theorem exists_fits_of_leads (hm : m ≠ .typeChecker) (h : m.pattern.Leads c [] d caps) :
    ∃ lead name behind, c.rest = lead ++ '\'' :: (name ++ '\'' :: behind) ∧ Unquoted lead ∧
      Unquoted name ∧ m.Fits lead name behind := by
  obtain ⟨lead, name, behind, hrest, -, hname, hopens, hcloses, -⟩ := exists_of_leads h
  cases m with
  | typeChecker => exact absurd rfl hm
  | bundler =>
    have hcant : "Module not found: Error: Can't resolve ".toList =
        "Module not found: Error: Can".toList ++ '\'' :: "t resolve ".toList := by decide
    rw [show lead = _ from hopens, hcant, List.append_assoc, List.cons_append] at hrest
    exact ⟨_, _, _, hrest, by decide, by decide, rfl, rfl⟩
  | moduleLoader =>
    refine ⟨lead, name, behind, hrest, ?_, hname, hopens, hcloses⟩
    rcases hopens with rfl | rfl <;> decide
  | plainLoader =>
    obtain rfl := hopens
    exact ⟨_, name, behind, hrest, by decide, hname, rfl⟩

theorem Fits.lead_ne_nil (hm : m ≠ .typeChecker) {lead name behind : List Char}
    (h : m.Fits lead name behind) : lead ≠ [] ∧ '\n' ∉ lead := by
  cases m with
  | typeChecker => exact absurd rfl hm
  | bundler => exact h.1 ▸ by decide
  | moduleLoader => rcases h.1 with rfl | rfl <;> decide
  | plainLoader => exact (show lead = _ from h) ▸ by decide

/-- **Where nothing fits, no message begins.** -/
theorem matchesAt_of_not_fits (hm : m ≠ .typeChecker) {run : List Char} (h : c.Passes run d)
    (hfits : ∀ xs lead name behind, xs <:+ run → xs ≠ [] →
      xs ++ d.rest = lead ++ '\'' :: (name ++ '\'' :: behind) → Unquoted lead → Unquoted name →
      ¬ m.Fits lead name behind) :
    m.pattern.matchesAt c = m.pattern.matchesAt d := by
  refine matchesAt_of_none h fun xs ys e hsplit hne hpasses => matchAt?_eq_none_iff.2 ?_
  intro d' caps' hleads
  obtain ⟨lead, name, behind, hrest, hlead, hname, hfit⟩ := exists_fits_of_leads hm hleads
  have hbehind : e.rest = ys ++ d.rest := ((hsplit ▸ h).behind hpasses).rest
  exact hfits ys lead name behind ⟨xs, hsplit.symm⟩ hne (hbehind ▸ hrest) hlead hname hfit

/-- A stretch up to a quote is left out when no end of it fits. -/
theorem matchesAt_up_to_quote (hm : m ≠ .typeChecker) {run : List Char}
    (h : c.Passes (run ++ ['\'']) d) (hrun : Unquoted run)
    (hfits : ∀ lead name behind, lead <:+ run → d.rest = name ++ '\'' :: behind → Unquoted name →
      ¬ m.Fits lead name behind) :
    m.pattern.matchesAt c = m.pattern.matchesAt d := by
  refine matchesAt_of_not_fits hm h fun xs lead name behind hxs hne heq hlead hname => ?_
  obtain hnil | ⟨lead', rfl, hlead'⟩ := List.suffix_concat_iff.1 hxs
  · exact absurd hnil hne
  · rw [List.append_assoc, List.singleton_append] at heq
    obtain ⟨rfl, hrest⟩ :=
      quote_inj (fun x hx => hrun x (hlead'.subset hx)) hlead heq
    exact hfits _ _ _ hlead' hrest hname

/-- A stretch without quotes is left out when the line ends behind it. -/
theorem matchesAt_up_to_line_end (hm : m ≠ .typeChecker) {run : List Char} (h : c.Passes run d)
    (hrun : Unquoted run) (hline : ∀ x, d.rest.head? = some x → x = '\n') :
    m.pattern.matchesAt c = m.pattern.matchesAt d := by
  refine matchesAt_of_not_fits hm h fun xs lead name behind hxs hne heq hlead _ hfit => ?_
  have hxs : Unquoted xs := fun x hx => hrun x (hxs.subset hx)
  have hquote : ∀ rest, d.rest ≠ '\'' :: rest := fun rest hrest =>
    absurd (hline '\'' (by rw [hrest]; rfl)) (by decide)
  obtain ⟨middle, rfl, hrest⟩ | ⟨middle, rfl, hrest⟩ := List.append_eq_append_iff.1 heq
  · cases middle with
    | nil => exact hquote _ hrest
    | cons x middle =>
      obtain rfl : x = '\n' := hline x (by rw [hrest]; rfl)
      exact (Fits.lead_ne_nil hm hfit).2 (by simp)
  · cases middle with
    | nil => exact hquote _ hrest.symm
    | cons x middle =>
      obtain rfl : '\'' = x := (List.cons.inj hrest).1
      exact hxs '\'' (by simp) rfl

/-- A line feed is left out. -/
theorem matchesAt_feed (hm : m ≠ .typeChecker) (h : c.Passes ['\n'] d) :
    m.pattern.matchesAt c = m.pattern.matchesAt d := by
  refine matchesAt_of_not_fits hm h fun xs lead name behind hxs hne heq hlead _ hfit => ?_
  obtain ⟨hlead_ne, hfeed⟩ := Fits.lead_ne_nil hm hfit
  obtain ⟨x, lead, rfl⟩ := List.exists_cons_of_ne_nil hlead_ne
  obtain rfl : xs = ['\n'] := by simpa [hne] using List.suffix_cons_iff.1 hxs
  obtain rfl : '\n' = x := (List.cons.inj heq).1
  exact hfeed List.mem_cons_self

/-- At the end of a text there is no message. -/
theorem matchesAt_end (m : Message) (h : c.rest = []) : m.pattern.matchesAt c = [] := by
  have hnone : m.pattern.matchAt? c = none := by
    refine matchAt?_eq_none_iff.2 fun d caps hleads => ?_
    obtain ⟨lead, name, behind, hrest, -⟩ := exists_of_leads hleads
    simp [h] at hrest
  obtain ⟨before, rest, n⟩ := c
  obtain rfl : rest = [] := h
  rw [matchesAt, matchesFrom, hnone]
  rfl

/-! ### The sightings of a message -/

/-- The sightings of a message from a cursor on. -/
def sightingsAt (m : Message) (c : Cursor) : List Sighting :=
  (m.pattern.matchesAt c).filterMap sighting?

theorem sightingsAt_start (m : Message) (cs : List Char) :
    m.sightingsAt (.start cs) = sightingsOf m.pattern cs := rfl

/-- A match tells a name between two quotes. -/
theorem exists_of_matchAt? {x : Match} (h : m.pattern.matchAt? c = some x) :
    ∃ lead name behind s, c.rest = lead ++ '\'' :: (name ++ '\'' :: behind) ∧ Unquoted name ∧
      m.Opens lead ∧ sighting? x = some s ∧ s.position = c.position + lead.length + 1 ∧
      s.missing.specifier = String.ofList name ∧ m.Closes s.missing.file.isSome behind := by
  obtain ⟨d, caps, hleads, hx⟩ := exists_of_matchThen h
  obtain ⟨lead, name, behind, hrest, -, hname, hopens, hcloses, hlookup⟩ := exists_of_leads hleads
  obtain rfl := Option.some.inj hx
  refine ⟨lead, name, behind, ⟨c.position + lead.length + 1,
    ⟨(caps.lookup "file").map fun f => String.ofList f.text, String.ofList name⟩⟩, hrest, hname,
    hopens, ?_, rfl, rfl, ?_⟩
  · have hpart : (Match.mk (c.spanTo d) caps).part? "import" =
        some ⟨c.position + lead.length + 1, name⟩ := hlookup
    rw [sighting?, hpart]
    rfl
  · rwa [Option.isSome_map]

/-- **Every sighting is of a name between two quotes**, behind the words of its message. -/
theorem exists_of_mem_sightingsOf {s : Sighting} {cs : List Char}
    (h : s ∈ sightingsOf m.pattern cs) :
    ∃ front name behind, cs = front ++ '\'' :: (name ++ '\'' :: behind) ∧
      s.position = front.length + 1 ∧ Unquoted name ∧ s.missing.specifier = String.ofList name ∧
      (∃ lead, lead <:+ front ∧ m.Opens lead) ∧ m.Closes s.missing.file.isSome behind := by
  obtain ⟨x, hx, hs⟩ := List.mem_filterMap.1 h
  obtain ⟨run, e, hpasses, hmatch⟩ := exists_of_mem_matchesFrom (c := .start cs) hx
  obtain ⟨lead, name, behind, s', hrest, hname, hopens, hs', hposition, hspecifier, hcloses⟩ :=
    exists_of_matchAt? hmatch
  obtain rfl := Option.some.inj (hs'.symm.trans hs)
  have hstart : e.position = 0 + run.length := hpasses.position
  refine ⟨run ++ lead, name, behind, ?_, ?_, hname, hspecifier,
    ⟨lead, List.suffix_append .., hopens⟩, hcloses⟩
  · rw [List.append_assoc, ← hrest]
    exact hpasses.rest
  · rw [hposition, hstart, List.length_append]
    omega

/-- **A loader's message begins wherever the text up to the second quote fits it.** -/
theorem exists_leads_of_fits (hm : m = .moduleLoader ∨ m = .plainLoader)
    {lead name behind : List Char} (hrest : c.rest = lead ++ '\'' :: (name ++ '\'' :: behind))
    (hne : name ≠ []) (hname : Unquoted name) (hfits : m.Fits lead name behind) :
    ∃ d caps, m.pattern.Leads c [] d caps := by
  have hname' : ∀ x ∈ name, noneOf "'" x = true := fun x hx => noneOf_quote.2 (hname x hx)
  -- the text in front of the quote is all that the message asks for up to there
  rcases hm with rfl | rfl
  · obtain ⟨hopens, x, rest, rfl, hx⟩ := hfits
    obtain ⟨w, hw, hlead⟩ : ∃ w, (w = "module".toList ∨ w = "package".toList) ∧
        lead ++ ['\''] = "Cannot find ".toList ++ (w ++ " '".toList) := by
      rcases hopens with rfl | rfl
      · exact ⟨_, .inl rfl, rfl⟩
      · exact ⟨_, .inr rfl, rfl⟩
    have hrest : c.rest = "Cannot find ".toList ++ (w ++ (" '".toList ++
        (name ++ ("' imported from ".toList ++ ([x] ++ rest))))) := by
      rw [hrest, ← List.singleton_append, ← List.append_assoc, hlead]
      simp
    obtain ⟨e₁, hfind, h⟩ := Cursor.exists_passes hrest
    obtain ⟨e₂, hword, h⟩ := Cursor.exists_passes h
    obtain ⟨e₃, hquote, h⟩ := Cursor.exists_passes h
    obtain ⟨e₄, hpasses, h⟩ := Cursor.exists_passes h
    obtain ⟨e₅, hclose, h⟩ := Cursor.exists_passes h
    obtain ⟨e₆, hfile, -⟩ := Cursor.exists_passes h
    refine ⟨e₆, [("file", ⟨e₅.position, [x]⟩), ("import", ⟨e₃.position, name⟩)], ?_⟩
    simp only [pattern, moduleLoaderMessage, missingName, leads_sequence_cons, leads_sequence_nil,
      leads_text, leads_named_greedyPlus, leads_either_text]
    exact ⟨e₁, _, ⟨hfind, rfl⟩, e₂, _, ⟨w, hw, hword, rfl⟩, e₃, _, ⟨hquote, rfl⟩, e₄, _,
      ⟨name, hne, hname', hpasses, rfl⟩, e₅, _, ⟨hclose, rfl⟩, e₆, _,
      ⟨[x], by simp, by simpa using isVisible_iff.2 hx, hfile, rfl⟩, rfl, rfl⟩
  · obtain rfl : lead = "Error: Cannot find module ".toList := hfits
    have hrest : c.rest =
        "Error: Cannot find module '".toList ++ (name ++ ("'".toList ++ behind)) := by
      rw [hrest]
      simp
    obtain ⟨e₁, hopen, h⟩ := Cursor.exists_passes hrest
    obtain ⟨e₂, hpasses, h⟩ := Cursor.exists_passes h
    obtain ⟨e₃, hclose, -⟩ := Cursor.exists_passes h
    refine ⟨e₃, [("import", ⟨e₁.position, name⟩)], ?_⟩
    simp only [pattern, plainLoaderMessage, missingName, leads_sequence_cons, leads_sequence_nil,
      leads_text, leads_named_greedyPlus]
    exact ⟨e₁, _, ⟨hopen, rfl⟩, e₂, _, ⟨name, hne, hname', hpasses, rfl⟩, e₃, _, ⟨hclose, rfl⟩,
      e₃, _, .inr ⟨rfl, rfl⟩, rfl, rfl⟩

/-- A match is seen, and then what is behind it. -/
theorem sightingsAt_of_match {run : List Char} {s : Sighting} (h : c.Passes run d) (hrun : run ≠ [])
    (hmatch : m.pattern.matchAt? c = some ⟨c.spanTo d, caps⟩)
    (hs : sighting? ⟨c.spanTo d, caps⟩ = some s) :
    m.sightingsAt c = s :: m.sightingsAt d := by
  have hlength : (c.spanTo d).text.length = run.length := by rw [h.spanTo]
  rw [sightingsAt, matchesAt_of_match h hrun hmatch hlength, List.filterMap_cons_some hs]
  rfl

/-- **The type checker tells what its message says**, at the start of a line. -/
theorem sightingsAt_typeChecker {file line column name : List Char}
    (hr : (TypeCheck.written file line column name).Proper) (hline : IsNumber line)
    (hcolumn : IsNumber column) (hstart : Place.lineStart.holds c = true)
    (h : c.Passes (TypeCheck.written file line column name).chars d) :
    typeChecker.sightingsAt c =
      ⟨c.position + (TypeCheck.written file line column name).front.length + 34,
        ⟨some (String.ofList file), String.ofList name⟩⟩ :: typeChecker.sightingsAt d :=
  sightingsAt_of_match h (by simp [TypeCheck.chars]) (matchAt?_written hr hline hcolumn hstart h)
    rfl

/-- A line that does not begin with a message of the type checker has none. -/
theorem sightingsAt_typeChecker_line {run : List Char} (h : c.Passes run d)
    (hrun : '\n' ∉ run.dropLast) (hnone : typeCheckerMessage.matchAt? c = none) :
    typeChecker.sightingsAt c = typeChecker.sightingsAt d := by
  have hmatches : typeCheckerMessage.matchesAt c = typeCheckerMessage.matchesAt d := by
    refine matchesAt_of_none h fun xs ys e hsplit hne hpasses => ?_
    cases hlast : xs.getLast? with
    | none =>
      obtain rfl := List.getLast?_eq_none_iff.1 hlast
      exact hpasses.eq_of_nil ▸ hnone
    | some x =>
      have hx : x ∈ run.dropLast := by
        rw [hsplit, List.dropLast_append_of_ne_nil hne]
        exact List.mem_append_left _ (List.mem_of_getLast? hlast)
      refine matchAt?_eq_none_of_inside ?_
      rw [Place.holds, hpasses.before, hlast]
      exact beq_eq_false_iff_ne.2 fun heq => hrun (heq ▸ hx)
  exact congrArg (List.filterMap sighting?) hmatches

/-- A name up to a quote is read in one way. -/
theorem matchThen_quoted {α : Type} {k : Cursor → Captures → Option α} {part closing : String}
    {name behind : List Char} (hclosing : closing.toList = '\'' :: behind) (hne : name ≠ [])
    (hname : Unquoted name) (h : c.Passes (name ++ closing.toList) d) :
    (sequence [.named part (greedyPlus (noneOf "'")), .text closing]).matchThen k c caps =
      k d ((part, ⟨c.position, name⟩) :: caps) := by
  refine matchThen_eq_of_unique ?_ fun e caps' hleads => ?_
  · obtain ⟨e, hpasses, hclose⟩ := h.exists_between
    simp only [leads_sequence_cons, leads_sequence_nil, leads_text, leads_named_greedyPlus]
    exact ⟨e, _, ⟨name, hne, fun x hx => noneOf_quote.2 (hname x hx), hpasses, rfl⟩, d, _,
      ⟨hclose, rfl⟩, rfl, rfl⟩
  · simp only [leads_sequence_cons, leads_sequence_nil, leads_text, leads_named_greedyPlus]
      at hleads
    obtain ⟨e₁, _, ⟨name', -, hname', hpasses, rfl⟩, e₂, _, ⟨hclose, rfl⟩, rfl, rfl⟩ := hleads
    have hall := hpasses.append hclose
    have heq := h.rest.symm.trans hall.rest
    rw [hclosing, List.append_assoc, List.append_assoc, List.cons_append, List.cons_append] at heq
    obtain ⟨rfl, -⟩ := quote_inj hname (fun x hx => noneOf_quote.1 (hname' x hx)) heq
    exact ⟨hall.unique h, rfl⟩

variable {name file : List Char}

/-- **The bundler tells what its message says.** -/
theorem sightingsAt_bundler (hne : name ≠ []) (hname : Unquoted name) (hne' : file ≠ [])
    (hfile : Unquoted file)
    (h : c.Passes ("Module not found: Error: Can't resolve '".toList ++
      (name ++ "' in '".toList ++ (file ++ "'".toList))) d) :
    bundler.sightingsAt c =
      ⟨c.position + 40, ⟨some (String.ofList file), String.ofList name⟩⟩ ::
        bundler.sightingsAt d := by
  obtain ⟨e₁, hopen, hbehind⟩ := h.exists_between
  obtain ⟨e₂, hpasses, hend⟩ := hbehind.exists_between
  have hmatch : bundlerMessage.matchAt? c = some ⟨c.spanTo d,
      [("file", ⟨e₂.position, file⟩), ("import", ⟨c.position + 40, name⟩)]⟩ := by
    have hsplit : bundlerMessage = Pattern.sequence
        ([.text "Module not found: Error: Can't resolve '"] ++
        ([missingName, .text "' in '"] ++
          [.named "file" (greedyPlus (noneOf "'")), .text "'"])) := rfl
    have hposition : e₁.position = c.position + 40 := hopen.position
    rw [matchAt?, hsplit, matchThen_sequence_append]
    refine (matchThen_text hopen).trans ?_
    rw [matchThen_sequence_append, missingName, matchThen_quoted rfl hne hname hpasses,
      matchThen_quoted rfl hne' hfile hend, hposition]
  exact sightingsAt_of_match h (by simp) hmatch rfl

/-- The words of the module loader about a module are read in one way. -/
theorem matchThen_cannotFind {α : Type} {k : Cursor → Captures → Option α}
    (h : c.Passes "Cannot find module '".toList d) :
    (sequence [.text "Cannot find ", .either (.text "module") (.text "package"),
      .text " '"]).matchThen k c caps = k d caps := by
  refine matchThen_eq_of_unique ?_ fun e caps' hleads => ?_
  · have hsplit : c.Passes ("Cannot find ".toList ++ ("module".toList ++ " '".toList)) d := h
    obtain ⟨e₁, hfind, hbehind⟩ := hsplit.exists_between
    obtain ⟨e₂, hmodule, hquote⟩ := hbehind.exists_between
    simp only [leads_sequence_cons, leads_sequence_nil, leads_text, leads_either_text]
    exact ⟨e₁, _, ⟨hfind, rfl⟩, e₂, _, ⟨_, .inl rfl, hmodule, rfl⟩, d, _, ⟨hquote, rfl⟩, rfl, rfl⟩
  · simp only [leads_sequence_cons, leads_sequence_nil, leads_text, leads_either_text] at hleads
    obtain ⟨e₁, _, ⟨hfind, rfl⟩, e₂, _, ⟨w, hw, hword, rfl⟩, e₃, _, ⟨hquote, rfl⟩, rfl, rfl⟩ :=
      hleads
    have hall := hfind.append (hword.append hquote)
    rcases hw with rfl | rfl
    · exact ⟨hall.unique h, rfl⟩
    · have heq := h.rest.symm.trans hall.rest
      simp at heq

/-- **The module loader tells what its message says**, up to the end of the file's name. -/
theorem sightingsAt_moduleLoader (hne : name ≠ []) (hname : Unquoted name) (hne' : file ≠ [])
    (hfile : ∀ x ∈ file, isBlank x = false) (hend : ∀ x, d.rest.head? = some x → isBlank x = true)
    (h : c.Passes ("Cannot find module '".toList ++
      (name ++ "' imported from ".toList ++ file)) d) :
    moduleLoader.sightingsAt c =
      ⟨c.position + 20, ⟨some (String.ofList file), String.ofList name⟩⟩ ::
        moduleLoader.sightingsAt d := by
  obtain ⟨e₁, hopen, hbehind⟩ := h.exists_between
  obtain ⟨e₂, hpasses, hlast⟩ := hbehind.exists_between
  have hmatch : moduleLoaderMessage.matchAt? c = some ⟨c.spanTo d,
      [("file", ⟨e₂.position, file⟩), ("import", ⟨c.position + 20, name⟩)]⟩ := by
    have hsplit : moduleLoaderMessage = Pattern.sequence
        ([.text "Cannot find ", .either (.text "module") (.text "package"), .text " '"] ++
          ([missingName, .text "' imported from "] ++
            [.named "file" (greedyPlus isVisible)])) := rfl
    have hposition : e₁.position = c.position + 20 := hopen.position
    rw [matchAt?, hsplit, matchThen_sequence_append, matchThen_cannotFind hopen,
      matchThen_sequence_append, missingName, matchThen_quoted rfl hne hname hpasses]
    refine matchThen_greedyPlus_of_longest hlast hne' (fun x hx => isVisible_iff.2 (hfile x hx))
      (fun x hx => isVisible_eq_false_iff.2 (hend x hx)) ?_
    rw [hlast.spanTo, hposition]
  exact sightingsAt_of_match h (by simp) hmatch rfl

/-- The files that led to an error. -/
def requireStack : Pattern :=
  sequence
    [.greedy isBlank, .text "\nRequire stack:", .greedy isBlank, .text "\n-", .greedy isBlank,
     .named "file" (greedyPlus isVisible)]

/-- Blanks in front of a line feed are none where the second character is no blank. -/
theorem blanks_eq_nil {blanks rest rest' : List Char} {x y : Char}
    (hblanks : ∀ z ∈ blanks, isBlank z = true) (hy : isBlank y = false)
    (h : x :: y :: rest = blanks ++ '\n' :: rest') : blanks = [] := by
  match blanks, hblanks, h with
  | [], _, _ => rfl
  | [_], _, h =>
    obtain rfl : y = '\n' := (List.cons.inj (List.cons.inj h).2).1
    exact absurd hy (by decide)
  | _ :: z :: _, hblanks, h =>
    obtain rfl : y = z := (List.cons.inj (List.cons.inj h).2).1
    exact absurd hy (by simp [hblanks y (by simp)])

/-- A text that begins a line is read in one way behind optional blanks. -/
theorem matchThen_nextLine {α : Type} {k : Cursor → Captures → Option α} {line : String} {y : Char}
    {rest : List Char} (hline : line.toList = '\n' :: y :: rest) (hy : isBlank y = false)
    (h : c.Passes line.toList d) :
    (sequence [.greedy isBlank, .text line]).matchThen k c caps = k d caps := by
  refine matchThen_eq_of_unique ?_ fun e caps' hleads => ?_
  · simp only [leads_sequence_cons, leads_sequence_nil, leads_text]
    exact ⟨c, _, ⟨⟨[], by simp, .refl c⟩, rfl⟩, d, _, ⟨h, rfl⟩, rfl, rfl⟩
  · simp only [leads_sequence_cons, leads_sequence_nil, leads_text] at hleads
    obtain ⟨e₁, _, ⟨⟨blanks, hblanks, hpasses⟩, rfl⟩, e₂, _, ⟨htext, rfl⟩, rfl, rfl⟩ := hleads
    have heq := h.rest.symm.trans (hpasses.append htext).rest
    rw [hline, List.append_assoc, List.cons_append, List.cons_append] at heq
    obtain rfl := blanks_eq_nil hblanks hy heq
    obtain rfl := hpasses.eq_of_nil
    exact ⟨htext.unique h, rfl⟩

/-- The plain loader reads the name in one way. -/
theorem matchThen_plainLoader {α : Type} {k : Cursor → Captures → Option α} (hne : name ≠ [])
    (hname : Unquoted name)
    (h : c.Passes ("Error: Cannot find module '".toList ++ (name ++ "'".toList)) d) :
    plainLoaderMessage.matchThen k c [] =
      (optional requireStack).matchThen k d [("import", ⟨c.position + 27, name⟩)] := by
  have hsplit : plainLoaderMessage = Pattern.sequence ([.text "Error: Cannot find module '"] ++
      ([missingName, .text "'"] ++ [optional requireStack])) := rfl
  obtain ⟨e, hopen, hpasses⟩ := h.exists_between
  have hposition : e.position = c.position + 27 := hopen.position
  rw [hsplit, matchThen_sequence_append]
  refine (matchThen_text hopen).trans ?_
  rw [matchThen_sequence_append, missingName, matchThen_quoted rfl hne hname hpasses, hposition]
  rfl

/-- **The plain loader tells the name alone** where no file is listed on the next line. -/
theorem sightingsAt_plainLoader (hne : name ≠ []) (hname : Unquoted name)
    (hend : " imported".toList <+: d.rest)
    (h : c.Passes ("Error: Cannot find module '".toList ++ (name ++ "'".toList)) d) :
    plainLoader.sightingsAt c =
      ⟨c.position + 27, ⟨none, String.ofList name⟩⟩ :: plainLoader.sightingsAt d := by
  have hnone : ∀ e caps caps', ¬ requireStack.Leads d caps e caps' := by
    intro e caps caps' hleads
    simp only [requireStack, leads_sequence_cons, leads_text] at hleads
    obtain ⟨e₁, _, ⟨⟨blanks, hblanks, hpasses⟩, -⟩, e₂, _, ⟨hrequire, -⟩, -⟩ := hleads
    obtain ⟨rest, hrest⟩ := hend
    have heq := hrest.trans (hpasses.append hrequire).rest
    rw [List.append_assoc] at heq
    obtain rfl := blanks_eq_nil (x := ' ') (y := 'i') hblanks (by decide) heq
    exact absurd (List.cons.inj heq).1 (by decide)
  have hmatch : plainLoaderMessage.matchAt? c =
      some ⟨c.spanTo d, [("import", ⟨c.position + 27, name⟩)]⟩ := by
    rw [matchAt?, matchThen_plainLoader hne hname h, Pattern.optional, matchThen,
      matchThen_eq_none fun e caps' => hnone e _ caps']
    rfl
  exact sightingsAt_of_match h (by simp) hmatch rfl

/-- The first listed file is read up to its end. -/
theorem matchThen_requireStack {α : Type} {k : Cursor → Captures → Option α} {best : α}
    (hne : file ≠ []) (hfile : ∀ x ∈ file, isBlank x = false)
    (hend : ∀ x, d.rest.head? = some x → isBlank x = true)
    (h : c.Passes ("\nRequire stack:".toList ++ ("\n-".toList ++ (" ".toList ++ file))) d)
    (hk : k d (("file", ⟨c.position + 18, file⟩) :: caps) = some best) :
    requireStack.matchThen k c caps = some best := by
  have hsplit : requireStack = Pattern.sequence ([.greedy isBlank, .text "\nRequire stack:"] ++
      ([.greedy isBlank, .text "\n-"] ++
        [.greedy isBlank, .named "file" (greedyPlus isVisible)])) := rfl
  obtain ⟨e₁, hrequire, hbehind⟩ := h.exists_between
  obtain ⟨e₂, hdash, hbehind⟩ := hbehind.exists_between
  obtain ⟨e₃, hblank, hlast⟩ := hbehind.exists_between
  have hposition : e₃.position = c.position + 18 := by
    rw [hblank.position, hdash.position, hrequire.position]
    rfl
  rw [hsplit, matchThen_sequence_append, matchThen_nextLine rfl (by decide) hrequire,
    matchThen_sequence_append, matchThen_nextLine rfl (by decide) hdash]
  refine matchThen_greedy_of_longest hblank (by decide) (fun x hx => ?_) ?_
  · rw [hlast.rest, List.head?_append_of_ne_nil _ hne] at hx
    exact hfile x (List.mem_of_mem_head? hx)
  · refine matchThen_greedyPlus_of_longest hlast hne (fun x hx => isVisible_iff.2 (hfile x hx))
      (fun x hx => isVisible_eq_false_iff.2 (hend x hx)) ?_
    rw [hlast.spanTo, hposition]
    exact hk

/-- **The plain loader tells the name and the first file** that is listed. -/
theorem sightingsAt_plainLoader_stack (hne : name ≠ []) (hname : Unquoted name) (hne' : file ≠ [])
    (hfile : ∀ x ∈ file, isBlank x = false) (hend : ∀ x, d.rest.head? = some x → isBlank x = true)
    (h : c.Passes ("Error: Cannot find module '".toList ++ (name ++ "'".toList) ++
      ("\nRequire stack:".toList ++ ("\n-".toList ++ (" ".toList ++ file)))) d) :
    plainLoader.sightingsAt c =
      ⟨c.position + 27, ⟨some (String.ofList file), String.ofList name⟩⟩ ::
        plainLoader.sightingsAt d := by
  obtain ⟨e, hname', hstack⟩ := h.exists_between
  have hmatch : plainLoaderMessage.matchAt? c = some ⟨c.spanTo d,
      [("file", ⟨e.position + 18, file⟩), ("import", ⟨c.position + 27, name⟩)]⟩ := by
    rw [matchAt?, matchThen_plainLoader hne hname hname', Pattern.optional, matchThen,
      matchThen_requireStack hne' hfile hend hstack rfl]
  exact sightingsAt_of_match h (by simp) hmatch rfl

end Message

end Signals

end Strata
