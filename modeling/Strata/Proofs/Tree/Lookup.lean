/-
# Looking paths up

What is written behind a path is looked up from what stands at the path
(`Files.find_join`). So a name behind the path of a directory means the entry of
that name, unless the system refuses the name (`Files.find_child`).
-/

import Strata.Proofs.Path.Descent
import Strata.Proofs.Tree.Relisting
import Strata.Tree.Walk

namespace Strata

namespace Entry

/-- More parts are walked from where the first ones lead. -/
theorem walkParts_append (here : Entry) (around : List Entry) (parts more : List (List Char)) :
    here.walkParts around (parts ++ more) =
      (here.walkParts around parts).bind fun place => place.1.walkParts place.2 more := by
  induction parts generalizing here around with
  | nil => rfl
  | cons part rest ih =>
    rw [List.cons_append, walkParts, walkParts]
    cases walkPart here around part with
    | error e => rfl
    | ok place => exact ih place.1 place.2

/-- An empty part stays where it is, in a directory. -/
theorem walkPart_nil_eq_ok {here : Entry} {around : List Entry} {place : Entry × List Entry}
    (h : here.walkPart around [] = .ok place) : place = (here, around) := by
  cases here with
  | file text => cases h
  | directory entries => exact (Except.ok.inj h).symm

/-- What leads to a path leads to the front of the path. -/
theorem walkParts_front {here : Entry} {around : List Entry} {p : Path}
    {place : Entry × List Entry} (h : here.walkParts around p.parts = .ok place) :
    here.walkParts around p.front = .ok place := by
  rcases Path.parts_eq_front p with hparts | hparts
  · rwa [hparts] at h
  · rw [hparts, walkParts_append] at h
    obtain ⟨there, hthere, hlast⟩ := bind_eq_ok h
    have hstep : there.1.walkPart there.2 [] = .ok place := by
      simp only [walkParts] at hlast
      split at hlast
      · rename_i hpart
        exact hpart.trans hlast
      · cases hlast
    rw [hthere, walkPart_nil_eq_ok hstep]

/-- The front of a path leads on to the path, in a directory. -/
theorem walkParts_of_front {here : Entry} {around outer : List Entry} {p : Path}
    {entries : List (String × Entry)}
    (h : here.walkParts around p.front = .ok (.directory entries, outer)) :
    here.walkParts around p.parts = .ok (.directory entries, outer) := by
  rcases Path.parts_eq_front p with hparts | hparts
  · rwa [hparts]
  · rw [hparts, walkParts_append, h]
    rfl

/-- A name leads to the entry of that name. -/
theorem walkPart_name (entries : List (String × Entry)) (around : List Entry) {name : String}
    (h : IsName name) :
    (directory entries).walkPart around name.toList =
      if maxNameBytes < name.utf8ByteSize then .error .nameTooLong
      else match entries.lookup name with
        | some entry => .ok (entry, directory entries :: around)
        | none => .error .missing := by
  have hhere : ¬ (name.toList = [] ∨ name.toList = ['.']) := by
    rintro (hnil | hdot)
    · exact h.toList_ne_nil hnil
    · exact h.2.1 (String.toList_inj.1 hdot)
  have hup : name.toList ≠ ['.', '.'] := fun heq => h.2.2.1 (String.toList_inj.1 heq)
  simp only [walkPart, if_neg hhere, if_neg hup]
  generalize hname : String.ofList name.toList = text
  obtain rfl : name = text := by rw [← hname, String.ofList_toList]
  rfl

end Entry

namespace Files

variable {files : Files}

/-- Where a path is looked up from: the top, or the working directory. -/
def start (files : Files) (absolute : Bool) : Except IoError (Entry × List Entry) :=
  if absolute then .ok (files.top, [])
  else files.top.walkParts [] files.workingDirectory.parts

/-- A path is refused for a character of code zero or as empty, and walked otherwise. -/
theorem find_eq (files : Files) (p : Path) :
    files.find p =
      if p.text.toList.contains '\x00' then .error .nulInName
      else if p.text.isEmpty then .error .missing
      else files.start p.isAbsolute >>= fun place =>
        (place.1.walkParts place.2 p.parts).map Prod.fst := by
  unfold find start
  refine if_congr Iff.rfl rfl (if_congr Iff.rfl rfl ?_)
  cases p.isAbsolute with
  | true => rfl
  | false =>
    simp only [Bool.false_eq_true, if_false]
    cases files.top.walkParts [] files.workingDirectory.parts <;> rfl

/-- A path that is found was not refused, and walking it leads there. -/
theorem find_eq_ok {p : Path} {a : Entry} (h : files.find p = .ok a) :
    '\x00' ∉ p.text.toList ∧ p.text.toList ≠ [] ∧ ∃ place around,
      files.start p.isAbsolute = .ok place ∧
        place.1.walkParts place.2 p.parts = .ok (a, around) := by
  rw [find_eq] at h
  split at h
  · cases h
  · rename_i hnul
    split at h
    · cases h
    · rename_i hempty
      obtain ⟨place, hstart, h⟩ := bind_eq_ok h
      refine ⟨fun hmem => hnul (List.contains_iff_mem.2 hmem), fun hnil => hempty ?_, place, ?_⟩
      · rw [String.toList_eq_nil_iff.1 hnil]
        rfl
      · cases hwalk : place.1.walkParts place.2 p.parts with
        | error e =>
          rw [hwalk] at h
          cases h
        | ok there =>
          rw [hwalk] at h
          obtain rfl : there.1 = a := Except.ok.inj h
          exact ⟨there.2, hstart, rfl⟩

/-- **What is written behind a path is looked up from what stands there.** -/
theorem find_join {dir q : Path} {a : Entry} (h : files.find dir = .ok a)
    (hq : q.isAbsolute = false) :
    ∃ around, files.find (dir.join q) =
      if q.text.toList.contains '\x00' then .error .nulInName
      else (a.walkParts around q.parts).map Prod.fst := by
  obtain ⟨hnul, hne, place, around, hstart, hwalk⟩ := find_eq_ok h
  have htext : (dir.join q).text.toList = dir.text.toList ++ q.text.toList ∨
      (dir.join q).text.toList = dir.text.toList ++ '/' :: q.text.toList := by
    rcases Path.join_cases dir hq with ⟨hnil, -, -⟩ | ⟨cs, hcs, -, hjoin⟩ | ⟨-, -, hjoin⟩
    · exact absurd hnil hne
    · exact .inl (by rw [hjoin, hcs, List.append_assoc]; rfl)
    · exact .inr hjoin
  have hnul' : (dir.join q).text.toList.contains '\x00' = q.text.toList.contains '\x00' := by
    rcases htext with htext | htext <;> rw [htext] <;> simp [hnul]
  have hempty : ¬ (dir.join q).text.isEmpty := by
    intro hempty
    rw [String.isEmpty_iff] at hempty
    rcases htext with htext | htext <;> rw [hempty] at htext <;> simp [hne] at htext
  refine ⟨around, ?_⟩
  rw [find_eq, hnul', if_neg hempty, Path.isAbsolute_join dir hq, hstart, Path.parts_join dir hq]
  refine if_congr Iff.rfl rfl ?_
  show ((place.1.walkParts place.2 (dir.front ++ q.parts)).map Prod.fst) = _
  rw [Entry.walkParts_append, Entry.walkParts_front hwalk]
  rfl

/-- **A name behind the path of a directory means the entry of that name.** -/
theorem find_child {dir : Path} {name : String} {entries : List (String × Entry)}
    (h : files.find dir = .ok (.directory entries)) (hname : IsName name) :
    files.find (dir.child name) =
      if name.toList.contains '\x00' then .error .nulInName
      else if maxNameBytes < name.utf8ByteSize then .error .nameTooLong
      else match entries.lookup name with
        | some entry => .ok entry
        | none => .error .missing := by
  obtain ⟨around, hfind⟩ := find_join h (Path.IsName.isAbsolute_eq_false hname)
  have hparts : Path.parts ⟨name⟩ = [name.toList] := Path.splitOn_name hname
  rw [Path.child, hfind, hparts]
  refine if_congr Iff.rfl rfl ?_
  rw [Entry.walkParts, Entry.walkPart_name entries around hname]
  by_cases hlong : maxNameBytes < name.utf8ByteSize
  · rw [if_pos hlong, if_pos hlong]
    rfl
  · rw [if_neg hlong, if_neg hlong]
    cases entries.lookup name <;> rfl

/-- Behind the path of a file nothing stands. -/
theorem not_find_child_of_file {dir : Path} {name : String} {text : Option String} {a : Entry}
    (h : files.find dir = .ok (.file text)) (hname : IsName name) :
    files.find (dir.child name) ≠ .ok a := by
  obtain ⟨around, hfind⟩ := find_join h (Path.IsName.isAbsolute_eq_false hname)
  have hparts : Path.parts ⟨name⟩ = [name.toList] := Path.splitOn_name hname
  rw [Path.child, hfind, hparts]
  split <;> exact fun heq => by cases heq

/-- What stands behind the path of a directory is one of its entries. -/
theorem mem_of_find_child {dir : Path} {name : String} {a b : Entry}
    (h : files.find dir = .ok a) (hname : IsName name) (hb : files.find (dir.child name) = .ok b) :
    (name, b) ∈ a.entries := by
  cases a with
  | file text => exact absurd hb (not_find_child_of_file h hname)
  | directory entries =>
    rw [find_child h hname] at hb
    split at hb
    · cases hb
    · split at hb
      · cases hb
      · split at hb
        · rename_i entry hlookup
          obtain rfl := Except.ok.inj hb
          obtain ⟨before, after, heq, -⟩ := List.lookup_eq_some_iff.1 hlookup
          rw [Entry.entries, heq]
          simp
        · cases hb

/-- Nothing behind the path of a directory means the directory. -/
theorem find_join_empty {dir : Path} {entries : List (String × Entry)}
    (h : files.find dir = .ok (.directory entries)) :
    files.find (dir.join ⟨""⟩) = .ok (.directory entries) := by
  obtain ⟨around, hfind⟩ := find_join h (q := ⟨""⟩) rfl
  exact hfind

/-- Only behind the path of a directory something stands. -/
theorem find_of_find_child {dir : Path} {name : String} {a : Entry} (hne : dir.text.toList ≠ [])
    (hname : IsName name) (h : files.find (dir.child name) = .ok a) :
    ∃ entries, files.find dir = .ok (.directory entries) := by
  have hrelative := Path.IsName.isAbsolute_eq_false hname
  obtain ⟨hnul, -, place, around, hstart, hwalk⟩ := find_eq_ok h
  have hparts : (dir.child name).parts = dir.front ++ [name.toList] := by
    rw [Path.child, Path.parts_join dir hrelative, Path.parts, Path.splitOn_name hname]
  rw [hparts, Entry.walkParts_append] at hwalk
  -- the name is looked up in what the path before it leads to, so that is a directory
  obtain ⟨there, hthere, hlast⟩ := bind_eq_ok hwalk
  obtain ⟨here, outer⟩ := there
  cases here with
  | file text => cases hlast
  | directory entries =>
    refine ⟨entries, ?_⟩
    have hsub : dir.text.toList ⊆ (dir.child name).text.toList := by
      rcases Path.join_cases dir hrelative with ⟨hnil, -, -⟩ | ⟨cs, hcs, -, hjoin⟩ | ⟨-, -, hjoin⟩
      · exact absurd hnil hne
      · rw [Path.child, hjoin, hcs]
        simp
      · rw [Path.child, hjoin]
        exact List.subset_append_left _ _
    -- the path before it is refused for no reason that the longer one is not refused for
    have hnul' : ¬ dir.text.toList.contains '\x00' := fun hcontains =>
      hnul (hsub (List.contains_iff_mem.1 hcontains))
    have hempty : ¬ dir.text.isEmpty := by
      intro hempty
      rw [String.isEmpty_iff] at hempty
      exact hne (by rw [hempty]; rfl)
    have habs : (dir.child name).isAbsolute = dir.isAbsolute := Path.isAbsolute_join dir hrelative
    rw [find_eq, if_neg hnul', if_neg hempty, ← habs, hstart]
    show (place.1.walkParts place.2 dir.parts).map Prod.fst = _
    rw [Entry.walkParts_of_front hthere]
    rfl

/-- What is found in a well named tree is well named. -/
theorem wellNamed_of_find (h : files.top.WellNamed) {p : Path} {a : Entry}
    (ha : files.find p = .ok a) : a.WellNamed := by
  have hsame : files.SameTree files := ⟨⟨h, .refl _⟩, rfl⟩
  have hfind := hsame.find p
  rw [ha] at hfind
  cases hfind with
  | ok hplace => exact hplace.wellNamed

/-! ### Directories -/

/-- A path is a directory when one is found at it. -/
theorem isDirectory_iff {p : Path} :
    files.isDirectory p = true ↔ ∃ entries, files.find p = .ok (.directory entries) := by
  unfold isDirectory
  cases files.find p with
  | error e => simp [Except.toOption]
  | ok a => cases a <;> simp [Except.toOption, Entry.isDirectory]

/-- A walk goes over the entries of a directory. -/
theorem walk_eq {dir : Path} {entries : List (String × Entry)}
    (h : files.find dir = .ok (.directory entries)) :
    files.walk dir = .ok (filesOfEntries dir entries) := by
  simp only [walk, list?, h]
  rfl

/-- A walk that succeeds found nothing, or went over the entries of a directory. -/
theorem walk_cases {dir : Path} {found : List FoundFile} (h : files.walk dir = .ok found) :
    files.isFile dir = false ∧ (found = [] ∨ ∃ entries,
      files.find dir = .ok (.directory entries) ∧ found = filesOfEntries dir entries) := by
  unfold isFile
  cases hfind : files.find dir with
  | ok a =>
    cases a with
    | directory entries =>
      rw [walk_eq hfind] at h
      exact ⟨rfl, .inr ⟨entries, rfl, (Except.ok.inj h).symm⟩⟩
    | file text =>
      simp only [walk, list?, hfind] at h
      cases h
  | error e =>
    refine ⟨rfl, .inl ?_⟩
    simp only [walk, list?, hfind] at h
    cases e <;> cases h
    rfl

end Files

/-! ### Plain names -/

/-- A name that a file system can hold, without backslashes. -/
structure IsPlainName (name : String) : Prop where
  noBackslash : '\\' ∉ name.toList
  noNul : '\x00' ∉ name.toList
  notLong : name.utf8ByteSize ≤ maxNameBytes

instance : DecidablePred IsPlainName := fun name =>
  decidable_of_iff
    ('\\' ∉ name.toList ∧ '\x00' ∉ name.toList ∧ name.utf8ByteSize ≤ maxNameBytes)
    ⟨fun h => ⟨h.1, h.2.1, h.2.2⟩, fun h => ⟨h.noBackslash, h.noNul, h.notLong⟩⟩

namespace Entry

/-- All names below the entry are plain. -/
inductive Plain : Entry → Prop where
  | file (text : Option String) : Plain (.file text)
  | directory {entries : List (String × Entry)} :
      (∀ e ∈ entries, IsPlainName e.1) → (∀ e ∈ entries, Plain e.2) → Plain (.directory entries)

/-- A directory with one entry. -/
theorem Plain.singleton {name : String} {a : Entry} (hname : IsPlainName name) (h : a.Plain) :
    (Entry.directory [(name, a)]).Plain :=
  .directory (List.forall_mem_singleton.2 hname) (List.forall_mem_singleton.2 h)

/-- The entries of a plain tree have plain names. -/
theorem Plain.name {a : Entry} (h : a.Plain) {e : String × Entry} (he : e ∈ a.entries) :
    IsPlainName e.1 := by
  cases h with
  | file => exact absurd he List.not_mem_nil
  | directory hname _ => exact hname e he

/-- The entries of a plain tree are plain. -/
theorem Plain.inner {a : Entry} (h : a.Plain) {e : String × Entry} (he : e ∈ a.entries) :
    e.2.Plain := by
  cases h with
  | file => exact absurd he List.not_mem_nil
  | directory _ hinner => exact hinner e he

end Entry

namespace Files

/-- The path of an entry with a plain name leads to the entry. -/
theorem find_child_of_mem {files : Files} {dir : Path} {name : String} {b : Entry}
    {entries : List (String × Entry)} (h : files.find dir = .ok (.directory entries))
    (hwell : (Entry.directory entries).WellNamed) (hplain : IsPlainName name)
    (hmem : (name, b) ∈ entries) : files.find (dir.child name) = .ok b := by
  have hlookup := (lookup_eq_some_iff_mem hwell.nodup).2 hmem
  have hnul : ¬ name.toList.contains '\x00' := fun hcontains =>
    hplain.noNul (List.contains_iff_mem.1 hcontains)
  rw [find_child h (hwell.isName hmem), if_neg hnul, if_neg (Nat.not_lt.2 hplain.notLong)]
  simp only [Entry.entries] at hlookup
  rw [hlookup]

/-- An entry that can be walked is found at its path. -/
theorem find_child_of_walk {files : Files} {dir : Path} {name : String} {b : Entry}
    {entries : List (String × Entry)} (h : files.find dir = .ok (.directory entries))
    (hwell : (Entry.directory entries).WellNamed) (hmem : (name, b) ∈ entries)
    {found : List FoundFile} (hwalk : files.walk (dir.child name) = .ok found) :
    files.find (dir.child name) = .ok b := by
  have hfind := find_child h (hwell.isName hmem)
  have hlookup := (lookup_eq_some_iff_mem hwell.nodup).2 hmem
  simp only [Entry.entries] at hlookup
  rw [hlookup] at hfind
  -- a name that the system refuses cannot be walked
  have hrefused : ∀ e, e ≠ IoError.missing → files.find (dir.child name) ≠ .error e := by
    intro e he heq
    simp only [walk, list?, heq] at hwalk
    cases e <;> first | exact he rfl | cases hwalk
  split at hfind
  · exact absurd hfind (hrefused _ (by decide))
  · split at hfind
    · exact absurd hfind (hrefused _ (by decide))
    · exact hfind

end Files

end Strata
