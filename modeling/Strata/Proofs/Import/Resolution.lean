/-
# Where specifiers with an emitted extension lead

Specification, section 4.2: for an emitted extension the interchangeable source extensions
are tried in order.

A specifier with an extension that a compiler emits means the source that was compiled:
the files that are tried have the source extensions in place of the emitted one. The
extension is cut and the next one is put on, and both times what stands behind the last
dot goes. So a name that has a dot of its own loses what stands behind that dot too:

| specifier | files that are tried |
| --- | --- |
| `./a.js` | `a.ts`, `a.tsx`, … |
| `./.a.js` | `.a.ts`, `.a.tsx`, … |
| `./a.b.js` | `a.ts`, `a.tsx`, … |

The files are those with the name in front of the emitted extension exactly when that
name has no dot behind its first character (`resolve_emitted`).
-/

import Mathlib.Data.List.TakeWhile
import Strata.Import.Resolve
import Strata.Proofs.Path.Normal

namespace Strata

open Text

namespace Path

/-! ### Names with an extension -/

/-- A name without its extension. -/
def stemOf (name : String) : String := String.ofList (cutExtension name.toList).1

/-- A name without a dot has no extension. -/
theorem cutExtension_of_not_mem {name : List Char} (h : '.' ∉ name) :
    cutExtension name = (name, none) := by
  have hall : name.reverse.takeWhile (· != '.') = name.reverse := by
    refine List.takeWhile_eq_self_iff.2 fun c hc => ?_
    have hne : c ≠ '.' := fun heq => h (heq ▸ List.mem_reverse.1 hc)
    simpa using hne
  simp [cutExtension, hall]

/-- The extension of a name stands behind its last dot, unless that is the first character. -/
theorem cutExtension_append_dot (stem : List Char) {e : List Char} (he : '.' ∉ e) :
    cutExtension (stem ++ '.' :: e) =
      if stem.isEmpty then (stem ++ '.' :: e, none) else (stem, some e) := by
  have hrun : (stem ++ '.' :: e).reverse.takeWhile (· != '.') = e.reverse := by
    have hall : ∀ c ∈ e.reverse, (c != '.') = true := by
      intro c hc
      have hne : c ≠ '.' := fun heq => he (heq ▸ List.mem_reverse.1 hc)
      simpa using hne
    rw [List.reverse_append, List.reverse_cons, List.append_assoc,
      List.takeWhile_append_of_pos hall]
    simp
  have hlength : (stem ++ '.' :: e).length - e.length - 1 = stem.length := by
    rw [List.length_append, List.length_cons]
    omega
  rw [cutExtension, hrun, List.reverse_reverse, hlength, List.take_left]

/-- A name has no extension when it has no dot behind its first character. -/
theorem cutExtension_eq_none_iff {name : List Char} :
    (cutExtension name).2 = none ↔ '.' ∉ name.tail := by
  by_cases hdot : '.' ∈ name
  · -- the last dot of the name
    obtain ⟨e, stem, hsplit, he⟩ := List.eq_append_cons_of_mem (List.mem_reverse.2 hdot)
    obtain rfl : name = stem.reverse ++ '.' :: e.reverse := by
      rw [← List.reverse_reverse name, hsplit]
      simp
    rw [cutExtension_append_dot _ (by simpa using he)]
    rcases List.eq_nil_or_concat stem.reverse with hnil | ⟨init, last, hinit⟩
    · simpa [hnil] using he
    · obtain ⟨c, rest, hrest⟩ := List.exists_cons_of_ne_nil (hinit ▸ (by simp) : stem.reverse ≠ [])
      simp [hrest]
  · rw [cutExtension_of_not_mem hdot]
    exact iff_of_true rfl fun hmem => hdot (List.mem_of_mem_tail hmem)

/-- Just the names without a dot behind the first character are their own stems. -/
theorem stemOf_eq_self_iff {name : String} : stemOf name = name ↔ '.' ∉ name.toList.tail := by
  rw [← cutExtension_eq_none_iff, stemOf, ← String.toList_inj, String.toList_ofList]
  unfold cutExtension
  dsimp only
  split
  · simp
  · rename_i hne
    -- a stem that was cut is shorter than its name
    refine iff_of_false (fun heq => hne ?_) (by simp)
    have hlength := congrArg List.length heq
    rw [List.length_take] at hlength
    have hzero : name.toList.length = 0 := by omega
    rw [List.length_eq_zero_iff.1 hzero, List.take_nil, List.isEmpty_nil]

/-- The stem of a name is not empty and has no slash. -/
theorem stemOf_plain {name : String} (h : IsName name) :
    (stemOf name).toList ≠ [] ∧ '/' ∉ (stemOf name).toList := by
  rw [stemOf, String.toList_ofList]
  unfold cutExtension
  dsimp only
  split
  · exact ⟨h.toList_ne_nil, h.2.2.2⟩
  · rename_i hne
    exact ⟨by simpa using hne, fun hmem => h.2.2.2 (List.mem_of_mem_take hmem)⟩

/-- A name with an extension, which is put behind a dot. -/
theorem isName_append_dot {stem e : String} (hstem : stem.toList ≠ []) (hslash : '/' ∉ stem.toList)
    (he : e.toList ≠ []) (hslash' : '/' ∉ e.toList) : IsName (stem ++ "." ++ e) := by
  have hlength : 3 ≤ (stem ++ "." ++ e).toList.length := by
    have hpos := List.length_pos_iff.2 hstem
    have hpos' := List.length_pos_iff.2 he
    simp only [String.toList_append, List.length_append]
    have hdot : ".".toList.length = 1 := rfl
    omega
  have hne {s : String} (hs : s.toList.length < 3) : stem ++ "." ++ e ≠ s := by
    rintro rfl
    omega
  refine ⟨hne (by decide), hne (by decide), hne (by decide), ?_⟩
  simp [hslash, hslash']

theorem toList_append_dot (stem e : String) :
    (stem ++ "." ++ e).toList = stem.toList ++ '.' :: e.toList := by simp

/-- The stem of a name with an extension is what stands in front of it. -/
theorem stemOf_append_dot {stem e : String} (hstem : stem.toList ≠ []) (he : '.' ∉ e.toList) :
    stemOf (stem ++ "." ++ e) = stem := by
  have hne : stem.toList.isEmpty = false := by simpa using hstem
  rw [stemOf, toList_append_dot, cutExtension_append_dot _ he, hne]
  exact String.ofList_toList

/-! ### Extensions of paths -/

/-- The last name of a path is the name that was put behind it. -/
theorem fileName?_child (dir : Path) {name : String} (h : IsName name) :
    (dir.child name).fileName? = some name := by
  rw [fileName?, components_child dir h, List.getLast?_concat]

/-- A name behind a directory is written behind its parts, with a slash between them. -/
theorem text_child (dir : Path) {part : String} (h : '/' ∉ part.toList) :
    (dir.child part).text = String.ofList (joinChars ['/'] (dir.front ++ [part.toList])) := by
  have hrelative : isAbsolute ⟨part⟩ = false := by
    have hhead : part.toList.head? ≠ some '/' := fun heq => h (List.mem_of_head? heq)
    simpa [isAbsolute] using hhead
  have hpart : parts ⟨part⟩ = [part.toList] := splitWhere_eq_singleton fun c hc => by
    simpa using fun heq : c = '/' => h (heq ▸ hc)
  rw [← hpart, ← parts_join dir hrelative, parts, joinChars_splitOn]
  exact String.ofList_toList.symm

/-- The extension of a path is the extension of its last name. -/
theorem withExtension_child (dir : Path) {name renamed e : String} (h : IsName name)
    (hslash : '/' ∉ renamed.toList)
    (heq : renamed = if e.isEmpty then stemOf name else stemOf name ++ "." ++ e) :
    (dir.child name).withExtension e = dir.child renamed := by
  have hnames : AreNames [name] := by simpa [AreNames] using h
  have hparts := partsToName_descend dir hnames (by simp)
  rw [descend_cons, descend_nil, partsOfNames, List.map_singleton] at hparts
  have hchars : renamed.toList = if e.isEmpty then (cutExtension name.toList).1
      else (cutExtension name.toList).1 ++ '.' :: e.toList := by
    rw [heq]
    split <;> simp [stemOf]
  have hcut : (dir.child name).withExtension e =
      ⟨String.ofList (joinChars ['/'] (dir.front ++ [renamed.toList]))⟩ := by
    unfold withExtension
    rw [fileName?_child dir h, hparts, hchars]
    simp only [List.getLast?_concat, List.dropLast_concat]
  exact eq_of_text (by rw [hcut, text_child dir hslash])

/-- What is written behind a path with a name is written behind the name. -/
theorem withSuffix_child (dir : Path) {part : String} (hne : part.toList ≠ [])
    (hslash : '/' ∉ part.toList) (suffix : String) :
    (dir.child part).withSuffix suffix = dir.child (part ++ suffix) := by
  obtain ⟨c, cs, hcs⟩ := List.exists_cons_of_ne_nil hne
  have hc : c ≠ '/' := fun heq => hslash (by rw [hcs, heq]; exact List.mem_cons_self)
  have hrelative : isAbsolute ⟨part⟩ = false := by simpa [isAbsolute, hcs] using hc
  have hrelative' : isAbsolute ⟨part ++ suffix⟩ = false := by simpa [isAbsolute, hcs] using hc
  refine eq_of_text ?_
  rw [withSuffix, child, child, join, join, hrelative, hrelative']
  simp only [Bool.false_eq_true, if_false]
  split <;> simp [String.append_assoc]

/-- Names are told apart by the paths that they make in one directory. -/
theorem child_inj (dir : Path) {name name' : String} (h : IsName name) (h' : IsName name')
    (heq : dir.child name = dir.child name') : name = name' := by
  have hsteps := congrArg components heq
  rw [components_child dir h, components_child dir h'] at hsteps
  exact Component.name.inj (List.head_eq_of_cons_eq (List.append_cancel_left hsteps))

end Path

namespace Import

open Strata.Path

/-! ### Specifiers with an emitted extension -/

/-- An extension is not empty and has neither a dot nor a slash. -/
theorem sourceExtensions_plain :
    ∀ e ∈ sourceExtensions, e.toList ≠ [] ∧ '.' ∉ e.toList ∧ '/' ∉ e.toList := by decide

/-- An extension that a compiler emits is one of a source as well. -/
theorem emittedExtensions_subset : ∀ e ∈ emittedExtensions, e ∈ sourceExtensions := by decide

/-- A stem with the extension of a source is a name. -/
theorem isName_source {stem x : String} (hstem : stem.toList ≠ []) (hslash : '/' ∉ stem.toList)
    (hx : x ∈ sourceExtensions) : IsName (stem ++ "." ++ x) := by
  obtain ⟨hne, -, hslash'⟩ := sourceExtensions_plain x hx
  exact isName_append_dot hstem hslash hne hslash'

/-- Stems are told apart by what is found of their sources: one of two stems would find the
first source of the other in a file system that holds nothing else. -/
theorem stem_eq_of_find?_eq (dir : Path) {stem stem' : String} (hstem : stem.toList ≠ [])
    (hslash : '/' ∉ stem.toList) (hstem' : stem'.toList ≠ []) (hslash' : '/' ∉ stem'.toList)
    (h : ∀ isKnown : Path → Bool,
      (sourceExtensions.map fun x => dir.child (stem ++ "." ++ x)).find? isKnown =
        (sourceExtensions.map fun x => dir.child (stem' ++ "." ++ x)).find? isKnown) :
    stem = stem' := by
  have hts : "ts" ∈ sourceExtensions := by decide
  have hfound : ((sourceExtensions.map fun x => dir.child (stem' ++ "." ++ x)).find?
      (· == dir.child (stem' ++ "." ++ "ts"))).isSome = true :=
    List.find?_isSome.2 ⟨_, List.mem_map_of_mem hts, by simp⟩
  rw [← h, List.find?_isSome] at hfound
  obtain ⟨_, hmem, heq⟩ := hfound
  obtain ⟨x, hx, rfl⟩ := List.mem_map.1 hmem
  have hnames : stem ++ "." ++ x = stem' ++ "." ++ "ts" :=
    child_inj dir (isName_source hstem hslash hx) (isName_source hstem' hslash' hts)
      (by simpa using heq)
  have hstems := congrArg stemOf hnames
  rwa [stemOf_append_dot hstem (sourceExtensions_plain x hx).2.1,
    stemOf_append_dot hstem' (by decide)] at hstems

/-- What a name leads to behind a specifier. -/
theorem baseOf_slash_name (importer : Path) (before : String) {name : String} (h : IsName name) :
    baseOf importer (before ++ "/" ++ name) = (baseOf importer (before ++ "/")).child name :=
  normalize_join_slash_name importer.parent before h

/-- The extension of a specifier is the one of its last name. -/
theorem extensionOf?_slash_name (before : String) {name : String} (h : IsName name) :
    extensionOf? (before ++ "/" ++ name) = (cutExtension name.toList).2.map String.ofList := by
  have hsplit : splitOn '/' (before ++ "/" ++ name).toList =
      splitOn '/' before.toList ++ [name.toList] := by
    have hchars : (before ++ "/" ++ name).toList = before.toList ++ '/' :: name.toList := by simp
    rw [← splitOn_name h, hchars]
    exact splitWhere_append_cons (by rfl) _ _
  have hfile : fileName? ⟨name⟩ = some name := by
    have hchild : (⟨""⟩ : Path).child name = ⟨name⟩ := by
      have hrelative : isAbsolute ⟨name⟩ = false := IsName.isAbsolute_eq_false h
      simp [child, Path.join, hrelative]
    rw [← hchild, fileName?_child _ h]
  rw [extensionOf?, hsplit, List.getLast?_concat]
  simp only [String.ofList_toList, extension?, hfile, Option.bind_some]

section Emitted

variable {name e : String} (hname : IsName name) (he : e ∈ emittedExtensions)
include hname he

/-- The last name of such a specifier is a name. -/
theorem isName_emitted : IsName (name ++ "." ++ e) :=
  isName_source hname.toList_ne_nil hname.2.2.2 (emittedExtensions_subset e he)

/-- The files that are tried for a specifier with an emitted extension. -/
theorem candidates_emitted (dir : Path) (before : String) :
    candidates (dir.child (name ++ "." ++ e)) (before ++ "/" ++ (name ++ "." ++ e)) =
      sourceExtensions.map fun x => dir.child (stemOf name ++ "." ++ x) := by
  obtain ⟨-, hdot, -⟩ := sourceExtensions_plain e (emittedExtensions_subset e he)
  have hemitted := isName_emitted hname he
  have hnonempty : name.toList.isEmpty = false := by simpa using hname.toList_ne_nil
  have hextension : extensionOf? (before ++ "/" ++ (name ++ "." ++ e)) = some e := by
    rw [extensionOf?_slash_name before hemitted, toList_append_dot,
      cutExtension_append_dot _ hdot, hnonempty]
    simp
  have hcut : (dir.child (name ++ "." ++ e)).withExtension "" = dir.child name := by
    refine withExtension_child dir hemitted hname.2.2.2 ?_
    exact (stemOf_append_dot hname.toList_ne_nil hdot).symm
  rw [candidates, hextension]
  dsimp only
  rw [if_pos (List.contains_iff_mem.2 he), hcut]
  refine List.map_congr_left fun x hx => ?_
  obtain ⟨hstem, hslash⟩ := stemOf_plain hname
  have hempty : x.isEmpty = false := by
    simpa [String.isEmpty_iff] using (sourceExtensions_plain x hx).1
  exact withExtension_child dir hname (isName_source hstem hslash hx).2.2.2 (by rw [hempty]; rfl)

/-- The file that such a specifier means. -/
theorem resolve_eq_find? (importer : Path) (before : String) (isKnown : Path → Bool) :
    resolve importer (before ++ "/" ++ (name ++ "." ++ e)) isKnown =
      (sourceExtensions.map fun x =>
        (baseOf importer (before ++ "/")).child (stemOf name ++ "." ++ x)).find? isKnown := by
  obtain ⟨hstem, hslash⟩ := stemOf_plain hname
  rw [resolve, baseOf_slash_name importer before (isName_emitted hname he),
    candidates_emitted hname he, List.map_map]
  refine congrArg (List.find? isKnown) (List.map_congr_left fun x hx => ?_)
  exact normalize_child_normalize _ (isName_source hstem hslash hx)

end Emitted

/-- **Where a specifier with an emitted extension leads.** Let `B` be the place that the
specifier names without its emitted extension. The file it means is the first known one among
`B'.ts`, `B'.tsx`, `B'.js`, `B'.jsx`, `B'.mjs` and `B'.cjs`, where `B'` is `B` without an
extension of its own. These are `B.ts`, …, `B.cjs` exactly when the last name of `B` has no dot
behind its first character. In that case a known file that the specifier names as it stands is
always answered by some file. Source: specification, section 4.2, emitted extensions. -/
theorem resolve_emitted (importer : Path) (before : String) {name e : String} (hname : IsName name)
    (he : e ∈ emittedExtensions) :
    (∀ isKnown, resolve importer (before ++ "/" ++ name ++ "." ++ e) isKnown =
      (sourceExtensions.map fun x => ((baseOf importer (before ++ "/" ++ name)).withExtension
        "").withSuffix ("." ++ x)).find? isKnown) ∧
    ((∀ isKnown, resolve importer (before ++ "/" ++ name ++ "." ++ e) isKnown =
      (sourceExtensions.map fun x => (baseOf importer (before ++ "/" ++ name)).withSuffix
        ("." ++ x)).find? isKnown) ↔ '.' ∉ name.toList.tail) ∧
    ('.' ∉ name.toList.tail → ∀ isKnown : Path → Bool,
      isKnown (baseOf importer (before ++ "/" ++ name ++ "." ++ e)) = true →
        (resolve importer (before ++ "/" ++ name ++ "." ++ e) isKnown).isSome = true) := by
  have hwritten : before ++ "/" ++ name ++ "." ++ e = before ++ "/" ++ (name ++ "." ++ e) := by
    simp only [String.append_assoc]
  have hsuffix (part x : String) : part ++ ("." ++ x) = part ++ "." ++ x :=
    (String.append_assoc ..).symm
  obtain ⟨hstem, hslash⟩ := stemOf_plain hname
  have hcut : ((baseOf importer (before ++ "/")).child name).withExtension "" =
      (baseOf importer (before ++ "/")).child (stemOf name) :=
    withExtension_child _ hname hslash rfl
  rw [hwritten, baseOf_slash_name importer before hname,
    baseOf_slash_name importer before (isName_emitted hname he), hcut]
  simp only [resolve_eq_find? hname he, withSuffix_child _ hstem hslash,
    withSuffix_child _ hname.toList_ne_nil hname.2.2.2, hsuffix]
  refine ⟨fun _ => trivial, ⟨fun hall => ?_, fun hdot isKnown => ?_⟩, fun hdot isKnown hknown => ?_⟩
  · -- the two lists find the same in every file system only if the stems are the same
    exact stemOf_eq_self_iff.1
      (stem_eq_of_find?_eq _ hstem hslash hname.toList_ne_nil hname.2.2.2 hall)
  · rw [stemOf_eq_self_iff.2 hdot]
  · rw [stemOf_eq_self_iff.2 hdot]
    exact List.find?_isSome.2
      ⟨_, List.mem_map_of_mem (emittedExtensions_subset e he), hknown⟩

/-- A name without a dot, whose compiled file stands beside the importer. -/
theorem resolve_emitted_users :
    IsName "users" ∧ "js" ∈ emittedExtensions ∧ '.' ∉ "users".toList.tail ∧
      (resolve ⟨"/p/src/a.ts"⟩ ("." ++ "/" ++ "users" ++ "." ++ "js")
        (· == ⟨"/p/src/users.js"⟩)).isSome = true := by
  have hname : IsName "users" := by decide
  have hemitted : "js" ∈ emittedExtensions := by decide
  have hdot : '.' ∉ "users".toList.tail := by decide
  exact ⟨hname, hemitted, hdot,
    (resolve_emitted ⟨"/p/src/a.ts"⟩ "." hname hemitted).2.2 hdot _ (by decide +kernel)⟩

/-- A name with a dot loses what stands behind it: the source of `users.service.js` is not
tried, and neither is the file itself. -/
theorem dotted_name_not_resolved :
    (resolve ⟨"/p/src/a.ts"⟩ "./users.service.js" (· == ⟨"/p/src/users.service.ts"⟩) = none ∧
      (sourceExtensions.map fun x => (baseOf ⟨"/p/src/a.ts"⟩ "./users.service").withSuffix
        ("." ++ x)).find? (· == ⟨"/p/src/users.service.ts"⟩) =
          some ⟨"/p/src/users.service.ts"⟩) ∧
    resolve ⟨"/p/src/a.ts"⟩ "./users.service.js" (· == ⟨"/p/src/users.service.js"⟩) = none := by
  decide +kernel

end Import
end Strata
