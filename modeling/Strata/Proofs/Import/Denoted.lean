/-
# Which file a relative specifier denotes

Specification, section 4.2: the base is the directory of the importer joined with the
specifier, lexically normalized.

A relative specifier denotes a place as seen from the directory of its importer, and the file
found for it should be there, up to a source extension that is added or interchanged, or an
index file (`Denotes`). Steps up that leave the directory decide whether it is:

| steps up in front of the place | file |
| --- | --- |
| none, also where steps up stay at the root | there |
| one | there |
| more | where the place with at most one of them would be |

A place without a name is a directory in which an index file may be found. The files with an
extension behind such a place are hidden ones inside the directory, or named `...` with the
extension, and never there (`resolve_denotes_iff`).
-/

import Strata.Proofs.Import.Resolution
import Strata.Proofs.Path.Place

namespace Strata
namespace Import

open Strata.Path Text

/-! ### Files at a place -/

/-- A name with a source extension added to it or in place of another one. -/
inductive SourceName : String → String → Prop where
  | added {name x : String} : x ∈ sourceExtensions → SourceName name (name ++ "." ++ x)
  | interchanged {stem e x : String} : stem ≠ "" → e ∈ sourceExtensions → x ∈ sourceExtensions →
      SourceName (stem ++ "." ++ e) (stem ++ "." ++ x)

/-- The steps of the files that a place stands for: the place itself, its last name with a
source extension added or interchanged, and an index file in it. -/
inductive Denotes (place : List Component) : List Component → Prop where
  | itself : Denotes place place
  | renamed {dir : List Component} {name other : String} : place = dir ++ [.name name] →
      SourceName name other → Denotes place (dir ++ [.name other])
  | index {x : String} : x ∈ sourceExtensions → Denotes place (place ++ [.name ("index." ++ x)])

/-- The steps lead to an index file. -/
def IsIndex (file : List Component) : Prop :=
  ∃ x ∈ sourceExtensions, file.getLast? = some (.name ("index." ++ x))

/-- The file is told by a name: its place has one, or it is an index file. -/
def ToldByName (place file : List Component) : Prop := (∃ name, .name name ∈ place) ∨ IsIndex file

namespace Denotes

variable {place file : List Component}

/-- A denoted file lies as far up as its place. -/
theorem count_up (h : Denotes place file) : file.count .up = place.count .up := by
  cases h with
  | itself => rfl
  | renamed hplace _ => simp [hplace]
  | index _ => simp

/-- Behind other steps in front the names denote the same files. -/
theorem behind (lead : List Component) (h : Denotes place file) :
    Denotes (lead ++ place) (lead ++ file) := by
  cases h with
  | itself => exact .itself
  | renamed hplace hname =>
    rw [hplace, ← List.append_assoc, ← List.append_assoc]
    exact .renamed rfl hname
  | index hx =>
    rw [← List.append_assoc]
    exact .index hx

/-- A place without a name denotes itself and index files only. -/
theorem eq_or_isIndex (h : Denotes place file) (hplace : ∀ name, .name name ∉ place) :
    file = place ∨ IsIndex file := by
  cases h with
  | itself => exact .inl rfl
  | renamed heq _ => exact absurd (heq ▸ List.mem_append_right _ List.mem_cons_self) (hplace _)
  | index hx => exact .inr ⟨_, hx, List.getLast?_concat⟩

end Denotes

/-- The place that a specifier denotes as seen from the directory of its importer. -/
def placeOf (importer : Path) (specifier : String) : List Component :=
  (importer.parent.join ⟨specifier⟩).place

/-- A specifier whose last name keeps no dot when an emitted extension is cut off, but in
front. -/
def Undotted (specifier : String) : Prop :=
  ∀ before name, ∀ e ∈ emittedExtensions, '/' ∉ name.toList →
    specifier = before ++ "/" ++ name ++ "." ++ e → name ≠ "." ∧ '.' ∉ name.toList.tail

namespace ToldByName

variable {place file : List Component}

/-- Other steps in front, also different ones on both sides, keep a file told by its name. -/
theorem behind (lead lead' : List Component) (h : ToldByName place file) :
    ToldByName (lead ++ place) (lead' ++ file) := by
  rcases h with ⟨name, hname⟩ | ⟨x, hx, hlast⟩
  · exact .inl ⟨name, List.mem_append_right lead hname⟩
  · exact .inr ⟨x, hx, by rw [List.getLast?_append, hlast, Option.some_or]⟩

end ToldByName

/-! ### Specifiers with an extension -/

/-- What stands behind the last slash of a text. -/
theorem exists_last_slash {s : String} (h : '/' ∈ s.toList) :
    ∃ before name, s = before ++ "/" ++ name ∧ '/' ∉ name.toList := by
  obtain ⟨last, before, hsplit, hlast⟩ := List.eq_append_cons_of_mem (List.mem_reverse.2 h)
  refine ⟨String.ofList before.reverse, String.ofList last.reverse, ?_, by simpa using hlast⟩
  rw [← String.toList_inj, ← List.reverse_inj, hsplit]
  simp

/-- The extension of a specifier is read off behind its last slash. -/
theorem extensionOf?_slash {before name : String} (h : '/' ∉ name.toList) :
    extensionOf? (before ++ "/" ++ name) = (Path.mk name).extension? := by
  have hone : splitOn '/' name.toList = [name.toList] := splitWhere_eq_singleton fun c hc => by
    simpa using fun heq : c = '/' => h (heq ▸ hc)
  have hsplit : splitOn '/' (before.toList ++ '/' :: name.toList) =
      splitOn '/' before.toList ++ splitOn '/' name.toList := splitWhere_append_cons (by rfl) _ _
  have hchars : (before ++ "/" ++ name).toList = before.toList ++ '/' :: name.toList := by simp
  rw [extensionOf?, hchars, hsplit, hone, List.getLast?_concat]
  simp only [String.ofList_toList]

/-- A relative specifier with an extension ends in a slash and a name with this extension. -/
theorem exists_slash_name {specifier e : String} (hrelative : kindOf specifier = .relative)
    (h : extensionOf? specifier = some e) :
    ∃ before name, specifier = before ++ "/" ++ name ∧ IsName name ∧
      (cutExtension name.toList).2 = some e.toList := by
  by_cases hslash : '/' ∈ specifier.toList
  · obtain ⟨before, name, rfl, hlast⟩ := exists_last_slash hslash
    have hname : IsName name := by
      rw [extensionOf?_slash hlast] at h
      refine ⟨?_, ?_, ?_, hlast⟩ <;> rintro rfl <;> cases h
    rw [extensionOf?_slash_name _ hname] at h
    obtain ⟨e', he', rfl⟩ := Option.map_eq_some_iff.1 h
    exact ⟨_, _, rfl, hname, by rw [he', String.toList_ofList]⟩
  · -- without a slash there are two relative specifiers
    have hdots : specifier = "." ∨ specifier = ".." := by
      have hno (start : String) (hstart : '/' ∈ start.toList) :
          startsWith start specifier = false := by
        refine Bool.eq_false_iff.2 fun hprefix => hslash ?_
        exact (List.isPrefixOf_iff_prefix.1 hprefix).subset hstart
      have hone := hno "./" (by decide)
      have htwo := hno "../" (by decide)
      unfold kindOf at hrelative
      rw [hone, htwo] at hrelative
      by_contra hne
      rw [not_or] at hne
      simp [hne] at hrelative
    rcases hdots with rfl | rfl
    · have hnone : extensionOf? "." = none := by decide
      rw [hnone] at h
      cases h
    · have hnone : extensionOf? ".." = none := by decide
      rw [hnone] at h
      cases h

/-- A name with an extension is a stem with the extension behind a dot. -/
theorem eq_append_dot_of_cut {name e : String} (hname : IsName name)
    (h : (cutExtension name.toList).2 = some e.toList) :
    ∃ stem, name = stem ++ "." ++ e ∧ stem ≠ "" ∧ '/' ∉ stem.toList := by
  have hdot : '.' ∈ name.toList := by
    by_contra hno
    rw [cutExtension_of_not_mem hno] at h
    cases h
  -- the last dot of the name
  obtain ⟨tail, stem, hsplit, htail⟩ := List.eq_append_cons_of_mem (List.mem_reverse.2 hdot)
  have hchars : name.toList = stem.reverse ++ '.' :: tail.reverse := by
    rw [← List.reverse_inj, hsplit]
    simp
  rw [hchars, cutExtension_append_dot _ (by simpa using htail)] at h
  split at h
  · cases h
  · rename_i hne
    refine ⟨String.ofList stem.reverse, ?_, ?_, ?_⟩
    · rw [← String.toList_inj, hchars, toList_append_dot, String.toList_ofList,
        Option.some.inj h]
    · intro heq
      exact hne (by rw [← String.toList_ofList (l := stem.reverse), heq]; rfl)
    · rw [String.toList_ofList]
      exact fun hmem => hname.2.2.2 (hchars ▸ List.mem_append_left _ hmem)

/-! ### The files that are tried -/

/-- The file is one of those that the names denote behind a start of normal forms. -/
def Reached (start : Path) (names : List String) (file : Path) : Prop :=
  ∃ others, AreNames others ∧ file = start.descend others ∧
    Denotes (names.map Component.name) (others.map Component.name) ∧
    ToldByName (names.map Component.name) (others.map Component.name)

section Reached

variable {start : Path} {names inner : List String} {file : Path}

/-- A file that is reached is in normal form. -/
theorem Reached.normalize (hstart : start ∈ starts) (h : Reached start names file) :
    file.normalize = file := by
  obtain ⟨others, hothers, rfl, -⟩ := h
  exact normalize_descend_start hstart hothers

/-- A place with a name tells every file. -/
theorem toldByName_map (h : names ≠ []) (file : List Component) :
    ToldByName (names.map Component.name) file := by
  obtain ⟨name, rest, rfl⟩ := List.exists_cons_of_ne_nil h
  exact .inl ⟨name, by simp⟩

/-- The names themselves are reached. -/
theorem reached_itself (hnames : AreNames names) (hne : names ≠ []) :
    Reached start names (start.descend names) :=
  ⟨names, hnames, rfl, .itself, toldByName_map hne _⟩

/-- A last name with a source extension added or interchanged is reached. -/
theorem reached_renamed (hinner : AreNames inner) {name other : String} (hother : IsName other)
    (h : SourceName name other) :
    Reached start (inner ++ [name]) ((start.descend inner).child other) := by
  refine ⟨inner ++ [other], hinner.concat hother, by rw [descend_append]; rfl, ?_,
    toldByName_map (by simp) _⟩
  rw [List.map_append, List.map_append]
  exact .renamed rfl h

/-- An index file has a name. -/
theorem isName_index {x : String} (hx : x ∈ sourceExtensions) : IsName ("index." ++ x) := by
  revert hx x
  decide

/-- An index file in the place is reached. -/
theorem reached_index (hnames : AreNames names) {x : String} (hx : x ∈ sourceExtensions) :
    Reached start names ((start.descend names).child ("index." ++ x)) := by
  refine ⟨names ++ ["index." ++ x], hnames.concat (isName_index hx), by rw [descend_append]; rfl,
    ?_, .inr ⟨x, hx, ?_⟩⟩
  · rw [List.map_append]
    exact .index hx
  · rw [List.map_append]
    exact List.getLast?_concat

/-- The files that are tried without an extension are denoted, unless no name is left for the
extension. -/
theorem reached_of_mem_extensionless (hnames : AreNames names)
    (h : file ∈ extensionless (start.descend names)) :
    Reached start names file ∨
      names = [] ∧ ∃ x ∈ sourceExtensions, file = start.withSuffix ("." ++ x) := by
  rcases List.mem_append.1 h with h | h
  · obtain ⟨x, hx, rfl⟩ := List.mem_map.1 h
    rcases List.eq_nil_or_concat names with rfl | ⟨inner, name, rfl⟩
    · exact .inr ⟨rfl, x, hx, rfl⟩
    · rw [List.concat_eq_append] at hnames ⊢
      obtain ⟨hinner, hname⟩ := List.forall_mem_append.1 hnames
      have hname := hname name List.mem_cons_self
      have hsuffix : (start.descend (inner ++ [name])).withSuffix ("." ++ x) =
          (start.descend inner).child (name ++ "." ++ x) := by
        rw [descend_append, descend_cons, descend_nil,
          withSuffix_child _ hname.toList_ne_nil hname.2.2.2, String.append_assoc]
      rw [hsuffix]
      exact .inl (reached_renamed hinner (isName_source hname.toList_ne_nil hname.2.2.2 hx)
        (.added hx))
  · obtain ⟨x, hx, rfl⟩ := List.mem_map.1 h
    exact .inl (reached_index hnames hx)

/-- The files that are tried for an emitted extension are denoted. -/
theorem reached_of_mem_emitted {before name e : String} (hnames : AreNames (inner ++ [name]))
    (hundotted : Undotted (before ++ "/" ++ name)) (he : e ∈ emittedExtensions)
    (hcut : (cutExtension name.toList).2 = some e.toList)
    (h : file ∈ candidates (start.descend (inner ++ [name])) (before ++ "/" ++ name)) :
    Reached start (inner ++ [name]) file := by
  obtain ⟨hinner, hname⟩ := List.forall_mem_append.1 hnames
  obtain ⟨stem, rfl, hne, hslash⟩ := eq_append_dot_of_cut (hname name List.mem_cons_self) hcut
  obtain ⟨hdot, htail⟩ := hundotted before stem e he hslash (by simp only [String.append_assoc])
  have hstem : IsName stem := ⟨hne, hdot, by rintro rfl; exact htail (by decide), hslash⟩
  rw [descend_append, descend_cons, descend_nil, candidates_emitted hstem he,
    stemOf_eq_self_iff.2 htail] at h
  obtain ⟨x, hx, rfl⟩ := List.mem_map.1 h
  exact reached_renamed hinner (isName_source hstem.toList_ne_nil hslash hx)
    (.interchanged hne (emittedExtensions_subset e he) hx)

/-- The last name of a normal form. -/
theorem exists_inner (hstart : start ∈ starts) (hnames : AreNames names) {dir : Path}
    {name : String} (hname : IsName name) (h : start.descend names = dir.child name) :
    ∃ inner, names = inner ++ [name] := by
  have hlast : (start.descend names).fileName? = some name := h ▸ fileName?_child dir hname
  rcases List.eq_nil_or_concat names with rfl | ⟨inner, other, rfl⟩
  · rcases starts_cases hstart with rfl | rfl | rfl | rfl <;> cases hlast
  · rw [List.concat_eq_append] at hnames hlast ⊢
    rw [descend_append, descend_cons, descend_nil,
      fileName?_child _ (hnames other (by simp))] at hlast
    exact ⟨inner, by rw [Option.some.inj hlast]⟩

/-- **The file that is found is denoted by the normal form of the place**, unless no name is
left in it. -/
theorem reached_of_resolve {importer : Path} {specifier : String} {isKnown : Path → Bool}
    (hrelative : kindOf specifier = .relative) (hundotted : Undotted specifier)
    (hstart : start ∈ starts) (hnames : AreNames names)
    (hbase : baseOf importer specifier = start.descend names)
    (h : resolve importer specifier isKnown = some file) :
    Reached start names file ∨
      names = [] ∧ ∃ x ∈ sourceExtensions, file = (start.withSuffix ("." ++ x)).normalize := by
  rw [resolve] at h
  obtain ⟨tried, htried, rfl⟩ := List.mem_map.1 (List.mem_of_find?_eq_some h)
  -- the files that are tried are in normal form already, unless no name is left
  suffices hreached : Reached start names tried ∨
      names = [] ∧ ∃ x ∈ sourceExtensions, tried = start.withSuffix ("." ++ x) by
    rcases hreached with hreached | ⟨hnil, x, hx, rfl⟩
    · left
      rwa [hreached.normalize hstart]
    · exact .inr ⟨hnil, x, hx, rfl⟩
  rw [hbase] at htried
  -- the table of `resolve`: without extension, with an emitted one, with any other
  cases hextension : extensionOf? specifier with
  | none =>
    rw [candidates, hextension] at htried
    exact reached_of_mem_extensionless hnames htried
  | some e =>
    obtain ⟨before, name, rfl, hname, hcut⟩ := exists_slash_name hrelative hextension
    rw [baseOf_slash_name importer before hname] at hbase
    obtain ⟨inner, rfl⟩ := exists_inner hstart hnames hname hbase.symm
    by_cases hemitted : e ∈ emittedExtensions
    · exact .inl (reached_of_mem_emitted hnames hundotted hemitted hcut htried)
    · rw [candidates, hextension] at htried
      simp only [List.contains_iff_mem, hemitted, if_false] at htried
      split at htried
      · obtain rfl := List.mem_singleton.1 htried
        exact .inl (reached_itself hnames (by simp))
      · rcases List.mem_cons.1 htried with rfl | htried
        · exact .inl (reached_itself hnames (by simp))
        · exact reached_of_mem_extensionless hnames htried

end Reached

/-! ### Places and files -/

/-- Behind a start without a name the extension makes a hidden name, inside the directory
also where the start leaves it. -/
theorem components_hidden : ∀ start ∈ starts, ∀ x ∈ sourceExtensions,
    ∃ lead ∈ [[], [Component.root]], ∃ dots ∈ [".", "..."],
      (start.withSuffix ("." ++ x)).normalize.components = lead ++ [.name (dots ++ x)] := by
  decide +kernel

/-- A hidden name is not the one of an index file. -/
theorem not_isIndex_hidden {dots : String} (hdots : dots ∈ [".", "..."]) (lead : List Component)
    (x : String) : ¬ IsIndex (lead ++ [.name (dots ++ x)]) := by
  rintro ⟨y, -, hlast⟩
  rw [List.getLast?_concat] at hlast
  have hchars := congrArg String.toList (Component.name.inj (Option.some.inj hlast))
  simp only [List.mem_cons, List.not_mem_nil, or_false] at hdots
  rcases hdots with rfl | rfl <;> simp at hchars

theorem up_not_mem_map_name (names : List String) : Component.up ∉ names.map Component.name := by
  simp

/-- Names add no step up. -/
theorem count_up_append_names (lead : List Component) (names : List String) :
    (lead ++ names.map Component.name).count .up = lead.count .up := by
  rw [List.count_append, List.count_eq_zero.2 (up_not_mem_map_name names), Nat.add_zero]

/-- With the remainder of the steps up in front of it a file is denoted when there is at most
one of them. -/
theorem denotes_replicate_iff {names others : List String}
    (h : Denotes (names.map Component.name) (others.map Component.name)) (n : Nat) :
    Denotes (List.replicate n .up ++ names.map Component.name)
      (List.replicate (n % 2) .up ++ others.map Component.name) ↔ n ≤ 1 := by
  constructor
  · intro hdenotes
    have hcount := hdenotes.count_up
    rw [count_up_append_names, count_up_append_names, List.count_replicate_self,
      List.count_replicate_self] at hcount
    omega
  · intro hn
    rw [Nat.mod_eq_of_lt (Nat.lt_succ_of_le hn)]
    exact h.behind _

/-- **Which file a relative specifier denotes.** Let a specifier whose last name is not cut
twice lead to a known file, and let known files be told by their places. The file is the one
that the specifier denotes from the directory of its importer exactly when at most one step up
stands in front of the place, and the place has a name or the file is an index file. It lies
above where a relative importer starts exactly when the number of these steps is odd, with the
same proviso. Source: specification, section 4.2, base and candidates. -/
theorem resolve_denotes_iff {importer file : Path} {specifier : String} {isKnown : Path → Bool}
    (hrelative : kindOf specifier = .relative) (hundotted : Undotted specifier)
    (hknown : ∀ p, isKnown p = true → p.place = p.components)
    (h : resolve importer specifier isKnown = some file) :
    (Denotes (placeOf importer specifier) file.components ↔
      (placeOf importer specifier).count .up ≤ 1 ∧
        ToldByName (placeOf importer specifier) file.components) ∧
    (.up ∈ file.components ↔
      (placeOf importer specifier).count .up % 2 = 1 ∧
        ToldByName (placeOf importer specifier) file.components) := by
  obtain ⟨front, start, names, hfronts, hnames, hplace, hbase⟩ :=
    exists_place (importer.parent.join ⟨specifier⟩)
  have hfixed := hknown file (by rw [resolve] at h; exact List.find?_some h)
  rw [placeOf, hplace]
  rcases reached_of_resolve hrelative hundotted hfronts.mem_starts hnames hbase h with
    ⟨others, hothers, rfl, hdenotes, htold⟩ | ⟨rfl, x, hx, rfl⟩
  · -- the names behind the start denote the file, so what stands in front of them decides
    rw [place_descend start hothers] at hfixed
    rw [components_descend start hothers] at hfixed ⊢
    have htold := htold.behind front start.components
    rw [count_up_append_names, List.mem_append, or_iff_left (up_not_mem_map_name others),
      and_iff_left htold, and_iff_left htold]
    rcases hfronts.lead_cases with ⟨n, rfl, hstart⟩ | ⟨rfl, hstart | hstart⟩
    · rw [hstart, List.count_replicate_self]
      exact ⟨denotes_replicate_iff hdenotes n, by simp [List.mem_replicate]⟩
    · rw [hstart]
      exact ⟨iff_of_true (hdenotes.behind _) (by decide), by decide⟩
    · -- a known file does not lie above the root
      rw [place, hstart] at hfixed
      exact absurd (congrArg (List.count .up) hfixed) (by simp [placeStep])
  · -- no name is left: the file is a hidden one, which nothing denotes
    obtain ⟨lead, hlead, dots, hdots, hsteps⟩ := components_hidden start hfronts.mem_starts x hx
    have hindex := not_isIndex_hidden hdots lead x
    have hnone : ∀ name, .name name ∉ front ++ ([] : List String).map Component.name := by
      simpa using hfronts.name_not_mem
    rw [hsteps]
    have htold : ¬ ToldByName (front ++ ([] : List String).map Component.name)
        (lead ++ [.name (dots ++ x)]) := by
      rintro (⟨name, hname⟩ | hmem)
      · exact hnone name hname
      · exact hindex hmem
    have hup : .up ∉ lead ++ [Component.name (dots ++ x)] := by
      simp only [List.mem_cons, List.not_mem_nil, or_false] at hlead
      rcases hlead with rfl | rfl <;> simp
    refine ⟨iff_of_false (fun hd => ?_) (fun hn => htold hn.2),
      iff_of_false hup fun hn => htold hn.2⟩
    rcases hd.eq_or_isIndex hnone with heq | hmem
    · exact hnone (dots ++ x) (heq ▸ List.mem_append_right _ List.mem_cons_self)
    · exact hindex hmem

/-- One step up in front of the place, and the file beside the directory of the importer. -/
theorem resolve_denotes_iff_lib :
    kindOf "../../lib/b" = .relative ∧ Undotted "../../lib/b" ∧
      resolve ⟨"src/a.ts"⟩ "../../lib/b" (· == ⟨"../lib/b.ts"⟩) = some ⟨"../lib/b.ts"⟩ ∧
      Denotes (placeOf ⟨"src/a.ts"⟩ "../../lib/b") (Path.mk "../lib/b.ts").components := by
  have hrelative : kindOf "../../lib/b" = .relative := by decide
  have hundotted : Undotted "../../lib/b" := by
    intro before name e he _ heq
    -- no emitted extension ends as the specifier does
    have hends : ∀ e ∈ emittedExtensions, e.toList.getLast? ≠ some 'b' ∧ e.toList ≠ [] := by decide
    have hlast := congrArg (fun s : String => s.toList.getLast?) heq
    simp only [String.toList_append, List.getLast?_append_of_ne_nil _ (hends e he).2] at hlast
    exact absurd hlast.symm (hends e he).1
  have hknown : ∀ p : Path, (p == ⟨"../lib/b.ts"⟩) = true → p.place = p.components := by
    intro p hp
    obtain rfl := beq_iff_eq.1 hp
    decide +kernel
  have hfound : resolve ⟨"src/a.ts"⟩ "../../lib/b" (· == ⟨"../lib/b.ts"⟩) =
      some ⟨"../lib/b.ts"⟩ := by decide +kernel
  have hplace : placeOf ⟨"src/a.ts"⟩ "../../lib/b" = [.up, .name "lib", .name "b"] := by
    decide +kernel
  refine ⟨hrelative, hundotted, hfound,
    (resolve_denotes_iff hrelative hundotted hknown hfound).1.2 ?_⟩
  rw [hplace]
  exact ⟨by decide, .inl ⟨"lib", by decide⟩⟩

/-- A second step up takes back the first, so a specifier that leaves the directory twice finds
a file in it, and so does one that leaves it once and ends there. -/
theorem resolve_returns_inside :
    (resolve ⟨"a.ts"⟩ "../../x" (· == ⟨"x.ts"⟩) = some ⟨"x.ts"⟩ ∧
      placeOf ⟨"a.ts"⟩ "../../x" = [.up, .up, .name "x"] ∧
      ¬ Denotes (placeOf ⟨"a.ts"⟩ "../../x") (Path.mk "x.ts").components) ∧
    resolve ⟨"a.ts"⟩ ".." (· == ⟨"...ts"⟩) = some ⟨"...ts"⟩ ∧
      placeOf ⟨"a.ts"⟩ ".." = [.up] ∧
      ¬ Denotes (placeOf ⟨"a.ts"⟩ "..") (Path.mk "...ts").components := by
  have hplace : placeOf ⟨"a.ts"⟩ "../../x" = [.up, .up, .name "x"] := by decide +kernel
  have hplace' : placeOf ⟨"a.ts"⟩ ".." = [.up] := by decide +kernel
  refine ⟨⟨by decide +kernel, hplace, fun h => ?_⟩, by decide +kernel, hplace', fun h => ?_⟩
  · rw [hplace] at h
    exact absurd h.count_up (by decide +kernel)
  · rw [hplace'] at h
    exact absurd h.count_up (by decide +kernel)

end Import
end Strata
