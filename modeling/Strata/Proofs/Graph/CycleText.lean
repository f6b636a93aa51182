/-
# The texts of cycles

Specification, section 4.5, item 4: cycles as rendered texts.

A diagnosis shows a cycle as one text, the names on its path with arrows between
them, and it lists equal texts once. So it may lose a cycle when two paths are
written alike. That takes a name with an arrow in it: the nodes are files of code,
whose names end in a letter of their extension, so an arrow between two names
cannot reach into either of them, and the path can be read back from the text
(`joinChars_inj`). Where no name holds an arrow, all texts differ
(`ImportGraph.nodup_cycleTexts`).
-/

import Strata.Proofs.Graph.CycleOrder
import Strata.Proofs.Import.Denoted

namespace Strata

namespace Text

/-! ### Joined texts read back -/

/-- A piece that stands apart from a separator behind it: it neither holds the
separator nor ends in one of its characters. -/
structure Apart (sep piece : List Char) : Prop where
  not_infix : ¬ sep <:+: piece
  last : ∀ c ∈ piece.getLast?, c ∉ sep

variable {sep : List Char}

/-- Nothing stands between a piece and the first separator behind it. -/
theorem Apart.eq_nil_of_append {piece more rest behind : List Char}
    (h : Apart sep (piece ++ more)) (heq : sep ++ rest = more ++ sep ++ behind) : more = [] := by
  by_contra hne
  have hmore : more <+: sep ++ rest := ⟨sep ++ behind, by rw [heq, List.append_assoc]⟩
  rcases List.prefix_or_prefix_of_prefix hmore (List.prefix_append sep rest) with hshort | hlong
  · -- the separator would begin inside the piece and reach over its end
    obtain ⟨init, c, rfl⟩ := (List.eq_nil_or_concat more).resolve_left hne
    rw [List.concat_eq_append] at h hshort
    refine h.last c (by simp) (hshort.subset (by simp))
  · exact h.not_infix (hlong.isInfix.trans (List.suffix_append piece more).isInfix)

/-- The first separator ends the first piece. -/
theorem Apart.eq_of_append {x y rest behind : List Char} (hx : Apart sep x) (hy : Apart sep y)
    (heq : x ++ sep ++ rest = y ++ sep ++ behind) : x = y ∧ rest = behind := by
  have hxy : x = y := by
    rw [List.append_assoc, List.append_assoc] at heq
    rcases List.append_eq_append_iff.1 heq with ⟨more, rfl, hmore⟩ | ⟨more, rfl, hmore⟩
    · rw [hy.eq_nil_of_append (hmore.trans (List.append_assoc ..).symm), List.append_nil]
    · rw [hx.eq_nil_of_append (hmore.trans (List.append_assoc ..).symm), List.append_nil]
  subst hxy
  exact ⟨rfl, List.append_cancel_left heq⟩

/-- **Joined pieces can be read back**, when they stand apart from the separator. -/
theorem joinChars_inj {xs ys : List (List Char)} (hxs : ∀ x ∈ xs, Apart sep x)
    (hys : ∀ y ∈ ys, Apart sep y) (hne : xs ≠ []) (hne' : ys ≠ [])
    (heq : joinChars sep xs = joinChars sep ys) : xs = ys := by
  induction xs generalizing ys with
  | nil => exact absurd rfl hne
  | cons x xs ih =>
    obtain ⟨y, ys, rfl⟩ := List.exists_cons_of_ne_nil hne'
    obtain ⟨hx, hxs⟩ := List.forall_mem_cons.1 hxs
    obtain ⟨hy, hys⟩ := List.forall_mem_cons.1 hys
    -- a piece alone holds no separator, so both lists go on or both end
    have hends {z rest : List Char} {zs : List (List Char)} (hz : Apart sep z)
        (hzs : zs ≠ []) (h : z = rest ++ sep ++ joinChars sep zs) : False :=
      hz.not_infix ⟨rest, joinChars sep zs, h.symm⟩
    by_cases hnil : xs = [] <;> by_cases hnil' : ys = []
    · subst hnil hnil'
      exact congrArg (fun z => [z]) heq
    · subst hnil
      exact (hends hx hnil' (heq.trans (joinChars_cons y hnil'))).elim
    · subst hnil'
      exact (hends hy hnil (heq.symm.trans (joinChars_cons x hnil))).elim
    · rw [joinChars_cons x hnil, joinChars_cons y hnil'] at heq
      obtain ⟨hfirst, hrest⟩ := hx.eq_of_append hy heq
      rw [hfirst, ih hxs hys hnil hnil' hrest]

/-- Joined pieces end as the last of them does. -/
theorem getLast?_joinChars (xs : List (List Char)) {last : List Char} (h : last ≠ []) :
    (joinChars sep (xs ++ [last])).getLast? = last.getLast? := by
  by_cases hnil : xs = []
  · subst hnil
    rfl
  · rw [joinChars_append hnil (by simp), joinChars, List.getLast?_append_of_ne_nil _ h]

end Text

open Text

/-! ### How a node is named -/

namespace Path

/-- The last character of a relative path is that of the last name. -/
theorem getLast?_relativeTo_descend (root dir : Path) {names : List String} {last : String}
    (h : AreNames (names ++ [last])) (hplain : ∀ name ∈ names ++ [last], '\\' ∉ name.toList)
    {c : Char} (hc : c ∈ (root.relativeTo (dir.descend (names ++ [last]))).toList.getLast?) :
    c ∈ last.toList.getLast? := by
  have hlast : last.toList ≠ [] := (h last (by simp)).toList_ne_nil
  have hjoined (front : List (List Char)) (before : List String) :
      (joinChars ['/'] (front ++ partsOfNames (before ++ [last]))).getLast? =
        last.toList.getLast? := by
    rw [partsOfNames, List.map_append, ← List.append_assoc]
    exact getLast?_joinChars _ hlast
  rw [text_relativeTo_descend root dir h (by simp) hplain] at hc
  split at hc
  · by_cases hall : root.steps.length - dir.steps.length ≤ names.length
    · rwa [List.drop_append_of_le_length hall, hjoined] at hc
    · -- the root lies at the file itself, so nothing of its path is seen
      have hroot : root.components.isEmpty = false := by
        refine Bool.eq_false_iff.2 fun hempty => hall ?_
        rw [← filter_components root, List.isEmpty_iff.1 hempty]
        exact (Nat.zero_sub _).trans_le (Nat.zero_le _)
      have hfront : seenFront root dir = [] := by
        rw [seenFront, hroot]
        exact dropSteps_eq_nil (by rw [← steps]; omega)
      have hdrop : (names ++ [last]).drop (root.steps.length - dir.steps.length) = [] :=
        List.drop_eq_nil_of_le (by simp; omega)
      rw [hfront, hdrop] at hc
      cases hc
  · rwa [hjoined] at hc

/-- A file of code has a name that ends in the last letter of its extension. -/
theorem last_of_isCodeFile {dir : Path} {name : String} (h : IsName name)
    (hcode : isCodeFile (dir.child name) = true) {c : Char} (hc : c ∈ name.toList.getLast?) :
    c ∉ " -> ".toList := by
  have hletters : ∀ e ∈ Import.sourceExtensions,
      ('.' :: e.toList).getLast? ∈ [some 's', some 'x'] := by decide
  rw [isCodeFile, extension?, fileName?_child dir h, Option.any_eq_true] at hcode
  obtain ⟨e, hcut, hsource⟩ := hcode
  obtain ⟨tail, htail, rfl⟩ := Option.map_eq_some_iff.1 hcut
  obtain ⟨stem, hname, -, -⟩ := Import.eq_append_dot_of_cut h
    (htail.trans (congrArg some String.toList_ofList.symm))
  rw [hname, toList_append_dot, List.getLast?_append_of_ne_nil _ (by simp)] at hc
  have hletter := hletters _ (List.contains_iff_mem.1 hsource)
  rw [Option.mem_def.1 hc] at hletter
  rcases List.mem_pair.1 hletter with heq | heq <;> rw [Option.some.inj heq] <;> decide

end Path

namespace ImportGraph

variable {g : ImportGraph}

/-- No node is named by a text that ends in a character of an arrow. -/
theorem last_of_mem_nodes {files : Files} {root : Path} {c : Contract}
    (hwell : files.top.WellNamed)
    (hplain : ∀ tree, files.find (c.sourceDirectory root) = .ok tree → tree.Plain)
    (h : ImportGraph.build files root c = .ok g) {n : Graph.Node} (hn : n ∈ g.nodes) {x : Char}
    (hx : x ∈ n.relativePath.toList.getLast?) : x ∉ " -> ".toList := by
  rcases build_cases h with ⟨-, rfl⟩ | ⟨entries, all, configs, hfind, -, -, rfl⟩
  · exact absurd hn (Array.not_mem_empty n)
  · have hentries := Files.wellNamed_of_find hwell hfind
    obtain ⟨s, hs, rfl⟩ := List.mem_map.1 (List.mem_toArray.1 hn)
    obtain ⟨names, text, hfound, ⟨hcode, -⟩, rfl⟩ := (Graph.mem_sourcesBelow hentries).1 hs
    obtain ⟨init, last, rfl⟩ := (List.eq_nil_or_concat names).resolve_left hfound.ne_nil
    rw [List.concat_eq_append] at hfound hx hcode
    have hnames := hfound.areNames hentries
    rw [Path.descend_append] at hcode
    exact Path.last_of_isCodeFile (hnames last (by simp)) hcode
      (Path.getLast?_relativeTo_descend root _ hnames
        (fun name hname => (hfound.plain (hplain _ hfind) name hname).noBackslash) hx)

/-- **The texts of the cycles differ**, where the names of the nodes are distinct and
hold no arrow. -/
theorem nodup_cycleTexts {files : Files} {root : Path} {c : Contract}
    (hwell : files.top.WellNamed)
    (hplain : ∀ tree, files.find (c.sourceDirectory root) = .ok tree → tree.Plain)
    (h : ImportGraph.build files root c = .ok g) 
    (harrows : ∀ n ∈ g.nodes, ¬ " -> ".toList <:+: n.relativePath.toList) :
    (g.cycles.map (join " -> ")).Nodup := by
  have hreports := reportsCycles h
  have hdistinct := distinctNames_of_build hwell hplain h
  have hapart : ∀ n ∈ g.nodes, Apart " -> ".toList n.relativePath.toList := fun n hn =>
    ⟨harrows n hn, fun x hx => last_of_mem_nodes hwell hplain h hn hx⟩
  have hpath : ∀ cycle ∈ Graph.shownCycles g, ∀ x ∈ cycle.path.map String.toList,
      Apart " -> ".toList x := by
    intro cycle hcycle x hx
    obtain ⟨name, hname, rfl⟩ := List.mem_map.1 hx
    obtain ⟨k, hk, rfl⟩ := List.mem_map.1 ((Graph.shownCycles_perm g).mem_iff.1 hcycle)
    have hstrong := ((mem_filter_isCyclic_iff hreports.wellFormed).1 hk).1
    obtain ⟨v, hv, rfl⟩ := (Graph.cycleOf_names g.adjacency g.nameOf k name).1 (.inl hname)
    obtain ⟨n, hn⟩ : ∃ n, g.nodes[v]? = some n :=
      ⟨_, Array.getElem?_eq_getElem (hstrong.isNode v hv)⟩
    have hname : g.nameOf v = n.relativePath := by
      rw [nameOf, hn]
      rfl
    rw [hname]
    exact hapart n (Array.mem_of_getElem? hn)
  rw [hreports.cycles, List.map_map]
  refine List.pairwise_map.2 (hdistinct.beginApart.imp_of_mem fun {a b} ha hb hab heq => ?_)
  -- two cycles begin at different nodes, and a text tells how its path begins
  obtain ⟨v, w, rest, more, hne, hva, hwb⟩ := hab
  have hchars := String.ofList_inj.1 heq
  have hpaths := joinChars_inj (hpath a ha) (hpath b hb) (by simp [hva]) (by simp [hwb]) hchars
  rw [hva, hwb] at hpaths
  exact hne (String.toList_inj.1 (List.cons.inj hpaths).1)

end ImportGraph

end Strata
