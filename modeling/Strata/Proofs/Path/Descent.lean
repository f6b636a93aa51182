/-
# Paths below a directory

A walk leads from a directory by names to a file; `Path.descend dir names` is the
path it writes. Such a path is told by its names in each of the forms in which the
library reads it:

| form | names are told apart by |
| --- | --- |
| steps | `descend_inj` |
| normal form | `normalize_descend_inj` |
| as seen from another directory | `relativeTo_descend_inj` |

Seen from the directory itself a path is its names with slashes between them
(`relativeTo_descend`).
-/

import Strata.Proofs.Path

namespace Strata

open Text

/-- Names only. -/
def AreNames (names : List String) : Prop := ∀ name ∈ names, IsName name

/-- The parts that some names are. -/
def partsOfNames (names : List String) : List (List Char) := names.map String.toList

/-- A name is not empty, since an empty part is no step. -/
theorem IsName.toList_ne_nil {name : String} (h : IsName name) : name.toList ≠ [] := fun hnil =>
  h.1 (String.toList_eq_nil_iff.1 hnil)

/-- Names with slashes between them do not begin with a slash. -/
theorem head?_joinChars_ne {names : List String} (h : AreNames names) :
    (joinChars ['/'] (partsOfNames names)).head? ≠ some '/' := by
  match names, h with
  | [], _ => simp [partsOfNames, joinChars]
  | name :: rest, h =>
    have hname := h name List.mem_cons_self
    obtain ⟨c, cs, hcs⟩ := List.exists_cons_of_ne_nil hname.toList_ne_nil
    have hc : c ≠ '/' := fun heq => hname.2.2.2 (by rw [hcs, heq]; exact List.mem_cons_self)
    have hjoin : ∃ more, joinChars ['/'] (partsOfNames (name :: rest)) = c :: more := by
      cases rest with
      | nil => exact ⟨cs, hcs⟩
      | cons next rest =>
        refine ⟨cs ++ ['/'] ++ joinChars ['/'] (partsOfNames (next :: rest)), ?_⟩
        rw [partsOfNames, List.map_cons, joinChars_cons _ (by simp), hcs]
        rfl
    obtain ⟨more, hmore⟩ := hjoin
    rw [hmore]
    simpa using hc

/-- Names hold no slash, so they are read back from the text that joins them. -/
theorem joinChars_partsOfNames_inj {names names' : List String} (h : AreNames names)
    (h' : AreNames names')
    (heq : joinChars ['/'] (partsOfNames names) = joinChars ['/'] (partsOfNames names')) :
    names = names' := by
  have hsplit : ∀ {names : List String}, AreNames names → names ≠ [] →
      splitOn '/' (joinChars ['/'] (partsOfNames names)) = partsOfNames names := by
    intro names h hne
    refine splitOn_joinChars (by simpa [partsOfNames] using hne) fun part hpart => ?_
    obtain ⟨name, hname, rfl⟩ := List.mem_map.1 hpart
    exact (h name hname).2.2.2
  -- nothing but no names at all is written as nothing
  have hempty : ∀ {names : List String}, AreNames names →
      joinChars ['/'] (partsOfNames []) = joinChars ['/'] (partsOfNames names) → names = [] := by
    intro names h heq
    by_contra hne
    have hparts := hsplit h hne
    rw [← heq] at hparts
    match names, h, hparts with
    | [name], h, hparts =>
      exact (h name List.mem_cons_self).toList_ne_nil (List.head_eq_of_cons_eq hparts).symm
    | name :: next :: rest, _, hparts =>
      simp [partsOfNames, joinChars, splitOn, splitWhere] at hparts
  by_cases hnil : names = []
  · subst hnil
    exact (hempty h' heq).symm
  · by_cases hnil' : names' = []
    · subst hnil'
      exact hempty h heq.symm
    · have hparts : partsOfNames names = partsOfNames names' := by
        rw [← hsplit h hnil, heq, hsplit h' hnil']
      exact List.map_injective_iff.2 (fun _ _ => String.toList_inj.1) hparts

namespace Path

/-- A path is its text. -/
theorem eq_of_text {p q : Path} (h : p.text = q.text) : p = q := by
  cases p
  cases q
  exact congrArg mk h

/-- The path that some names lead to from a directory. -/
def descend (dir : Path) (names : List String) : Path := names.foldl child dir

@[simp] theorem descend_nil (dir : Path) : dir.descend [] = dir := rfl

/-- Descending goes name by name. -/
theorem descend_cons (dir : Path) (name : String) (names : List String) :
    dir.descend (name :: names) = (dir.child name).descend names := rfl

/-- Descending in two stretches is descending once. -/
theorem descend_append (dir : Path) (names more : List String) :
    dir.descend (names ++ more) = (dir.descend names).descend more := List.foldl_append

/-! ### Steps -/

/-- Names add one component each, at the end. -/
theorem components_descend (dir : Path) {names : List String} (h : AreNames names) :
    (dir.descend names).components = dir.components ++ names.map Component.name := by
  induction names generalizing dir with
  | nil => simp
  | cons name names ih =>
    obtain ⟨hname, hnames⟩ := List.forall_mem_cons.1 h
    rw [descend_cons, ih _ hnames, components_child dir hname, List.append_assoc]
    rfl

/-- Components that are names are the same for the same names only. -/
theorem map_name_inj {names names' : List String}
    (h : names.map Component.name = names'.map Component.name) : names = names' :=
  List.map_injective_iff.2 (fun _ _ => Component.name.inj) h

/-- **The names of a path below a directory can be read off the path.** -/
theorem descend_inj (dir : Path) {names names' : List String} (h : AreNames names)
    (h' : AreNames names') (heq : dir.descend names = dir.descend names') : names = names' := by
  have hsteps := congrArg components heq
  rw [components_descend dir h, components_descend dir h'] at hsteps
  exact map_name_inj (List.append_cancel_left hsteps)

/-! ### Parts -/

/-- The parts of a path that stand in front of what is written behind it. -/
def front (p : Path) : List (List Char) :=
  match p.text.toList.getLast? with
  | none => []
  | some '/' => p.parts.dropLast
  | some _ => p.parts

/-- The steps of a path but for the one it starts with at the root or here. -/
def steps (p : Path) : List Component := p.front.filterMap stepOf?

/-- The three ways to write a relative path behind a path. -/
theorem join_cases (p : Path) {q : Path} (h : q.isAbsolute = false) :
    (p.text.toList = [] ∧ p.front = [] ∧ p.join q = q) ∨
    (∃ cs, p.text.toList = cs ++ ['/'] ∧ p.front = splitOn '/' cs ∧
      (p.join q).text.toList = cs ++ '/' :: q.text.toList) ∨
    (p.text.toList ≠ [] ∧ p.front = p.parts ∧
      (p.join q).text.toList = p.text.toList ++ '/' :: q.text.toList) := by
  rcases List.eq_nil_or_concat p.text.toList with hnil | ⟨cs, c, hcs⟩
  · have hempty : p.text = "" := String.toList_eq_nil_iff.1 hnil
    exact .inl ⟨hnil, by simp [front, hnil], by simp [join, h, hempty]⟩
  · rw [List.concat_eq_append] at hcs
    by_cases hc : c = '/'
    · subst hc
      have hparts : p.parts = splitOn '/' cs ++ [[]] :=
        (congrArg (splitOn '/') hcs).trans (splitWhere_append_cons (by rfl) _ _)
      refine .inr (.inl ⟨cs, hcs, ?_, by simp [join, h, hcs]⟩)
      simp [front, hcs, hparts]
    · exact .inr (.inr ⟨by simp [hcs], by simp [front, hcs], by simp [join, h, hcs]⟩)

/-- The parts of a path are those in front, and perhaps an empty one. -/
theorem parts_eq_front (p : Path) : p.parts = p.front ∨ p.parts = p.front ++ [[]] := by
  have hdot : Path.isAbsolute ⟨"."⟩ = false := by decide
  rcases join_cases p hdot with ⟨hnil, hfront, -⟩ | ⟨cs, hcs, hfront, -⟩ | ⟨-, hfront, -⟩
  · right
    rw [hfront, parts, hnil]
    rfl
  · right
    rw [hfront]
    exact (congrArg (splitOn '/') hcs).trans (splitWhere_append_cons (by rfl) _ _)
  · exact .inl hfront.symm

/-- What is written behind a path comes behind its parts. -/
theorem parts_join (p : Path) {q : Path} (h : q.isAbsolute = false) :
    (p.join q).parts = p.front ++ q.parts := by
  rcases join_cases p h with ⟨-, hfront, hjoin⟩ | ⟨cs, -, hfront, hjoin⟩ | ⟨-, hfront, hjoin⟩
  · rw [hfront, hjoin]
    rfl
  · rw [hfront]
    exact (congrArg (splitOn '/') hjoin).trans (splitWhere_append_cons (by rfl) _ _)
  · rw [hfront]
    exact (congrArg (splitOn '/') hjoin).trans (splitWhere_append_cons (by rfl) _ _)

/-- Joining a relative path does not change where a path begins. -/
theorem isAbsolute_join (p : Path) {q : Path} (h : q.isAbsolute = false) :
    (p.join q).isAbsolute = p.isAbsolute := by
  rcases join_cases p h with ⟨hnil, -, hjoin⟩ | ⟨cs, hcs, -, hjoin⟩ | ⟨hne, -, hjoin⟩
  · rw [hjoin, h, isAbsolute, hnil]
    rfl
  · rw [isAbsolute, isAbsolute, hjoin, hcs]
    cases cs <;> rfl
  · obtain ⟨c, cs, hcs⟩ := List.exists_cons_of_ne_nil hne
    rw [isAbsolute, isAbsolute, hjoin, hcs]
    rfl

/-- The components are told by the parts in front of the last separators alone. -/
theorem components_eq_front (p : Path) : p.components = stepsOfParts p.isAbsolute p.front := by
  rw [components_eq]
  rcases parts_eq_front p with hparts | hparts
  · rw [hparts]
  · by_cases hnil : p.front = []
    · rw [hparts, hnil]
      cases p.isAbsolute <;> rfl
    · rw [hparts, stepsOfParts_append hnil]
      simp [stepOf?]

/-- What is written behind a path comes behind its steps. -/
theorem components_prefix_join (p : Path) {q : Path} (h : q.isAbsolute = false) :
    p.components <+: (p.join q).components := by
  rw [components_eq_front p, components_eq (p.join q), parts_join p h, isAbsolute_join p h]
  by_cases hnil : p.front = []
  · have habs : p.isAbsolute = false := by
      rcases join_cases p h with ⟨htext, -, -⟩ | ⟨cs, -, hfront, -⟩ | ⟨-, hfront, -⟩
      · rw [isAbsolute, htext]
        rfl
      · exact absurd (hfront.symm.trans hnil) (splitWhere_ne_nil _ _)
      · exact absurd (hfront.symm.trans hnil) (splitWhere_ne_nil _ _)
    rw [hnil, habs]
    exact List.nil_prefix
  · rw [stepsOfParts_append hnil]
    exact List.prefix_append _ _

/-- A name begins with no slash. -/
theorem IsName.isAbsolute_eq_false {name : String} (h : IsName name) :
    Path.isAbsolute ⟨name⟩ = false := by
  have hhead : name.toList.head? ≠ some '/' := fun heq => h.2.2.2 (List.mem_of_head? heq)
  simpa [isAbsolute] using hhead

/-- A path with a name behind it is not empty. -/
theorem child_ne_nil (dir : Path) {name : String} (h : IsName name) :
    (dir.child name).text.toList ≠ [] := by
  rcases join_cases dir (IsName.isAbsolute_eq_false h) with
    ⟨-, -, hjoin⟩ | ⟨cs, -, -, hjoin⟩ | ⟨-, -, hjoin⟩
  · rw [child, hjoin]
    exact h.toList_ne_nil
  · rw [child, hjoin]
    simp
  · rw [child, hjoin]
    simp

/-- A name is one more part. -/
theorem front_child (dir : Path) {name : String} (h : IsName name) :
    (dir.child name).front = dir.front ++ [name.toList] := by
  have hrelative := IsName.isAbsolute_eq_false h
  obtain ⟨c, hlast⟩ : ∃ c, name.toList.getLast? = some c :=
    ⟨_, List.getLast?_eq_some_getLast h.toList_ne_nil⟩
  have hc : c ≠ '/' := fun heq => h.2.2.2 (heq ▸ List.mem_of_getLast? hlast)
  have hend : (dir.child name).text.toList.getLast? = some c := by
    rcases join_cases dir hrelative with ⟨-, -, hjoin⟩ | ⟨cs, -, -, hjoin⟩ | ⟨-, -, hjoin⟩
    · rw [child, hjoin, hlast]
    · rw [child, hjoin, List.getLast?_append, List.getLast?_cons, hlast]
      rfl
    · rw [child, hjoin, List.getLast?_append, List.getLast?_cons, hlast]
      rfl
  have hparts : (dir.child name).parts = dir.front ++ [name.toList] := by
    rw [child, parts_join dir hrelative, parts, splitOn_name h]
  rw [← hparts, front, hend]
  simp

/-- Names are as many parts, in their order. -/
theorem front_descend (dir : Path) {names : List String} (h : AreNames names) :
    (dir.descend names).front = dir.front ++ partsOfNames names := by
  induction names generalizing dir with
  | nil => simp [partsOfNames]
  | cons name names ih =>
    obtain ⟨hname, hnames⟩ := List.forall_mem_cons.1 h
    rw [descend_cons, ih _ hnames, front_child dir hname, List.append_assoc]
    rfl

/-- With at least one name at the end, the parts are those in front and the names. -/
theorem parts_descend (dir : Path) {names : List String} (h : AreNames names) (hne : names ≠ []) :
    (dir.descend names).parts = dir.front ++ partsOfNames names := by
  obtain ⟨inner, name, rfl⟩ := List.eq_nil_or_concat names |>.resolve_left hne
  rw [List.concat_eq_append] at h ⊢
  obtain ⟨hinner, hlast⟩ := List.forall_mem_append.1 h
  have hname := hlast name List.mem_cons_self
  rw [descend_append, descend_cons, descend_nil, child,
    parts_join _ (IsName.isAbsolute_eq_false hname), front_descend dir hinner, parts,
    splitOn_name hname]
  simp [partsOfNames]

/-- Descending does not change where a path begins. -/
theorem isAbsolute_descend (dir : Path) {names : List String} (h : AreNames names) :
    (dir.descend names).isAbsolute = dir.isAbsolute := by
  induction names generalizing dir with
  | nil => rfl
  | cons name names ih =>
    obtain ⟨hname, hnames⟩ := List.forall_mem_cons.1 h
    rw [descend_cons, ih _ hnames]
    exact isAbsolute_join dir (IsName.isAbsolute_eq_false hname)

/-! ### Normal forms -/

/-- Names are never folded away: there is no `..` among them. -/
theorem foldl_foldStep_names (names : List String) (back : List Component) :
    (names.map Component.name).foldl foldStep back =
      (names.map Component.name).reverse ++ back := by
  induction names generalizing back with
  | nil => rfl
  | cons name names ih =>
    rw [List.map_cons, List.foldl_cons, ih, List.reverse_cons, List.append_assoc]
    rfl

/-- Names at the end are kept as they are. -/
theorem foldSteps_append_names (steps : List Component) (names : List String) :
    foldSteps (steps ++ names.map Component.name) =
      foldSteps steps ++ names.map Component.name := by
  rw [foldSteps, List.foldl_append, foldl_foldStep_names, List.reverse_append,
    List.reverse_reverse]
  rfl

/-- Names are written behind the steps before them. -/
theorem exists_textOfSteps (steps : List Component) :
    ∃ lead, ∀ names : List String, names ≠ [] →
      textOfSteps (steps ++ names.map Component.name) =
        lead ++ joinChars ['/'] (partsOfNames names) := by
  have htexts : ∀ names : List String,
      (names.map Component.name).map textOfSteps.stepText = partsOfNames names := fun names => by
    rw [List.map_map]
    rfl
  have hbehind : ∀ before : List (List Char), ∃ lead, ∀ names : List String, names ≠ [] →
      joinChars ['/'] (before ++ partsOfNames names) =
        lead ++ joinChars ['/'] (partsOfNames names) := by
    intro before
    by_cases hnil : before = []
    · exact ⟨[], fun names _ => by rw [hnil]; rfl⟩
    · refine ⟨joinChars ['/'] before ++ ['/'], fun names hne => ?_⟩
      rw [joinChars_append hnil (by simpa [partsOfNames] using hne)]
  -- the root is written as a slash of its own in front, and not joined to what follows
  by_cases hroot : ∃ rest, steps = .root :: rest
  · obtain ⟨rest, rfl⟩ := hroot
    obtain ⟨lead, hlead⟩ := hbehind (rest.map textOfSteps.stepText)
    refine ⟨'/' :: lead, fun names hne => ?_⟩
    rw [List.cons_append, textOfSteps, List.map_append, htexts, hlead names hne]
    rfl
  · obtain ⟨lead, hlead⟩ := hbehind (steps.map textOfSteps.stepText)
    refine ⟨lead, fun names hne => ?_⟩
    have hsteps : ∀ rest, steps ++ names.map Component.name ≠ .root :: rest := by
      intro rest heq
      cases steps with
      | nil => cases names <;> simp at heq
      | cons step steps => exact hroot ⟨steps, by rw [(List.cons.inj heq).1]⟩
    rw [textOfSteps, List.map_append, htexts, hlead names hne]
    exact fun rest => hsteps rest

/-- **Below one directory, normal forms tell paths apart.** -/
theorem normalize_descend_inj (dir : Path) {names names' : List String} (h : AreNames names)
    (h' : AreNames names') (hne : names ≠ []) (hne' : names' ≠ [])
    (heq : (dir.descend names).normalize = (dir.descend names').normalize) : names = names' := by
  obtain ⟨lead, hlead⟩ := exists_textOfSteps (foldSteps dir.components)
  have htext : ∀ {names : List String}, AreNames names → names ≠ [] →
      (dir.descend names).normalize =
        ⟨String.ofList (lead ++ joinChars ['/'] (partsOfNames names))⟩ := by
    intro names h hne
    rw [normalize, components_descend dir h, foldSteps_append_names, hlead names hne]
  rw [htext h hne, htext h' hne'] at heq
  have hchars := String.ofList_injective (congrArg Path.text heq)
  exact joinChars_partsOfNames_inj h h' (List.append_cancel_left hchars)

/-! ### Paths as seen from a directory -/

/-- Every part that is a name counts as a step. -/
theorem isSome_stepOf?_of_mem {names : List String} (h : AreNames names) :
    ∀ part ∈ partsOfNames names, (stepOf? part).isSome := by
  intro part hpart
  obtain ⟨name, hname, rfl⟩ := List.mem_map.1 hpart
  rw [stepOf?_name (h name hname)]
  rfl

/-- A part that is no step is dropped and does not count. -/
theorem dropSteps_cons_of_none {part : List Char} (h : stepOf? part = none) (n : Nat)
    (rest : List (List Char)) : dropSteps n (part :: rest) = dropSteps n rest := by
  cases n <;> simp [dropSteps, h]

/-- Without a step to drop the parts stay from the first step on. -/
theorem dropSteps_zero_cons {part : List Char} {step : Component} (h : stepOf? part = some step)
    (rest : List (List Char)) : dropSteps 0 (part :: rest) = part :: rest := by
  simp [dropSteps, h]

/-- A part that is a step counts as one of those that are dropped. -/
theorem dropSteps_succ_cons {part : List Char} {step : Component} (h : stepOf? part = some step)
    (n : Nat) (rest : List (List Char)) : dropSteps (n + 1) (part :: rest) = dropSteps n rest := by
  simp [dropSteps, h]

/-- Where every part is a step, dropping steps is dropping parts. -/
theorem dropSteps_of_isSome {parts : List (List Char)}
    (h : ∀ part ∈ parts, (stepOf? part).isSome) (n : Nat) : dropSteps n parts = parts.drop n := by
  induction parts generalizing n with
  | nil => simp [dropSteps]
  | cons part rest ih =>
    obtain ⟨hpart, hrest⟩ := List.forall_mem_cons.1 h
    obtain ⟨step, hstep⟩ := Option.isSome_iff_exists.1 hpart
    cases n with
    | zero => exact dropSteps_zero_cons hstep rest
    | succ n => rw [dropSteps_succ_cons hstep, ih hrest, List.drop_succ_cons]

/-- Dropping steps first uses up the parts in front. -/
theorem dropSteps_append (n : Nat) (before : List (List Char)) {behind : List (List Char)}
    (h : ∀ part ∈ behind, (stepOf? part).isSome) :
    dropSteps n (before ++ behind) =
      dropSteps n before ++ behind.drop (n - (before.filterMap stepOf?).length) := by
  induction before generalizing n with
  | nil => simpa [dropSteps] using dropSteps_of_isSome h n
  | cons part before ih =>
    rw [List.cons_append]
    cases hstep : stepOf? part with
    | none =>
      rw [dropSteps_cons_of_none hstep, dropSteps_cons_of_none hstep,
        List.filterMap_cons_none hstep, ih]
    | some step =>
      rw [List.filterMap_cons_some hstep]
      cases n with
      | zero => simp [dropSteps_zero_cons hstep]
      | succ n => simp [dropSteps_succ_cons hstep, ih]

/-- Dropping all steps there are leaves nothing. -/
theorem dropSteps_eq_nil {n : Nat} {before : List (List Char)}
    (h : (before.filterMap stepOf?).length ≤ n) : dropSteps n before = [] := by
  induction before generalizing n with
  | nil => simp [dropSteps]
  | cons part before ih =>
    cases hstep : stepOf? part with
    | none =>
      rw [List.filterMap_cons_none hstep] at h
      rw [dropSteps_cons_of_none hstep, ih h]
    | some step =>
      rw [List.filterMap_cons_some hstep, List.length_cons] at h
      obtain ⟨m, rfl⟩ := Nat.exists_eq_succ_of_ne_zero (by omega : n ≠ 0)
      rw [Nat.succ_eq_add_one, dropSteps_succ_cons hstep, ih (by omega)]

/-- Neither the root nor a dot is a step of its own. -/
theorem stepOf?_ne {part : List Char} {step : Component} (h : stepOf? part = some step) :
    step ≠ .root ∧ step ≠ .here := by
  unfold stepOf? at h
  split at h
  · cases h
  · split at h
    · exact (Option.some.inj h) ▸ ⟨by decide, by decide⟩
    · exact (Option.some.inj h) ▸ ⟨Component.noConfusion, Component.noConfusion⟩

/-- The steps of a path are its components that are no start. -/
theorem filter_components (p : Path) :
    (p.components.filter fun step => step ≠ .root ∧ step ≠ .here) = p.steps := by
  have hkeep : ∀ parts : List (List Char),
      ((parts.filterMap stepOf?).filter fun step => step ≠ .root ∧ step ≠ .here) =
        parts.filterMap stepOf? := by
    intro parts
    refine List.filter_eq_self.2 fun step hstep => ?_
    obtain ⟨part, -, hpart⟩ := List.mem_filterMap.1 hstep
    simpa using stepOf?_ne hpart
  rw [components_eq_front, steps]
  -- only the first step can be the root or the directory itself
  cases p.isAbsolute with
  | true =>
    have habs : stepsOfParts true p.front = .root :: p.front.filterMap stepOf? := rfl
    rw [habs, List.filter_cons_of_neg (by simp)]
    exact hkeep _
  | false =>
    by_cases hhere : ∃ rest, p.front = ['.'] :: rest
    · obtain ⟨rest, hrest⟩ := hhere
      rw [hrest]
      simpa [stepsOfParts, stepOf?] using hkeep rest
    · have hplain : stepsOfParts false p.front = p.front.filterMap stepOf? := by
        cases hfront : p.front with
        | nil => rfl
        | cons part rest =>
          exact stepsOfParts_of_ne (fun heq => hhere ⟨rest, by rw [hfront, heq]⟩) rest
      rw [hplain]
      exact hkeep _

/-- The parts up to the last name are all parts, when a name comes last. -/
theorem partsToName_descend (dir : Path) {names : List String} (h : AreNames names)
    (hne : names ≠ []) : (dir.descend names).partsToName = dir.front ++ partsOfNames names := by
  obtain ⟨inner, name, rfl⟩ := List.eq_nil_or_concat names |>.resolve_left hne
  rw [partsToName, parts_descend dir h hne]
  rw [List.concat_eq_append] at h ⊢
  have hname := h name (by simp)
  have hne1 : name.toList ≠ [] := hname.toList_ne_nil
  have hne2 : name.toList ≠ ['.'] := fun heq => hname.2.1 (String.toList_inj.1 heq)
  have hlast : dir.front ++ partsOfNames (inner ++ [name]) =
      (dir.front ++ partsOfNames inner) ++ [name.toList] := by simp [partsOfNames]
  rw [hlast, List.reverse_append, List.reverse_singleton, List.singleton_append,
    List.dropWhile_cons_of_neg (by simp [hne1, hne2])]
  simp

/-- A path without components has no parts in front. -/
theorem front_eq_nil {p : Path} (h : p.components = []) : p.front = [] := by
  cases htext : p.text.toList with
  | nil => simp [front, htext]
  | cons c cs =>
    by_cases hc : c = '/'
    · have habs : p.isAbsolute = true := by simp [isAbsolute, htext, hc]
      rw [components, if_pos habs] at h
      cases h
    · -- a first part that is not empty is a step
      have habs : p.isAbsolute = false := by simpa [isAbsolute, htext] using hc
      obtain ⟨piece, pieces, hsplit⟩ := List.exists_cons_of_ne_nil (splitWhere_ne_nil (· == '/') cs)
      have hparts : p.parts = (c :: piece) :: pieces := by
        rw [parts, htext, splitOn, splitWhere_cons, hsplit]
        simp [hc, extendFirst]
      rw [components_eq, habs, hparts] at h
      by_cases hdot : c :: piece = ['.']
      · rw [hdot] at h
        cases h
      · obtain ⟨step, hstep⟩ : ∃ step, stepOf? (c :: piece) = some step := by
          rw [stepOf?, if_neg (by simpa using hdot)]
          split <;> exact ⟨_, rfl⟩
        rw [stepsOfParts_of_ne hdot, List.filterMap_cons_some hstep] at h
        cases h

/-- What `root` sees of the parts of a directory in front of the names below it. -/
def seenFront (root dir : Path) : List (List Char) :=
  if root.components.isEmpty then dir.front else dropSteps root.steps.length dir.front

/-- What is left of a path below a directory, as it was written: the parts behind as many steps
as the directory has. -/
theorem under?_descend (root dir : Path) {names : List String} (h : AreNames names)
    (hne : names ≠ []) :
    under? root (dir.descend names) =
      if root.components.isPrefixOf (dir.descend names).components then
        some ⟨String.ofList (joinChars ['/']
          (seenFront root dir ++ (partsOfNames names).drop (root.steps.length - dir.steps.length)))⟩
      else none := by
  rw [under?, filter_components, partsToName_descend dir h hne, seenFront]
  refine if_congr Iff.rfl ?_ rfl
  dsimp only
  by_cases hempty : root.components.isEmpty
  · have hsteps : root.steps = [] := by
      rw [← filter_components, List.isEmpty_iff.1 hempty]
      rfl
    rw [if_pos hempty, if_pos hempty, hsteps]
    obtain ⟨part, rest, hparts⟩ :=
      List.exists_cons_of_ne_nil (l := dir.front ++ partsOfNames names)
        (by simp [partsOfNames, hne])
    rw [List.length_nil, Nat.zero_sub, List.drop_zero, hparts]
  · rw [if_neg hempty, if_neg hempty, dropSteps_append _ _ (isSome_stepOf?_of_mem h)]
    rfl

/-- The names of a path below a directory begin with those that lead there. -/
theorem steps_begin_with {root dir : Path} {names : List String} (h : AreNames names)
    (hbegins : root.components <+: (dir.descend names).components) :
    root.steps <+: dir.steps ++ names.map Component.name := by
  have hfilter := hbegins.filter fun step => step ≠ .root ∧ step ≠ .here
  have hnames : ((names.map Component.name).filter fun step => step ≠ .root ∧ step ≠ .here) =
      names.map Component.name := by
    refine List.filter_eq_self.2 fun step hstep => ?_
    obtain ⟨name, -, rfl⟩ := List.mem_map.1 hstep
    simp
  rwa [components_descend dir h, List.filter_append, hnames, filter_components,
    filter_components] at hfilter

/-- Dropping names drops their parts. -/
theorem partsOfNames_drop (names : List String) (n : Nat) :
    (partsOfNames names).drop n = partsOfNames (names.drop n) := (List.map_drop ..).symm

/-- Names without a backslash are written as they are. -/
theorem map_forwardSlashes_partsOfNames {names : List String}
    (h : ∀ name ∈ names, '\\' ∉ name.toList) :
    (partsOfNames names).map forwardSlashes = partsOfNames names := by
  rw [partsOfNames, List.map_map]
  exact List.map_congr_left fun name hname => forwardSlashes_eq_self (h name hname)

/-- Seen from its directory, a path is its names, read with slashes only. -/
theorem toList_relativeTo_descend (root : Path) {names : List String} (h : AreNames names)
    (hne : names ≠ []) :
    (root.relativeTo (root.descend names)).toList =
      forwardSlashes (joinChars ['/'] (partsOfNames names)) := by
  have hbegins : root.components.isPrefixOf (root.descend names).components = true := by
    rw [components_descend root h, List.isPrefixOf_iff_prefix]
    exact List.prefix_append _ _
  have hfront : seenFront root root = [] := by
    unfold seenFront
    split
    · rename_i hempty
      exact front_eq_nil (List.isEmpty_iff.1 hempty)
    · exact dropSteps_eq_nil (Nat.le_refl _)
  rw [relativeTo, under?_descend root root h hne, if_pos hbegins, hfront, Nat.sub_self]
  simp only [Option.getD_some, String.toList_ofList, List.nil_append, List.drop_zero]

/-- **Seen from its directory, a path is its names with slashes between them.** -/
theorem relativeTo_descend (root : Path) {names : List String} (h : AreNames names)
    (hne : names ≠ []) (hplain : ∀ name ∈ names, '\\' ∉ name.toList) :
    root.relativeTo (root.descend names) = Text.join "/" names := by
  refine String.toList_inj.1 ?_
  rw [toList_relativeTo_descend root h hne, forwardSlashes_joinChars,
    map_forwardSlashes_partsOfNames hplain, Text.join, String.toList_ofList]
  rfl

/-- What is written in front of names does not hide them. -/
theorem joinChars_append_cancel (lead : List (List Char)) {names names' : List String}
    (h : AreNames names) (h' : AreNames names')
    (heq : joinChars ['/'] (lead ++ partsOfNames names) =
      joinChars ['/'] (lead ++ partsOfNames names')) : names = names' := by
  by_cases hlead : lead = []
  · subst hlead
    exact joinChars_partsOfNames_inj h h' heq
  · have hparts : ∀ names : List String, names ≠ [] →
        joinChars ['/'] (lead ++ partsOfNames names) =
          joinChars ['/'] lead ++ '/' :: joinChars ['/'] (partsOfNames names) := by
      intro names hne
      rw [joinChars_append hlead (by simpa [partsOfNames] using hne), List.append_assoc]
      rfl
    by_cases hnil : names = []
    · by_cases hnil' : names' = []
      · rw [hnil, hnil']
      · rw [hparts names' hnil', hnil] at heq
        simp [partsOfNames] at heq
    · by_cases hnil' : names' = []
      · rw [hparts names hnil, hnil'] at heq
        simp [partsOfNames] at heq
      · rw [hparts names hnil, hparts names' hnil'] at heq
        exact joinChars_partsOfNames_inj h h' (List.cons.inj (List.append_cancel_left heq)).2

/-- The parts of a path below a directory, as `root` sees them. -/
theorem text_relativeTo_descend (root dir : Path) {names : List String} (h : AreNames names)
    (hne : names ≠ []) (hplain : ∀ name ∈ names, '\\' ∉ name.toList) :
    (root.relativeTo (dir.descend names)).toList =
      joinChars ['/']
        (if root.components.isPrefixOf (dir.descend names).components then
          (seenFront root dir).map forwardSlashes ++
            partsOfNames (names.drop (root.steps.length - dir.steps.length))
        else dir.front.map forwardSlashes ++ partsOfNames names) := by
  have hdrop : ∀ n, (partsOfNames (names.drop n)).map forwardSlashes =
      partsOfNames (names.drop n) := fun n =>
    map_forwardSlashes_partsOfNames fun name hname => hplain name (List.mem_of_mem_drop hname)
  unfold relativeTo
  rw [under?_descend root dir h hne, String.toList_ofList]
  split
  · rw [Option.getD_some, String.toList_ofList, forwardSlashes_joinChars, List.map_append,
      partsOfNames_drop, hdrop]
  · have htext : (dir.descend names).text.toList =
        joinChars ['/'] (dir.front ++ partsOfNames names) := by
      rw [← parts_descend dir h hne, parts, joinChars_splitOn]
    rw [Option.getD_none, htext, forwardSlashes_joinChars, List.map_append,
      map_forwardSlashes_partsOfNames hplain]

/-- When one path below `sub` lies below `root` and another does not, `root` lies below
`sub`, and sees nothing but names. -/
theorem seenFront_eq_nil {root sub : Path} {names names' : List String} (h : AreNames names)
    (h' : AreNames names') (hunder : root.components <+: (sub.descend names).components)
    (hbeside : ¬ root.components <+: (sub.descend names').components) :
    seenFront root sub = [] := by
  have hbelow : sub.components <+: root.components := by
    have hsub : sub.components <+: (sub.descend names).components := by
      rw [components_descend sub h]
      exact List.prefix_append _ _
    refine (List.prefix_or_prefix_of_prefix hsub hunder).resolve_right fun hbegins => hbeside ?_
    rw [components_descend sub h']
    exact hbegins.trans (List.prefix_append _ _)
  have hsteps : sub.steps.length ≤ root.steps.length := by
    rw [← filter_components, ← filter_components]
    exact (hbelow.filter _).length_le
  have hroot : ¬ root.components.isEmpty := by
    intro hempty
    rw [List.isEmpty_iff.1 hempty] at hbeside
    exact hbeside List.nil_prefix
  rw [seenFront, if_neg hroot]
  exact dropSteps_eq_nil hsteps

/-- What `root` sees of a path below it never equals the whole of a path that
does not lie below `root`. -/
theorem relativeTo_descend_ne (root sub : Path) {names names' : List String}
    (h : AreNames names) (h' : AreNames names') (hne : names ≠ []) (hne' : names' ≠ [])
    (hplain : ∀ name ∈ names, '\\' ∉ name.toList)
    (hplain' : ∀ name ∈ names', '\\' ∉ name.toList)
    (hunder : root.components <+: ((root.join sub).descend names).components)
    (hbeside : ¬ root.components <+: ((root.join sub).descend names').components) :
    root.relativeTo ((root.join sub).descend names) ≠
      root.relativeTo ((root.join sub).descend names') := by
  intro heq
  have habs : sub.isAbsolute = true := by
    by_contra hrelative
    rw [Bool.not_eq_true] at hrelative
    refine hbeside ?_
    rw [components_descend _ h']
    exact (components_prefix_join root hrelative).trans (List.prefix_append _ _)
  have hdir : root.join sub = sub := if_pos habs
  rw [hdir] at hunder hbeside heq
  have htexts := congrArg String.toList heq
  rw [text_relativeTo_descend root sub h hne hplain,
    if_pos (List.isPrefixOf_iff_prefix.2 hunder),
    text_relativeTo_descend root sub h' hne' hplain',
    if_neg (fun hbegins => hbeside (List.isPrefixOf_iff_prefix.1 hbegins))] at htexts
  rw [seenFront_eq_nil h h' hunder hbeside, List.map_nil, List.nil_append] at htexts
  have hdropped : AreNames (names.drop (root.steps.length - sub.steps.length)) :=
    fun name hname => h name (List.mem_of_mem_drop hname)
  refine head?_joinChars_ne hdropped ?_
  -- the other path is absolute, and begins with a slash
  have hhead : (sub.descend names').text.toList.head? = some '/' := by
    have hsub := isAbsolute_descend sub h'
    rwa [habs, isAbsolute, beq_iff_eq] at hsub
  rw [htexts, ← map_forwardSlashes_partsOfNames hplain', ← List.map_append,
    ← forwardSlashes_joinChars, ← parts_descend sub h' hne', parts, joinChars_splitOn,
    forwardSlashes, List.head?_map, hhead]
  rfl

/-- Paths below `root` that go through one directory have the names in common
that lead to `root`. -/
theorem take_eq_take_of_below {root dir : Path} {names names' : List String} (h : AreNames names)
    (h' : AreNames names') (hbegins : root.components <+: (dir.descend names).components)
    (hbegins' : root.components <+: (dir.descend names').components) :
    names.take (root.steps.length - dir.steps.length) =
      names'.take (root.steps.length - dir.steps.length) := by
  have hsteps := (List.prefix_iff_eq_take.1 (steps_begin_with h hbegins)).symm.trans
    (List.prefix_iff_eq_take.1 (steps_begin_with h' hbegins'))
  rw [List.take_append, List.take_append] at hsteps
  have hnames := List.append_cancel_left hsteps
  rw [← List.map_take, ← List.map_take] at hnames
  exact map_name_inj hnames

/-- **Below a directory that is written behind `root`, what `root` sees tells
paths apart.** -/
theorem relativeTo_descend_inj (root sub : Path) {names names' : List String}
    (h : AreNames names) (h' : AreNames names') (hne : names ≠ []) (hne' : names' ≠ [])
    (hplain : ∀ name ∈ names, '\\' ∉ name.toList)
    (hplain' : ∀ name ∈ names', '\\' ∉ name.toList)
    (heq : root.relativeTo ((root.join sub).descend names) =
      root.relativeTo ((root.join sub).descend names')) : names = names' := by
  have hdropped : ∀ {names : List String}, AreNames names →
      ∀ n, AreNames (names.drop n) := fun h n name hname => h name (List.mem_of_mem_drop hname)
  have htexts := congrArg String.toList heq
  rw [text_relativeTo_descend root _ h hne hplain,
    text_relativeTo_descend root _ h' hne' hplain'] at htexts
  simp only [List.isPrefixOf_iff_prefix] at htexts
  by_cases hunder : root.components <+: ((root.join sub).descend names).components
  · by_cases hunder' : root.components <+: ((root.join sub).descend names').components
    · rw [if_pos hunder, if_pos hunder'] at htexts
      have hdrop := joinChars_append_cancel _ (hdropped h _) (hdropped h' _) htexts
      have htake := take_eq_take_of_below h h' hunder hunder'
      rw [← List.take_append_drop (root.steps.length - (root.join sub).steps.length) names, htake,
        hdrop, List.take_append_drop]
    · exact absurd heq (relativeTo_descend_ne root sub h h' hne hne' hplain hplain' hunder hunder')
  · by_cases hunder' : root.components <+: ((root.join sub).descend names').components
    · exact absurd heq.symm
        (relativeTo_descend_ne root sub h' h hne' hne hplain' hplain hunder' hunder)
    · rw [if_neg hunder, if_neg hunder'] at htexts
      exact joinChars_append_cancel _ h h' htexts

end Path
end Strata
