/-
# Normal forms of paths

A path without superfluous steps is one of four starts with names behind it:

| start | when |
| --- | --- |
| nothing | a relative path that does not leave its directory |
| `/` | an absolute path |
| `..` | a relative path that leaves its directory |
| `/..` | an absolute path that leaves the root |

Every normal form is of this kind (`exists_normalize`), and a path of this kind is its
own normal form (`normalize_descend_start`), so nothing is left to do for a second pass
(`normalize_normalize`). A name that is written behind a path and a slash is one more
name behind the normal form of what stands before (`normalize_join_slash_name`).
-/

import Strata.Proofs.Path.Descent

namespace Strata

open Text

theorem Text.not_mem_of_mem_splitOn {sep : Char} {cs piece : List Char}
    (h : piece ∈ splitOn sep cs) : sep ∉ piece := fun hmem => by
  simpa using eq_false_of_mem_splitWhere h sep hmem

theorem AreNames.nil : AreNames [] := fun _ hmem => absurd hmem List.not_mem_nil

theorem AreNames.concat {names : List String} {name : String} (h : AreNames names)
    (hname : IsName name) : AreNames (names ++ [name]) :=
  List.forall_mem_append.2 ⟨h, by simpa using hname⟩

namespace Path

/-- What stands in a normal form before the names. -/
def starts : List Path := [⟨""⟩, ⟨"/"⟩, ⟨".."⟩, ⟨"/.."⟩]

theorem starts_cases {start : Path} (h : start ∈ starts) :
    start = ⟨""⟩ ∨ start = ⟨"/"⟩ ∨ start = ⟨".."⟩ ∨ start = ⟨"/.."⟩ := by
  simpa [starts] using h

/-- The steps of a start and of the names behind it. -/
def stepsBehind (start : Path) (names : List String) : List Component :=
  start.components ++ names.map Component.name

/-! ### The steps of a path -/

/-- A step that may stand anywhere in a path. -/
def IsInner (step : Component) : Prop := step = .up ∨ ∃ name, IsName name ∧ step = .name name

/-- A part of a path is a step up or a name. -/
theorem isInner_of_stepOf? {part : List Char} {step : Component} (h : stepOf? part = some step)
    (hpart : '/' ∉ part) : IsInner step := by
  unfold stepOf? at h
  split at h
  · cases h
  · rename_i hsome
    rw [not_or] at hsome
    split at h
    · exact .inl (Option.some.inj h).symm
    · rename_i hup
      refine .inr ⟨String.ofList part, ⟨?_, ?_, ?_, by simpa using hpart⟩,
        (Option.some.inj h).symm⟩
      · exact fun heq => hsome.1 (String.ofList_injective heq)
      · exact fun heq => hsome.2 (String.ofList_injective heq)
      · exact fun heq => hup (String.ofList_injective heq)

/-- The root and the directory itself stand at the front of a path only. -/
theorem exists_components (p : Path) :
    ∃ lead ∈ [[], [Component.root], [Component.here]], ∃ steps, (∀ s ∈ steps, IsInner s) ∧
      p.components = lead ++ steps := by
  have hinner {parts : List (List Char)} (hparts : parts ⊆ p.parts) (s : Component)
      (hs : s ∈ parts.filterMap stepOf?) : IsInner s := by
    obtain ⟨part, hpart, hsome⟩ := List.mem_filterMap.1 hs
    exact isInner_of_stepOf? hsome (not_mem_of_mem_splitOn (hparts hpart))
  unfold components
  split
  · exact ⟨[.root], by simp, _, hinner (List.Subset.refl _), rfl⟩
  · split
    · rename_i rest hrest
      exact ⟨[.here], by simp, rest.filterMap stepOf?,
        hinner (hrest ▸ List.subset_cons_self _ _), rfl⟩
    · exact ⟨[], by simp, _, hinner (List.Subset.refl _), rfl⟩

/-! ### Folding -/

/-- A step behind a start and names leads to a start and names. -/
theorem foldStep_stepsBehind {start : Path} (hstart : start ∈ starts) {names : List String}
    (hnames : AreNames names) {step : Component} (hstep : IsInner step) :
    ∃ start' ∈ starts, ∃ names', AreNames names' ∧
      foldStep (stepsBehind start names).reverse step = (stepsBehind start' names').reverse := by
  rcases hstep with rfl | ⟨name, hname, rfl⟩
  · rcases List.eq_nil_or_concat names with rfl | ⟨inner, name, rfl⟩
    · rcases starts_cases hstart with rfl | rfl | rfl | rfl
      · exact ⟨⟨".."⟩, by simp [starts], [], .nil, by decide⟩
      · exact ⟨⟨"/.."⟩, by simp [starts], [], .nil, by decide⟩
      · exact ⟨⟨""⟩, by simp [starts], [], .nil, by decide⟩
      · exact ⟨⟨"/"⟩, by simp [starts], [], .nil, by decide⟩
    · refine ⟨start, hstart, inner, fun n hn => hnames n (by simp [hn]), ?_⟩
      simp [stepsBehind, foldStep]
  · exact ⟨start, hstart, names ++ [name], hnames.concat hname, by simp [stepsBehind, foldStep]⟩

theorem foldl_foldStep_stepsBehind {start : Path} (hstart : start ∈ starts) {names : List String}
    (hnames : AreNames names) {steps : List Component} (hsteps : ∀ s ∈ steps, IsInner s) :
    ∃ start' ∈ starts, ∃ names', AreNames names' ∧
      steps.foldl foldStep (stepsBehind start names).reverse =
        (stepsBehind start' names').reverse := by
  induction steps generalizing start names with
  | nil => exact ⟨start, hstart, names, hnames, rfl⟩
  | cons step steps ih =>
    obtain ⟨hstep, hsteps⟩ := List.forall_mem_cons.1 hsteps
    obtain ⟨start', hstart', names', hnames', heq⟩ := foldStep_stepsBehind hstart hnames hstep
    rw [List.foldl_cons, heq]
    exact ih hstart' hnames' hsteps

/-- **The folded steps of a path are a start and names.** -/
theorem exists_foldSteps (p : Path) :
    ∃ start ∈ starts, ∃ names, AreNames names ∧
      foldSteps p.components = stepsBehind start names := by
  obtain ⟨lead, hlead, steps, hsteps, hcomponents⟩ := exists_components p
  obtain ⟨start, hstart, hfold⟩ : ∃ start ∈ starts,
      lead.foldl foldStep [] = (stepsBehind start []).reverse := by
    simp only [List.mem_cons, List.not_mem_nil, or_false] at hlead
    rcases hlead with rfl | rfl | rfl
    · exact ⟨⟨""⟩, by simp [starts], by decide⟩
    · exact ⟨⟨"/"⟩, by simp [starts], by decide⟩
    · exact ⟨⟨""⟩, by simp [starts], by decide⟩
  obtain ⟨start', hstart', names, hnames, heq⟩ := foldl_foldStep_stepsBehind hstart .nil hsteps
  refine ⟨start', hstart', names, hnames, ?_⟩
  rw [foldSteps, hcomponents, List.foldl_append, hfold, heq, List.reverse_reverse]

/-! ### Writing -/

theorem text_descend (dir : Path) {names : List String} (h : AreNames names) (hne : names ≠ []) :
    (dir.descend names).text.toList = joinChars ['/'] (dir.front ++ partsOfNames names) := by
  rw [← parts_descend dir h hne, parts, joinChars_splitOn]

/-- A start and names are written as the path that the names lead to. -/
theorem textOfSteps_stepsBehind {start : Path} (hstart : start ∈ starts) {names : List String}
    (hnames : AreNames names) :
    textOfSteps (stepsBehind start names) = (start.descend names).text.toList := by
  have htexts : (names.map Component.name).map textOfSteps.stepText = partsOfNames names := by
    rw [List.map_map]
    rfl
  by_cases hne : names = []
  · subst hne
    rcases starts_cases hstart with rfl | rfl | rfl | rfl <;> decide
  · have hparts : partsOfNames names ≠ [] := by simpa [partsOfNames] using hne
    rw [text_descend start hnames hne]
    have hfront (parts : List (List Char)) :
        joinChars ['/'] ([] :: (parts ++ partsOfNames names)) =
          '/' :: joinChars ['/'] (parts ++ partsOfNames names) :=
      joinChars_cons [] (by simp [hparts])
    have hup (rest : List Component) : textOfSteps (.up :: rest) =
        joinChars ['/'] (['.', '.'] :: rest.map textOfSteps.stepText) := rfl
    have hroot (rest : List Component) : textOfSteps (.root :: rest) =
        '/' :: joinChars ['/'] (rest.map textOfSteps.stepText) := rfl
    rcases starts_cases hstart with rfl | rfl | rfl | rfl
    · obtain ⟨name, rest, rfl⟩ := List.exists_cons_of_ne_nil hne
      exact congrArg (joinChars ['/']) htexts
    · refine (hroot _).trans (.trans ?_ (hfront []).symm)
      exact congrArg (fun rest => '/' :: joinChars ['/'] rest) htexts
    · exact (hup _).trans (congrArg (fun rest => joinChars ['/'] (['.', '.'] :: rest)) htexts)
    · refine (hroot _).trans (.trans ?_ (hfront [['.', '.']]).symm)
      exact congrArg (fun rest => '/' :: joinChars ['/'] (['.', '.'] :: rest)) htexts

/-- **A normal form is a start and names.** -/
theorem exists_normalize (p : Path) :
    ∃ start ∈ starts, ∃ names, AreNames names ∧
      foldSteps p.components = stepsBehind start names ∧ p.normalize = start.descend names := by
  obtain ⟨start, hstart, names, hnames, heq⟩ := exists_foldSteps p
  refine ⟨start, hstart, names, hnames, heq, eq_of_text ?_⟩
  rw [normalize, heq, textOfSteps_stepsBehind hstart hnames, String.ofList_toList]

/-- **A start and names are their own normal form.** -/
theorem normalize_descend_start {start : Path} (hstart : start ∈ starts) {names : List String}
    (hnames : AreNames names) : (start.descend names).normalize = start.descend names := by
  have hfold : foldSteps start.components = start.components := by
    rcases starts_cases hstart with rfl | rfl | rfl | rfl <;> decide
  refine eq_of_text ?_
  rw [normalize, components_descend start hnames, foldSteps_append_names, hfold, ← stepsBehind,
    textOfSteps_stepsBehind hstart hnames, String.ofList_toList]

/-- **Normal forms stay as they are.** -/
theorem normalize_normalize (p : Path) : p.normalize.normalize = p.normalize := by
  obtain ⟨start, hstart, names, hnames, -, heq⟩ := exists_normalize p
  rw [heq, normalize_descend_start hstart hnames]

/-- A name behind a normal form is a normal form. -/
theorem normalize_child_normalize (p : Path) {name : String} (hname : IsName name) :
    (p.normalize.child name).normalize = p.normalize.child name := by
  obtain ⟨start, hstart, names, hnames, -, heq⟩ := exists_normalize p
  have hchild : p.normalize.child name = start.descend (names ++ [name]) := by
    rw [descend_append, ← heq]
    rfl
  rw [hchild, normalize_descend_start hstart (hnames.concat hname)]

/-- A name behind a slash comes behind the normal form of what stands before it. -/
theorem normalize_of_slash_name {p q : Path} {cs : List Char} {name : String} (hname : IsName name)
    (hp : p.text.toList = cs ++ '/' :: name.toList) (hq : q.text.toList = cs ++ ['/']) :
    p.normalize = q.normalize.child name := by
  have habs : p.isAbsolute = q.isAbsolute := by
    rw [isAbsolute, isAbsolute, hp, hq]
    cases cs <;> rfl
  have hparts : q.parts = splitOn '/' cs ++ [[]] :=
    (congrArg (splitOn '/') hq).trans (splitWhere_append_cons (by rfl) _ _)
  have hsteps : q.components = stepsOfParts q.isAbsolute (splitOn '/' cs) := by
    have hne : splitOn '/' cs ≠ [] := splitWhere_ne_nil _ _
    rw [components_eq, hparts, stepsOfParts_append hne]
    simp [stepOf?]
  obtain ⟨start, hstart, names, hnames, hfold, heq⟩ := exists_normalize q
  have hfolded : foldSteps p.components = stepsBehind start (names ++ [name]) := by
    have hone : [Component.name name] = [name].map Component.name := rfl
    rw [components_of_slash_name hname hp, habs, ← hsteps, hone, foldSteps_append_names, hfold]
    simp [stepsBehind]
  refine eq_of_text ?_
  rw [normalize, hfolded, textOfSteps_stepsBehind hstart (hnames.concat hname),
    String.ofList_toList, descend_append, ← heq]
  rfl

/-- What is written behind a path and ends in a slash and a name leads to that name. -/
theorem normalize_join_slash_name (dir : Path) (before : String) {name : String}
    (hname : IsName name) :
    (dir.join ⟨before ++ "/" ++ name⟩).normalize =
      (dir.join ⟨before ++ "/"⟩).normalize.child name := by
  have hhead : Path.isAbsolute ⟨before ++ "/" ++ name⟩ = Path.isAbsolute ⟨before ++ "/"⟩ := by
    rw [isAbsolute, isAbsolute, String.toList_append, String.toList_append]
    cases before.toList <;> rfl
  obtain ⟨cs, hname', hslash⟩ : ∃ cs,
      (dir.join ⟨before ++ "/" ++ name⟩).text.toList = cs ++ '/' :: name.toList ∧
        (dir.join ⟨before ++ "/"⟩).text.toList = cs ++ ['/'] := by
    unfold join
    rw [hhead]
    split
    · exact ⟨before.toList, by simp, by simp⟩
    · split
      · exact ⟨dir.text.toList ++ before.toList, by simp, by simp⟩
      · exact ⟨dir.text.toList ++ before.toList, by simp, by simp⟩
      · exact ⟨dir.text.toList ++ '/' :: before.toList, by simp, by simp⟩
  exact normalize_of_slash_name hname hname' hslash

end Path
end Strata
