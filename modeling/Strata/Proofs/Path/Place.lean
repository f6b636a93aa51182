/-
# The place that a path denotes

The place of a path is read off its steps one after the other. A step up takes away the nearest
name; at the root it stays there, and in front of a relative path it is kept. The normal form
differs from that where no name is left:

| a step up meets | in the place | in the normal form |
| --- | --- | --- |
| a name | it goes | it goes |
| nothing | the step is kept | the step is kept |
| a step up that was kept | the step is kept as well | the kept one goes |
| the root | the step stays there | the step is kept |

So behind the same names the normal form has one step up in front where the place has an odd
number of them and none where it has an even number (`exists_place`).
-/

import Strata.Proofs.Path.Normal

namespace Strata
namespace Path

/-- One more step behind the steps of a place, the latest of which comes first. -/
def placeStep (back : List Component) : Component → List Component
  | .here => back
  | .up =>
    match back with
    | .name _ :: outer => outer
    | .root :: outer => .root :: outer
    | back => .up :: back
  | step => step :: back

/-- The steps of the place that a path denotes. -/
def place (p : Path) : List Component := (p.components.foldl placeStep []).reverse

/-! ### Steps up without a name to take away -/

/-- What stands in front of the names in the place and in the normal form of a path. -/
inductive Fronts : List Component → Path → Prop where
  | even (k : Nat) : Fronts (.replicate (2 * k) .up) ⟨""⟩
  | odd (k : Nat) : Fronts (.replicate (2 * k + 1) .up) ⟨".."⟩
  | root : Fronts [.root] ⟨"/"⟩
  | above : Fronts [.root] ⟨"/.."⟩

namespace Fronts

variable {front : List Component} {start : Path}

theorem mem_starts (h : Fronts front start) : start ∈ starts := by
  cases h <;> simp [starts]

/-- No name stands in front of the names. -/
theorem name_not_mem (h : Fronts front start) (name : String) : .name name ∉ front := by
  cases h <;> simp

/-- In front of a relative path there are steps up only, of which the normal form has at most
one. -/
theorem lead_cases (h : Fronts front start) :
    (∃ n, front = .replicate n .up ∧ start.components = .replicate (n % 2) .up) ∨
      front = [.root] ∧ (start.components = [.root] ∨ start.components = [.root, .up]) := by
  cases h with
  | even k =>
    refine .inl ⟨2 * k, rfl, ?_⟩
    rw [Nat.mul_mod_right]
    decide
  | odd k =>
    refine .inl ⟨2 * k + 1, rfl, ?_⟩
    rw [Nat.mul_add_mod]
    decide
  | root => exact .inr ⟨rfl, .inl (by decide)⟩
  | above => exact .inr ⟨rfl, .inr (by decide)⟩

theorem placeStep_replicate (n : Nat) :
    placeStep (List.replicate n .up) .up = List.replicate (n + 1) .up := by
  cases n <;> rfl

/-- Where no name is left a step up changes what stands in front. -/
theorem up (h : Fronts front start) :
    ∃ front' start', Fronts front' start' ∧ placeStep front.reverse .up = front'.reverse ∧
      foldStep (stepsBehind start []).reverse .up = (stepsBehind start' []).reverse := by
  cases h with
  | even k =>
    refine ⟨_, _, .odd k, ?_, by decide⟩
    rw [List.reverse_replicate, List.reverse_replicate, placeStep_replicate]
  | odd k =>
    refine ⟨_, _, .even (k + 1), ?_, by decide⟩
    rw [List.reverse_replicate, List.reverse_replicate, placeStep_replicate]
    rfl
  | root => exact ⟨_, _, .above, rfl, by decide⟩
  | above => exact ⟨_, _, .root, rfl, by decide⟩

/-- One more step. -/
theorem step (h : Fronts front start) {names : List String} (hnames : AreNames names)
    {step : Component} (hstep : IsInner step) :
    ∃ front' start' names', Fronts front' start' ∧ AreNames names' ∧
      placeStep (front ++ names.map Component.name).reverse step =
        (front' ++ names'.map Component.name).reverse ∧
      foldStep (stepsBehind start names).reverse step = (stepsBehind start' names').reverse := by
  rcases hstep with rfl | ⟨name, hname, rfl⟩
  · rcases List.eq_nil_or_concat names with rfl | ⟨inner, name, rfl⟩
    · obtain ⟨front', start', h', hplace, hfold⟩ := h.up
      exact ⟨front', start', [], h', .nil, by simpa using hplace, hfold⟩
    · exact ⟨front, start, inner, h, fun n hn => hnames n (by simp [hn]),
        by simp [placeStep], by simp [stepsBehind, foldStep]⟩
  · exact ⟨front, start, names ++ [name], h, hnames.concat hname, by simp [placeStep],
      by simp [stepsBehind, foldStep]⟩

/-- More steps. -/
theorem foldl (h : Fronts front start) {names : List String} (hnames : AreNames names)
    {steps : List Component} (hsteps : ∀ s ∈ steps, IsInner s) :
    ∃ front' start' names', Fronts front' start' ∧ AreNames names' ∧
      steps.foldl placeStep (front ++ names.map Component.name).reverse =
        (front' ++ names'.map Component.name).reverse ∧
      steps.foldl foldStep (stepsBehind start names).reverse =
        (stepsBehind start' names').reverse := by
  induction steps generalizing front start names with
  | nil => exact ⟨front, start, names, h, hnames, rfl, rfl⟩
  | cons s steps ih =>
    obtain ⟨hs, hsteps⟩ := List.forall_mem_cons.1 hsteps
    obtain ⟨front', start', names', h', hnames', hplace, hfold⟩ := h.step hnames hs
    rw [List.foldl_cons, List.foldl_cons, hplace, hfold]
    exact ih h' hnames' hsteps

end Fronts

/-- **The place and the normal form of a path end in the same names.** In front of them the
place has all steps up that no name was left for, and the normal form the last of them when
their number is odd. -/
theorem exists_place (p : Path) :
    ∃ front start names, Fronts front start ∧ AreNames names ∧
      p.place = front ++ names.map Component.name ∧ p.normalize = start.descend names := by
  obtain ⟨lead, hlead, steps, hsteps, hcomponents⟩ := exists_components p
  obtain ⟨front, start, hfronts, hplace, hfold⟩ : ∃ front start, Fronts front start ∧
      lead.foldl placeStep [] = (front ++ ([] : List String).map Component.name).reverse ∧
      lead.foldl foldStep [] = (stepsBehind start []).reverse := by
    simp only [List.mem_cons, List.not_mem_nil, or_false] at hlead
    rcases hlead with rfl | rfl | rfl
    · exact ⟨_, _, .even 0, rfl, by decide⟩
    · exact ⟨_, _, .root, rfl, by decide⟩
    · exact ⟨_, _, .even 0, rfl, by decide⟩
  obtain ⟨front', start', names, hfronts', hnames, hplace', hfold'⟩ := hfronts.foldl .nil hsteps
  refine ⟨front', start', names, hfronts', hnames, ?_, eq_of_text ?_⟩
  · rw [place, hcomponents, List.foldl_append, hplace, hplace', List.reverse_reverse]
  · rw [normalize, foldSteps, hcomponents, List.foldl_append, hfold, hfold', List.reverse_reverse,
      textOfSteps_stepsBehind hfronts'.mem_starts hnames, String.ofList_toList]

/-- Names behind a path are names behind its place. -/
theorem place_descend (dir : Path) {names : List String} (h : AreNames names) :
    (dir.descend names).place = dir.place ++ names.map Component.name := by
  have hfold (back : List Component) : (names.map Component.name).foldl placeStep back =
      (names.map Component.name).reverse ++ back := by
    induction names generalizing back with
    | nil => rfl
    | cons name names ih =>
      rw [List.map_cons, List.foldl_cons, ih (List.forall_mem_cons.1 h).2, List.reverse_cons,
        List.append_assoc]
      rfl
  rw [place, components_descend dir h, List.foldl_append, hfold, List.reverse_append,
    List.reverse_reverse]
  rfl

end Path
end Strata
