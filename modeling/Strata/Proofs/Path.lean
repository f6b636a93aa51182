/-
# Steps of a path

Paths are compared by their steps (`components_eq_of_order_eq`), and a name that
is written behind a path adds one step to its steps (`components_child`), as long
as it is the name of an entry (`IsName`).
-/

import Strata.Path
import Strata.Proofs.Sorting

namespace Strata

open Text

/-! ### The order of paths -/

namespace Component

/-- The text of a name; empty for the other steps. -/
def nameText : Component → String
  | .name text => text
  | .root | .here | .up => ""

/-- Steps are compared by their kind first and, when they are names, by their text. -/
theorem order_eq_compareLex :
    order = compareLex (compareOn rank) (compareOn nameText) := by
  funext a b
  cases a <;> cases b <;> rfl

instance : Std.TransCmp order := by
  rw [order_eq_compareLex]
  infer_instance

/-- Steps that compare equal are equal: only a name carries data, and its text is compared. -/
theorem eq_of_order_eq {a b : Component} (h : a.order b = .eq) : a = b := by
  cases a <;> cases b <;> simp_all [order, rank]

end Component

namespace Path

/-- The comparison of paths is the lexicographic one over their steps, so that it is transitive
because the comparison of two steps is. -/
theorem orderSteps_eq_compareLex : orderSteps = List.compareLex Component.order := by
  funext as bs
  induction as generalizing bs with
  | nil => cases bs <;> rfl
  | cons a as ih =>
    cases bs with
    | nil => rfl
    | cons b bs =>
      rw [List.compareLex_cons_cons, ← ih]
      rfl

instance : Std.TransCmp orderSteps := by
  rw [orderSteps_eq_compareLex]
  infer_instance

instance : Std.TransCmp order := transCmp_on components

/-- Paths compare equal when they have the same steps. -/
theorem components_eq_of_order_eq {p q : Path} (h : p.order q = .eq) :
    p.components = q.components := by
  unfold order at h
  generalize p.components = as at h
  generalize q.components = bs at h
  induction as generalizing bs with
  | nil =>
    cases bs with
    | nil => rfl
    | cons b bs => cases h
  | cons a as ih =>
    cases bs with
    | nil => cases h
    | cons b bs =>
      obtain ⟨hab, hrest⟩ := Ordering.then_eq_eq.1 h
      rw [Component.eq_of_order_eq hab, ih bs hrest]

end Path

/-! ### One more name -/

/-- The name of an entry of a directory: not empty, without slashes, and none of
the two that mean a directory itself. -/
def IsName (name : String) : Prop := name ≠ "" ∧ name ≠ "." ∧ name ≠ ".." ∧ '/' ∉ name.toList

instance : DecidablePred IsName := fun name =>
  inferInstanceAs (Decidable (name ≠ "" ∧ name ≠ "." ∧ name ≠ ".." ∧ '/' ∉ name.toList))

namespace Path

/-- A part that is a name makes the step of this name. -/
theorem stepOf?_name {name : String} (h : IsName name) :
    stepOf? name.toList = some (.name name) := by
  obtain ⟨hempty, hdot, hdots, -⟩ := h
  have hne : ∀ cs : List Char, name ≠ String.ofList cs → name.toList ≠ cs := by
    intro cs hname heq
    exact hname (by rw [← heq, String.ofList_toList])
  have h1 : name.toList ≠ [] := hne [] hempty
  have h2 : name.toList ≠ ['.'] := hne ['.'] hdot
  have h3 : name.toList ≠ ['.', '.'] := hne ['.', '.'] hdots
  simp [stepOf?, h1, h2, h3]

/-- The steps of the parts of a path. -/
def stepsOfParts (absolute : Bool) (parts : List (List Char)) : List Component :=
  if absolute then .root :: parts.filterMap stepOf?
  else
    match parts with
    | ['.'] :: rest => .here :: rest.filterMap stepOf?
    | parts => parts.filterMap stepOf?

theorem components_eq (p : Path) : p.components = stepsOfParts p.isAbsolute p.parts := rfl

/-- A relative path that does not begin with `.` has no step for the current directory. -/
theorem stepsOfParts_of_ne {part : List Char} (h : part ≠ ['.']) (rest : List (List Char)) :
    stepsOfParts false (part :: rest) = (part :: rest).filterMap stepOf? := by
  simp [stepsOfParts, h]

/-- Parts written behind others add their own steps; `.` leads to a step only in front, so the
parts before must not be empty. -/
theorem stepsOfParts_append {parts : List (List Char)} (h : parts ≠ []) (absolute : Bool)
    (more : List (List Char)) :
    stepsOfParts absolute (parts ++ more) =
      stepsOfParts absolute parts ++ more.filterMap stepOf? := by
  cases absolute with
  | true => exact congrArg (Component.root :: ·) (List.filterMap_append ..)
  | false =>
    obtain ⟨first, rest, rfl⟩ := List.exists_cons_of_ne_nil h
    by_cases hfirst : first = ['.']
    · subst hfirst
      exact congrArg (Component.here :: ·) (List.filterMap_append ..)
    · rw [List.cons_append, stepsOfParts_of_ne hfirst, stepsOfParts_of_ne hfirst,
        ← List.cons_append, List.filterMap_append]

/-- A name is one part. -/
theorem splitOn_name {name : String} (h : IsName name) :
    splitOn '/' name.toList = [name.toList] := by
  refine splitWhere_eq_singleton fun c hc => ?_
  have hne : c ≠ '/' := fun heq => h.2.2.2 (heq ▸ hc)
  simpa using hne

/-- A name behind a slash is one more step. -/
theorem components_of_slash_name {p : Path} {name : String} (h : IsName name) {cs : List Char}
    (hp : p.text.toList = cs ++ '/' :: name.toList) :
    p.components = stepsOfParts p.isAbsolute (splitOn '/' cs) ++ [.name name] := by
  have hparts : p.parts = splitOn '/' cs ++ [name.toList] := by
    rw [← splitOn_name h]
    exact (congrArg (splitOn '/') hp).trans (splitWhere_append_cons (by rfl) _ _)
  have hne : splitOn '/' cs ≠ [] := splitWhere_ne_nil _ _
  rw [components_eq, hparts, stepsOfParts_append hne]
  simp [stepOf?_name h]

/-- A name behind a directory adds one step. -/
theorem components_child (dir : Path) {name : String} (h : IsName name) :
    (dir.child name).components = dir.components ++ [.name name] := by
  have hrelative : Path.isAbsolute ⟨name⟩ = false := by
    have hhead : name.toList.head? ≠ some '/' := fun heq => h.2.2.2 (List.mem_of_head? heq)
    simpa [isAbsolute] using hhead
  -- whether a slash is put in front of the name depends on how the directory is written: empty,
  -- with a slash at its end, or without one
  rcases List.eq_nil_or_concat dir.text.toList with hnil | ⟨cs, c, hcs⟩
  · have hchild : dir.child name = ⟨name⟩ := by
      have hempty : dir.text = "" := String.toList_eq_nil_iff.1 hnil
      simp [child, join, hrelative, hempty]
    have hparts : Path.parts ⟨name⟩ = [name.toList] := splitOn_name h
    have hdir : dir.components = [] := by
      rw [components_eq, isAbsolute, parts, hnil]
      rfl
    have hdot : name.toList ≠ ['.'] := fun heq => h.2.1 (String.toList_inj.1 heq)
    rw [hchild, hdir, components_eq, hrelative, hparts, stepsOfParts_of_ne hdot]
    simp [stepOf?_name h]
  · rw [List.concat_eq_append] at hcs
    by_cases hc : c = '/'
    · subst hc
      have hchild : (dir.child name).text.toList = cs ++ '/' :: name.toList := by
        simp [child, join, hrelative, hcs]
      have habs : (dir.child name).isAbsolute = dir.isAbsolute := by
        rw [isAbsolute, isAbsolute, hchild, hcs]
        cases cs <;> rfl
      have hdir : dir.parts = splitOn '/' cs ++ [[]] :=
        (congrArg (splitOn '/') hcs).trans (splitWhere_append_cons (by rfl) _ _)
      have hne : splitOn '/' cs ≠ [] := splitWhere_ne_nil _ _
      rw [components_of_slash_name h hchild, habs, components_eq, hdir,
        stepsOfParts_append hne]
      simp [stepOf?]
    · have hchild : (dir.child name).text.toList = dir.text.toList ++ '/' :: name.toList := by
        simp [child, join, hrelative, hcs]
      have habs : (dir.child name).isAbsolute = dir.isAbsolute := by
        rw [isAbsolute, isAbsolute, hchild, hcs]
        cases cs <;> rfl
      rw [components_of_slash_name h hchild, habs]
      rfl

end Path

end Strata
