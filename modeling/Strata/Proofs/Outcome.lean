/-
# Outcomes of what can fail

A computation that can fail gives a value or an error. Two computations match up
to a relation when they fail with the same error or give values that are
related. Steps of matching computations match (`Matches.bind`), and so do
computations that go over a list (`Matches.mapM`).
-/

import Mathlib.Data.List.Forall2
import Mathlib.Data.List.Perm.Basic

namespace Strata

variable {ε α β γ δ : Type}

/-- A computation in two steps gives a value when both steps do. -/
theorem bind_eq_ok {x : Except ε α} {f : α → Except ε β} {b : β} (h : x >>= f = .ok b) :
    ∃ a, x = .ok a ∧ f a = .ok b := by
  cases x with
  | error e => cases h
  | ok a => exact ⟨a, rfl, h⟩

/-- Both fail with the same error, or give values that are related. -/
inductive Matches (R : α → β → Prop) : Except ε α → Except ε β → Prop where
  | error (e : ε) : Matches R (.error e) (.error e)
  | ok {a : α} {b : β} : R a b → Matches R (.ok a) (.ok b)

namespace Matches

variable {R : α → β → Prop} {S : γ → δ → Prop}

/-- Computations that match up to a relation match up to a weaker one. -/
theorem mono {R' : α → β → Prop} {x : Except ε α} {y : Except ε β} (h : Matches R x y)
    (hR : ∀ a b, R a b → R' a b) : Matches R' x y := by
  cases h with
  | error e => exact .error e
  | ok hab => exact .ok (hR _ _ hab)

/-- Steps of matching computations match. -/
theorem bind {x : Except ε α} {y : Except ε β} {f : α → Except ε γ} {g : β → Except ε δ}
    (h : Matches R x y) (hfg : ∀ a b, R a b → Matches S (f a) (g b)) :
    Matches S (x >>= f) (y >>= g) := by
  cases h with
  | error e => exact .error e
  | ok hab => exact hfg _ _ hab

/-- A computation matches itself. -/
theorem refl (x : Except ε α) : Matches (· = ·) x x := by
  cases x with
  | error e => exact .error e
  | ok a => exact .ok rfl

/-- Computations that match up to equality are equal. -/
theorem eq {x y : Except ε α} (h : Matches (· = ·) x y) : x = y := by
  cases h with
  | error e => rfl
  | ok hab => rw [hab]

/-- Going over a list with matching computations. -/
theorem mapM {xs : List α} {f : α → Except ε γ} {g : α → Except ε δ}
    (h : ∀ x ∈ xs, Matches S (f x) (g x)) :
    Matches (List.Forall₂ S) (xs.mapM f) (xs.mapM g) := by
  induction xs with
  | nil => exact .ok .nil
  | cons x xs ih =>
    rw [List.mapM_cons, List.mapM_cons]
    refine (h x List.mem_cons_self).bind fun c d hcd => ?_
    refine (ih fun y hy => h y (List.mem_cons_of_mem x hy)).bind fun cs ds hall => ?_
    exact .ok (.cons hcd hall)

end Matches

/-! ### Lists of lists -/

/-- Lists that are permutations one by one are permutations once they are put together. -/
theorem flatten_perm {xss yss : List (List α)} (h : List.Forall₂ List.Perm xss yss) :
    xss.flatten.Perm yss.flatten := by
  induction h with
  | nil => exact .nil
  | cons hxy _ ih => exact hxy.append ih

/-- Going over a list gives a value when every step gives the value that stands there. -/
theorem mapM_eq_ok {xs : List α} {f : α → Except ε β} {as : List β} :
    xs.mapM f = .ok as ↔ List.Forall₂ (fun x a => f x = .ok a) xs as := by
  induction xs generalizing as with
  | nil =>
    constructor
    · intro h
      obtain rfl : [] = as := Except.ok.inj h
      exact .nil
    · intro h
      cases h
      rfl
  | cons x xs ih =>
    rw [List.mapM_cons]
    constructor
    · intro h
      obtain ⟨a, ha, h⟩ := bind_eq_ok h
      obtain ⟨rest, hrest, h⟩ := bind_eq_ok h
      obtain rfl : a :: rest = as := Except.ok.inj h
      exact .cons ha (ih.1 hrest)
    · intro h
      cases h with
      | cons ha hrest =>
        rw [ha, ih.2 hrest]
        rfl

/-- What a list of computations gives is what each of them gives. -/
theorem mem_flatten_of_mapM {xs : List α} {f : α → Except ε (List β)} {yss : List (List β)}
    (h : xs.mapM f = .ok yss) {y : β} :
    y ∈ yss.flatten ↔ ∃ x ∈ xs, ∃ ys, f x = .ok ys ∧ y ∈ ys := by
  have hall := mapM_eq_ok.1 h
  clear h
  induction hall with
  | nil => simp
  | cons hx _ ih => simp [ih, hx]

/-- What holds of the values of each step holds of all values. -/
theorem forall_of_mapM {xs : List α} {f : α → Except ε (List β)} {yss : List (List β)}
    (h : xs.mapM f = .ok yss) {P : β → Prop}
    (hf : ∀ x ∈ xs, ∀ ys, f x = .ok ys → ∀ y ∈ ys, P y) : ∀ y ∈ yss.flatten, P y := by
  intro y hy
  obtain ⟨x, hx, ys, hys, hy⟩ := (mem_flatten_of_mapM h).1 hy
  exact hf x hx ys hys y hy

/-- When going over a list gives values, every step gave one. -/
theorem exists_of_mapM {xs : List α} {f : α → Except ε β} {ys : List β} (h : xs.mapM f = .ok ys)
    {x : α} (hx : x ∈ xs) : ∃ y, f x = .ok y := by
  have hall := mapM_eq_ok.1 h
  clear h
  induction hall with
  | nil => exact absurd hx List.not_mem_nil
  | cons hy _ ih =>
    rcases List.mem_cons.1 hx with rfl | hx
    · exact ⟨_, hy⟩
    · exact ih hx

/-- What a list of computations gives, one of them gives. -/
theorem exists_of_mem_mapM {xs : List α} {f : α → Except ε β} {ys : List β}
    (h : xs.mapM f = .ok ys) {y : β} (hy : y ∈ ys) : ∃ x ∈ xs, f x = .ok y := by
  have hall := mapM_eq_ok.1 h
  clear h
  induction hall with
  | nil => exact absurd hy List.not_mem_nil
  | @cons x z xs ys hx _ ih =>
    rcases List.mem_cons.1 hy with rfl | hy
    · exact ⟨x, List.mem_cons_self, hx⟩
    · obtain ⟨x', hx', heq⟩ := ih hy
      exact ⟨x', List.mem_cons_of_mem _ hx', heq⟩

/-- A list of computations in another order gives the same in another order;
when one fails in one order, one fails in the other. -/
theorem mapM_perm {xs ys : List α} (h : xs.Perm ys) (f : α → Except ε β) :
    (∃ e e', xs.mapM f = .error e ∧ ys.mapM f = .error e') ∨
      ∃ as bs, xs.mapM f = .ok as ∧ ys.mapM f = .ok bs ∧ as.Perm bs := by
  have hok : ∀ {xs ys : List α} {as : List β}, xs.Perm ys → xs.mapM f = .ok as →
      ∃ bs, ys.mapM f = .ok bs ∧ as.Perm bs := by
    intro xs ys as h has
    obtain ⟨bs, hbs, hperm⟩ := List.perm_comp_forall₂ h.symm (mapM_eq_ok.1 has)
    exact ⟨bs, mapM_eq_ok.2 hbs, hperm.symm⟩
  cases hxs : xs.mapM f with
  | ok as =>
    obtain ⟨bs, hbs, hperm⟩ := hok h hxs
    exact .inr ⟨as, bs, rfl, hbs, hperm⟩
  | error e =>
    cases hys : ys.mapM f with
    | error e' => exact .inl ⟨e, e', rfl, rfl⟩
    | ok bs =>
      obtain ⟨as, has, -⟩ := hok h.symm hys
      rw [hxs] at has
      cases has

end Strata
