/-
# Lists of results

A list with its repetitions erased repeats nothing (`nodup_eraseDups`), and one without
repetitions keeps what it holds (`eraseDups_eq_self`). Where each element of a list leads to
at most one result of a kind, these results answer one by one to the elements that lead to
one (`forall₂_filter_flatMap`). A list that is written element by element is read so
(`mapM_map_eq_some`). In a list with distinct keys, and in a map that is made from one, what
is looked up is what the list holds (`lookup_eq_some_iff_mem`, `getElem?_ofList_iff`). A list
is cut in one way in front of the first element of a kind (`append_cons_inj_of_first`).
-/

import Mathlib.Data.List.Forall2
import Mathlib.Data.List.Nodup
import Std.Data.TreeMap

namespace Strata

variable {α β γ : Type}

/-- Nothing is repeated where repetitions are erased. -/
theorem nodup_eraseDups [BEq α] [LawfulBEq α] (xs : List α) : xs.eraseDups.Nodup := by
  match xs with
  | [] => simp
  | x :: rest =>
    rw [List.eraseDups_cons, List.nodup_cons]
    constructor
    · simp [List.mem_eraseDups]
    · exact nodup_eraseDups _
termination_by xs.length
decreasing_by
  have hle := List.length_filter_le (fun y => !y == x) rest
  rw [List.length_cons]
  omega

theorem eraseDups_sublist [BEq α] (xs : List α) : xs.eraseDups.Sublist xs := by
  match xs with
  | [] => simp
  | x :: rest =>
    rw [List.eraseDups_cons]
    exact ((eraseDups_sublist _).trans List.filter_sublist).cons_cons x
termination_by xs.length
decreasing_by
  have hle := List.length_filter_le (fun y => !y == x) rest
  rw [List.length_cons]
  omega

/-- Where nothing is repeated, nothing is erased. -/
theorem eraseDups_eq_self [BEq α] [LawfulBEq α] {xs : List α} (h : xs.Nodup) :
    xs.eraseDups = xs := by
  induction xs with
  | nil => simp
  | cons x rest ih =>
    obtain ⟨hx, hrest⟩ := List.nodup_cons.1 h
    have hkeep : rest.filter (fun y => !y == x) = rest :=
      List.filter_eq_self.2 fun y hy => by simpa using fun heq : y = x => hx (heq ▸ hy)
    rw [List.eraseDups_cons, hkeep, ih hrest]

/-- The results of one kind that the elements of a list lead to, each of which
leads to one or none. -/
theorem forall₂_filter_flatMap {xs : List α} {f : α → List β} {p : β → Bool} {q : α → Option γ}
    {R : γ → β → Prop}
    (hsome : ∀ x ∈ xs, ∀ z, q x = some z → ∃ y, (f x).filter p = [y] ∧ R z y)
    (hnone : ∀ x ∈ xs, q x = none → (f x).filter p = []) :
    List.Forall₂ R (xs.filterMap q) ((xs.flatMap f).filter p) := by
  induction xs with
  | nil => exact .nil
  | cons x rest ih =>
    have hrest := ih (fun y hy => hsome y (List.mem_cons_of_mem x hy))
      fun y hy => hnone y (List.mem_cons_of_mem x hy)
    rw [List.flatMap_cons, List.filter_append]
    cases hq : q x with
    | none =>
      rw [List.filterMap_cons_none hq, hnone x List.mem_cons_self hq]
      exact hrest
    | some z =>
      obtain ⟨y, hy, hzy⟩ := hsome x List.mem_cons_self z hq
      rw [List.filterMap_cons_some hq, hy]
      exact .cons hzy hrest

/-- What is written element by element is read element by element. -/
theorem mapM_map_eq_some {write : α → β} {read : β → Option α}
    (h : ∀ a, read (write a) = some a) (xs : List α) : (xs.map write).mapM read = some xs := by
  have hread : read ∘ write = fun a => pure a := funext h
  rw [List.mapM_map, hread, List.mapM_pure, List.map_id']
  rfl

/-- Selected results repeat nothing when a key that tells the elements apart can
be read off them. -/
theorem nodup_filterMap_of_key {δ : Type} {xs : List α} {key : α → δ} (h : (xs.map key).Nodup)
    (q : α → Option γ) (key' : γ → δ) (hkey : ∀ x ∈ xs, ∀ z, q x = some z → key' z = key x) :
    ((xs.filterMap q).map key').Nodup := by
  induction xs with
  | nil => exact .nil
  | cons x rest ih =>
    rw [List.map_cons, List.nodup_cons] at h
    have hrest := ih h.2 fun y hy => hkey y (List.mem_cons_of_mem x hy)
    cases hq : q x with
    | none => rwa [List.filterMap_cons_none hq]
    | some z =>
      rw [List.filterMap_cons_some hq, List.map_cons, List.nodup_cons]
      refine ⟨fun hmem => h.1 ?_, hrest⟩
      obtain ⟨z', hz', heq⟩ := List.mem_map.1 hmem
      obtain ⟨y, hy, hq'⟩ := List.mem_filterMap.1 hz'
      rw [← hkey x List.mem_cons_self z hq, ← heq, hkey y (List.mem_cons_of_mem x hy) z' hq']
      exact List.mem_map_of_mem hy

/-- What is looked up in a list with distinct keys is what the list holds. -/
theorem lookup_eq_some_iff_mem {entries : List (String × β)} (h : (entries.map Prod.fst).Nodup)
    {name : String} {a : β} : entries.lookup name = some a ↔ (name, a) ∈ entries := by
  rw [List.lookup_eq_some_iff]
  constructor
  · rintro ⟨before, after, rfl, -⟩
    simp
  · intro hmem
    obtain ⟨before, after, rfl⟩ := List.append_of_mem hmem
    refine ⟨before, after, rfl, fun e he => ?_⟩
    rw [List.map_append, List.map_cons] at h
    have hne : e.1 ≠ name :=
      (List.nodup_append.1 h).2.2 e.1 (List.mem_map_of_mem he) name List.mem_cons_self
    simpa using Ne.symm hne

/-- The order of a list with distinct keys does not matter for what is looked up. -/
theorem lookup_eq_of_perm {entries entries' : List (String × β)}
    (h : (entries.map Prod.fst).Nodup) (hperm : entries.Perm entries') (name : String) :
    entries.lookup name = entries'.lookup name := by
  have h' : (entries'.map Prod.fst).Nodup := (hperm.map Prod.fst).nodup_iff.1 h
  refine Option.ext fun a => ?_
  rw [lookup_eq_some_iff_mem h, lookup_eq_some_iff_mem h', hperm.mem_iff]

/-- A map holds what the list holds that it is made from. -/
theorem getElem?_ofList_iff {entries : List (String × β)} (h : (entries.map Prod.fst).Nodup)
    {key : String} {value : β} :
    (Std.TreeMap.ofList entries compare)[key]? = some value ↔ (key, value) ∈ entries := by
  have hkeys : entries.Pairwise fun a b => ¬ compare a.1 b.1 = .eq :=
    (List.pairwise_map.1 h).imp fun hne heq => hne (Std.LawfulEqOrd.eq_of_compare heq)
  have hheld : ∀ {value}, (key, value) ∈ entries →
      (Std.TreeMap.ofList entries compare)[key]? = some value := fun hmem =>
    Std.TreeMap.getElem?_ofList_of_mem (by simp) hkeys hmem
  refine ⟨fun hget => ?_, hheld⟩
  have hmem : key ∈ entries.map Prod.fst := by
    have hcontains : (Std.TreeMap.ofList entries compare).contains key = true := by
      rw [Std.TreeMap.contains_eq_isSome_getElem?, hget]
      rfl
    rwa [Std.TreeMap.contains_ofList, List.contains_iff_mem] at hcontains
  obtain ⟨e, he, rfl⟩ := List.mem_map.1 hmem
  have heq : e.2 = value := Option.some.inj ((hheld he).symm.trans hget)
  exact heq ▸ he

/-- A list is told from its rearrangements by keys that differ. -/
theorem eq_of_perm_of_map_eq {f : α → β} {xs ys : List α} (hperm : xs.Perm ys)
    (hkeys : xs.map f = ys.map f) (hnodup : (ys.map f).Nodup) : xs = ys := by
  have hall : List.Forall₂ (fun x y => f x = f y) xs ys := by
    rwa [← List.forall₂_eq_eq_eq, List.forall₂_map_left_iff, List.forall₂_map_right_iff] at hkeys
  have hmem : List.Forall₂ (fun x y => x ∈ ys ∧ y ∈ ys ∧ f x = f y) xs ys := by
    refine List.forall₂_iff_get.2 ⟨hall.length_eq, fun i hi hi' => ?_⟩
    exact ⟨hperm.mem_iff.1 (List.get_mem _ _), List.get_mem _ _, hall.get hi hi'⟩
  rw [← List.forall₂_eq_eq_eq]
  exact hmem.imp fun x y ⟨hx, hy, heq⟩ => List.inj_on_of_nodup_map hnodup hx hy heq

/-- Two ways to cut a list in front of its first element of a kind are the same. -/
theorem append_cons_inj_of_first {p : α → Prop} {xs xs' ys ys' : List α} {x x' : α}
    (hxs : ∀ a ∈ xs, ¬ p a) (hxs' : ∀ a ∈ xs', ¬ p a) (hx : p x) (hx' : p x')
    (h : xs ++ x :: ys = xs' ++ x' :: ys') : xs = xs' ∧ x = x' ∧ ys = ys' := by
  induction xs generalizing xs' with
  | nil =>
    cases xs' with
    | nil =>
      obtain ⟨rfl, rfl⟩ := List.cons.inj h
      exact ⟨rfl, rfl, rfl⟩
    | cons a xs' =>
      obtain rfl : x = a := (List.cons.inj h).1
      exact absurd hx (hxs' x List.mem_cons_self)
  | cons a xs ih =>
    cases xs' with
    | nil =>
      obtain rfl : a = x' := (List.cons.inj h).1
      exact absurd hx' (hxs a List.mem_cons_self)
    | cons b xs' =>
      obtain ⟨rfl, hrest⟩ := List.cons.inj h
      obtain ⟨rfl, hbehind⟩ := ih (fun c hc => hxs c (List.mem_cons_of_mem a hc))
        (fun c hc => hxs' c (List.mem_cons_of_mem a hc)) hrest
      exact ⟨rfl, hbehind⟩

end Strata
