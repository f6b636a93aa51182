/-
# Normal forms of paths

Specification, section 4.6: normal forms of prefixes.

The normal form of a path has no backslash, no `/` or `./` in front and no blank behind.
A blank in front is all that may be left: it comes to light when `./` is dropped. Where
there is none, taking the normal form again changes nothing
(`normalizeChars_normalizeChars`). A path that is matched goes on behind the prefix
(`matchesPrefix_iff`), so it has none when the prefix has none. A directory as a prefix
matches whatever begins with it (`pathWithinPrefix_name`).
-/

import Strata.Correction.Scope
import Strata.Proofs.Path.Descent

namespace Strata
namespace Correction

open Text

/-! ### What is dropped -/

theorem dropLead_suffix (cs : List Char) : dropLead cs <:+ cs := by
  fun_induction dropLead cs with
  | case1 rest ih => exact ih.trans ⟨['.', '/'], rfl⟩
  | case2 rest ih => exact ih.trans ⟨['/'], rfl⟩
  | case3 cs => exact List.suffix_refl cs

theorem dropLead_dropLead (cs : List Char) : dropLead (dropLead cs) = dropLead cs := by
  fun_induction dropLead cs with
  | case1 rest ih => exact ih
  | case2 rest ih => exact ih
  | case3 cs hdot hslash => exact dropLead.eq_3 cs hdot hslash

/-- What is kept holds everything in front of it. -/
theorem dropTrailing_append_cons {p : Char → Bool} {x : Char} (hx : p x = false)
    (xs ys : List Char) :
    dropTrailing p (xs ++ x :: ys) = xs ++ x :: dropTrailing p ys := by
  have hback : (xs ++ x :: ys).reverse = ys.reverse ++ x :: xs.reverse := by simp
  unfold dropTrailing
  rw [hback, List.dropWhile_append]
  split
  · rename_i hempty
    rw [List.dropWhile_cons_of_neg (by simp [hx]), List.isEmpty_iff.1 hempty]
    simp
  · simp

/-! ### Normal forms -/

theorem not_mem_forwardSlashes (cs : List Char) : '\\' ∉ forwardSlashes cs := by
  intro h
  obtain ⟨x, -, hx⟩ := List.mem_map.1 h
  split at hx
  · cases hx
  · rename_i hne
    exact hne hx

theorem not_mem_normalizeChars (cs : List Char) : '\\' ∉ normalizeChars cs := fun h =>
  not_mem_forwardSlashes _ ((dropLead_suffix _).subset h)

/-- No blank stands behind a normal form. -/
theorem isBlank_getLast?_normalizeChars {cs : List Char} {x : Char}
    (h : (normalizeChars cs).getLast? = some x) : isBlank x = false := by
  have hforward : (forwardSlashes (trimChars cs)).getLast? = some x := by
    obtain ⟨front, hfront⟩ := dropLead_suffix (forwardSlashes (trimChars cs))
    rw [← hfront, List.getLast?_append]
    exact Option.or_eq_some_iff.2 (.inl h)
  rw [forwardSlashes, List.getLast?_map] at hforward
  obtain ⟨y, hy, hx⟩ := Option.map_eq_some_iff.1 hforward
  have hblank := eq_false_of_getLast?_dropTrailing hy
  split at hx
  · exact hx ▸ rfl
  · exact hx ▸ hblank

/-- **A normal form without a blank in front is its own normal form.** -/
theorem normalizeChars_normalizeChars {cs : List Char}
    (h : ∀ x, (normalizeChars cs).head? = some x → isBlank x = false) :
    normalizeChars (normalizeChars cs) = normalizeChars cs := by
  have htrim : trimChars (normalizeChars cs) = normalizeChars cs :=
    trimChars_eq_self h fun _ => isBlank_getLast?_normalizeChars
  rw [normalizeChars, htrim, forwardSlashes_eq_self (not_mem_normalizeChars cs)]
  exact dropLead_dropLead _

/-- **What a prefix matches** goes on behind it: with nothing, or with anything when the prefix
ends in a slash, or with a slash. -/
theorem matchesPrefix_iff {path pre : List Char} :
    matchesPrefix path pre = true ↔ pre ≠ [] ∧ ∃ rest, path = pre ++ rest ∧
      (rest = [] ∨ pre.getLast? = some '/' ∨ rest.head? = some '/') := by
  unfold matchesPrefix
  -- the empty prefix, a prefix with a slash at its end, any other prefix
  split
  · rename_i hnone
    simp [List.getLast?_eq_none_iff.1 hnone]
  · rename_i hlast
    have hne : pre ≠ [] := by rintro rfl; cases hlast
    rw [List.isPrefixOf_iff_prefix]
    constructor
    · rintro ⟨rest, rfl⟩
      exact ⟨hne, rest, rfl, .inr (.inl hlast)⟩
    · rintro ⟨-, rest, rfl, -⟩
      exact List.prefix_append pre rest
  · rename_i last hslash hlast
    have hne : pre ≠ [] := by rintro rfl; cases hlast
    rw [Bool.or_eq_true, beq_iff_eq, List.isPrefixOf_iff_prefix]
    constructor
    · rintro (rfl | ⟨rest, rfl⟩)
      · exact ⟨hne, [], (List.append_nil path).symm, .inl rfl⟩
      · exact ⟨hne, '/' :: rest, List.append_assoc pre ['/'] rest, .inr (.inr rfl)⟩
    · rintro ⟨-, rest, rfl, rfl | hend | hbegin⟩
      · exact .inl (List.append_nil pre)
      · rw [hlast] at hend
        exact absurd (Option.some.inj hend) hslash
      · obtain ⟨rest, rfl⟩ := List.head?_eq_some_iff.1 hbegin
        exact .inr ⟨rest, List.append_assoc pre ['/'] rest⟩

/-- A path that is matched begins as the prefix does. -/
theorem head?_of_matchesPrefix {path pre : List Char} (h : matchesPrefix path pre = true) :
    path.head? = pre.head? := by
  obtain ⟨hne, rest, rfl, -⟩ := matchesPrefix_iff.1 h
  exact List.head?_append_of_ne_nil pre hne

/-- A path that a prefix matches is matched in normal form too, as long as the prefix has no
blank in front. -/
theorem pathWithinPrefix_normalizePrefix {path pre : String}
    (hpre : ∀ x, (normalizeChars pre.toList).head? = some x → isBlank x = false)
    (h : pathWithinPrefix path pre = true) :
    pathWithinPrefix (normalizePrefix path) (normalizePrefix pre) = true := by
  have hpath : ∀ x, (normalizeChars path.toList).head? = some x → isBlank x = false := by
    rw [head?_of_matchesPrefix h]
    exact hpre
  rw [pathWithinPrefix, normalizePrefix, normalizePrefix, String.toList_ofList,
    String.toList_ofList, normalizeChars_normalizeChars hpath, normalizeChars_normalizeChars hpre]
  exact h

/-! ### Lists of prefixes -/

/-- A list of prefixes in normal form holds those of its prefixes, but for the empty one. -/
theorem mem_normalizePrefixes {prefixes : List String} {pre : String} :
    pre ∈ normalizePrefixes prefixes ↔ pre ≠ "" ∧ ∃ p ∈ prefixes, normalizePrefix p = pre := by
  rw [normalizePrefixes, List.mem_eraseDups, List.mem_filter, List.mem_map, decide_eq_true_iff,
    and_comm]

/-- An empty prefix matches nothing. -/
theorem pathWithinPrefix_empty (path : String) : pathWithinPrefix path "" = false := rfl

/-- What is dropped from a list of prefixes matches nothing. -/
theorem exists_matching_normalizePrefixes {prefixes : List String} {path : String} :
    (∃ pre ∈ normalizePrefixes prefixes, pathWithinPrefix path pre = true) ↔
      ∃ p ∈ prefixes, pathWithinPrefix path (normalizePrefix p) = true := by
  simp only [mem_normalizePrefixes]
  constructor
  · rintro ⟨pre, ⟨-, p, hp, rfl⟩, hmatch⟩
    exact ⟨p, hp, hmatch⟩
  · rintro ⟨p, hp, hmatch⟩
    refine ⟨_, ⟨fun hempty => ?_, p, hp, rfl⟩, hmatch⟩
    rw [hempty, pathWithinPrefix_empty] at hmatch
    cases hmatch

/-! ### Paths below a directory -/

/-- Behind a name, blanks are cut from what follows only, and nothing is dropped. -/
theorem normalizeChars_name_append {name : String} (hname : IsName name)
    (hslash : '\\' ∉ name.toList) (hblank : ∀ x, name.toList.head? = some x → isBlank x = false)
    (rest : List Char) :
    normalizeChars (name.toList ++ '/' :: rest) =
      name.toList ++ '/' :: forwardSlashes (dropTrailing isBlank rest) := by
  obtain ⟨x, more, hx⟩ := List.exists_cons_of_ne_nil hname.toList_ne_nil
  have htrim : trimChars (name.toList ++ '/' :: rest) =
      name.toList ++ '/' :: dropTrailing isBlank rest := by
    have hstart : trimStart (name.toList ++ '/' :: rest) = name.toList ++ '/' :: rest := by
      rw [hx]
      exact List.dropWhile_cons_of_neg (by simp [hblank x (by rw [hx]; rfl)])
    rw [trimChars, hstart]
    exact dropTrailing_append_cons rfl _ _
  -- a name is no dot, and does not begin with a slash
  have hx' : x ≠ '/' := fun heq => hname.2.2.2 (by rw [hx, heq]; exact List.mem_cons_self)
  rw [normalizeChars, htrim, forwardSlashes_append, forwardSlashes_eq_self hslash]
  refine dropLead.eq_3 _ (fun cs heq => ?_) fun cs heq => ?_
  · rw [hx, List.cons_append, List.cons.injEq] at heq
    obtain ⟨rfl, heq⟩ := heq
    cases more with
    | nil => exact hname.2.1 (String.toList_inj.1 hx)
    | cons y more =>
      obtain ⟨rfl, -⟩ := List.cons.inj heq
      exact hname.2.2.2 (by simp [hx])
  · rw [hx, List.cons_append, List.cons.injEq] at heq
    exact hx' heq.1

/-- **A directory as a prefix matches what begins with it.** -/
theorem pathWithinPrefix_name {name path : String} (hname : IsName name)
    (hslash : '\\' ∉ name.toList) (hblank : ∀ x, name.toList.head? = some x → isBlank x = false)
    (h : name.toList ++ ['/'] <+: path.toList) : pathWithinPrefix path (name ++ "/") = true := by
  obtain ⟨rest, hrest⟩ := h
  have hpre : normalizeChars (name ++ "/").toList = name.toList ++ ['/'] := by
    rw [String.toList_append]
    exact normalizeChars_name_append hname hslash hblank []
  have hpath : normalizeChars path.toList =
      (name.toList ++ ['/']) ++ forwardSlashes (dropTrailing isBlank rest) := by
    rw [← hrest, List.append_assoc, List.append_assoc]
    exact normalizeChars_name_append hname hslash hblank rest
  rw [pathWithinPrefix, hpre, hpath, matchesPrefix, List.getLast?_concat]
  exact List.isPrefixOf_iff_prefix.2 (List.prefix_append _ _)

end Correction
end Strata
