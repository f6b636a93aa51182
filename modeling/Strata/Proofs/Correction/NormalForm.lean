/-
# The normal form of a normal form

Specification, section 4.6: prefixes are normalized.

A staged path and a declared prefix are brought to their normal forms where they are
collected, and once more where they are compared. Blanks are cut first, and whatever `/` and
`./` stand in front are dropped after that. A blank behind them comes to light too late:

| path | normal form | normal form of that |
| --- | --- | --- |
| `./src` | `src` | `src` |
| `./ src` | ` src` | `src` |
| `/ ./src` | ` ./src` | `src` |

That blank is all that a second pass finds (`normalizePrefix_eq_self_iff`). A path or a prefix
that hides none is compared as it was written (`pathWithinPrefix_renormalized`,
`mem_outsidePaths_iff`). For one that does there is no saying: every prefix of which anything
is left is compared wrongly with some path (`exists_path_compared_wrongly`).
-/

import Strata.Proofs.Correction.Scope
import Strata.Proofs.Lists
import Strata.Correction.Policy

namespace Strata
namespace Correction

open Text Policy

/-! ### A second pass -/

theorem toList_normalizePrefix (path : String) :
    (normalizePrefix path).toList = normalizeChars path.toList := String.toList_ofList

theorem length_normalizeChars_le (cs : List Char) : (normalizeChars cs).length ≤ cs.length :=
  calc (normalizeChars cs).length
    _ ≤ (forwardSlashes (trimChars cs)).length := (dropLead_suffix _).length_le
    _ = (trimChars cs).length := List.length_map _
    _ ≤ (trimStart cs).length := length_dropTrailing_le isBlank _
    _ ≤ cs.length := length_trimStart_le cs

/-- A blank in front does not count. -/
theorem normalizeChars_cons_blank {x : Char} (hx : isBlank x = true) (cs : List Char) :
    normalizeChars (x :: cs) = normalizeChars cs := by
  rw [normalizeChars, trimChars, trimStart, List.dropWhile_cons_of_pos hx]
  rfl

/-- A path whose normal form begins with a blank: one that stood behind a `/` or `./` in front
of the path. -/
def HidesBlank (path : String) : Prop :=
  ∃ x ∈ (normalizePrefix path).toList.head?, isBlank x = true

instance (path : String) : Decidable (HidesBlank path) :=
  decidable_of_iff ((normalizePrefix path).toList.head?.any isBlank = true) <| by
    unfold HidesBlank
    cases (normalizePrefix path).toList.head? <;> simp

/-- **A normal form is its own normal form exactly when no blank was hidden.** -/
theorem normalizePrefix_eq_self_iff {path : String} :
    normalizePrefix (normalizePrefix path) = normalizePrefix path ↔ ¬ HidesBlank path := by
  constructor
  · rintro hfixed ⟨x, hx, hblank⟩
    obtain ⟨rest, hrest⟩ := List.head?_eq_some_iff.1 hx
    -- the second pass cuts the blank, and never makes up for it
    have hchars := congrArg String.toList hfixed
    rw [toList_normalizePrefix, hrest, normalizeChars_cons_blank hblank] at hchars
    have hlength := length_normalizeChars_le rest
    rw [hchars, List.length_cons] at hlength
    omega
  · intro hnone
    have hhead : ∀ x, (normalizeChars path.toList).head? = some x → isBlank x = false := by
      intro x hx
      refine Bool.eq_false_iff.2 fun hblank => hnone ⟨x, ?_, hblank⟩
      rw [toList_normalizePrefix]
      exact hx
    rw [normalizePrefix, toList_normalizePrefix, normalizeChars_normalizeChars hhead]
    rfl

/-! ### Lists of prefixes -/

/-- A list that repeats nothing stays as it is when each of its prefixes does. -/
theorem normalizePrefixes_eq_self_iff {prefixes : List String} (hnodup : prefixes.Nodup)
    (hempty : "" ∉ prefixes) :
    normalizePrefixes prefixes = prefixes ↔ ∀ pre ∈ prefixes, normalizePrefix pre = pre := by
  constructor
  · intro hfixed pre hpre
    have hsub : (normalizePrefixes prefixes).Sublist (prefixes.map normalizePrefix) :=
      (eraseDups_sublist _).trans List.filter_sublist
    -- nothing was dropped or erased, or the list would be shorter
    have hmap : prefixes = prefixes.map normalizePrefix :=
      (hfixed ▸ hsub).eq_of_length (List.length_map _).symm
    have hid : prefixes.map normalizePrefix = prefixes.map id := by rw [← hmap, List.map_id]
    exact List.map_inj_left.1 hid pre hpre
  · intro hfixed
    have hmap : prefixes.map normalizePrefix = prefixes :=
      (List.map_congr_left hfixed).trans (List.map_id prefixes)
    have hfilter : prefixes.filter (· ≠ "") = prefixes :=
      List.filter_eq_self.2 fun pre hpre => decide_eq_true fun heq => hempty (heq ▸ hpre)
    rw [normalizePrefixes, hmap, hfilter, eraseDups_eq_self hnodup]

/-- A list of normal forms stays as it is exactly when no prefix hid a blank. -/
theorem normalizePrefixes_fixed_iff {prefixes : List String} :
    normalizePrefixes (normalizePrefixes prefixes) = normalizePrefixes prefixes ↔
      ∀ pre ∈ prefixes, ¬ HidesBlank pre := by
  have hnodup : (normalizePrefixes prefixes).Nodup := nodup_eraseDups _
  have hempty : "" ∉ normalizePrefixes prefixes := fun h => (mem_normalizePrefixes.1 h).1 rfl
  rw [normalizePrefixes_eq_self_iff hnodup hempty]
  constructor
  · intro h pre hpre
    rw [← normalizePrefix_eq_self_iff]
    by_cases hnil : normalizePrefix pre = ""
    · rw [hnil]
      rfl
    · exact h _ (mem_normalizePrefixes.2 ⟨hnil, pre, hpre, rfl⟩)
  · intro h pre hpre
    obtain ⟨-, declared, hdeclared, rfl⟩ := mem_normalizePrefixes.1 hpre
    exact normalizePrefix_eq_self_iff.2 (h declared hdeclared)

/-! ### What is compared -/

theorem pathWithinPrefix_eq (path pre : String) :
    pathWithinPrefix path pre =
      matchesPrefix (normalizePrefix path).toList (normalizePrefix pre).toList := by
  rw [toList_normalizePrefix, toList_normalizePrefix]
  rfl

/-- **What hides no blank is compared as it was written.** -/
theorem pathWithinPrefix_renormalized {path pre : String} (hpath : ¬ HidesBlank path)
    (hpre : ¬ HidesBlank pre) :
    pathWithinPrefix (normalizePrefix path) (normalizePrefix pre) = pathWithinPrefix path pre := by
  rw [pathWithinPrefix_eq, pathWithinPrefix_eq, normalizePrefix_eq_self_iff.2 hpath,
    normalizePrefix_eq_self_iff.2 hpre]

/-- Without hidden blanks, the policy finds those staged paths outside that no prefix matches
as both were written. -/
theorem mem_outsidePaths_iff {diffs : List StagedDiff} {d : Declaration} {diff : StagedDiff}
    (hdiff : diff ∈ diffs) (hpath : ¬ HidesBlank diff.path)
    (hprefixes : ∀ pre ∈ d.allowedPathPrefixes, ¬ HidesBlank pre) :
    normalizePrefix diff.path ∈ outsidePaths d (stagedPaths diffs) ↔
      ∀ pre ∈ d.allowedPathPrefixes, pathWithinPrefix diff.path pre = false := by
  have hstaged : normalizePrefix diff.path ∈ stagedPaths diffs :=
    List.mem_eraseDups.2 (List.mem_map_of_mem hdiff)
  have hmatched : (∃ p ∈ d.allowedPathPrefixes,
        pathWithinPrefix (normalizePrefix diff.path) (normalizePrefix p) = true) ↔
      ∃ p ∈ d.allowedPathPrefixes, pathWithinPrefix diff.path p = true :=
    exists_congr fun p => and_congr_right fun hp => by
      rw [pathWithinPrefix_renormalized hpath (hprefixes p hp)]
  rw [outsidePaths, List.mem_filter, and_iff_right hstaged, Bool.not_eq_true',
    ← Bool.not_eq_true, List.any_eq_true, exists_matching_normalizePrefixes, hmatched]
  simp

/-- A text that itself behind a space begins with consists of spaces. -/
theorem eq_space_of_prefix_cons {cs : List Char} (h : cs <+: ' ' :: cs) : ∀ x ∈ cs, x = ' ' := by
  induction cs with
  | nil => simp
  | cons c cs ih =>
    obtain ⟨rfl, hrest⟩ := List.cons_prefix_cons.1 h
    exact List.forall_mem_cons.2 ⟨rfl, ih hrest⟩

/-- A space between `./` and a normal form is hidden. -/
theorem normalizeChars_hidden {cs : List Char} (h : normalizeChars cs ≠ []) :
    normalizeChars ('.' :: '/' :: ' ' :: normalizeChars cs) = ' ' :: normalizeChars cs := by
  have hlast : ∀ x, ('.' :: '/' :: ' ' :: normalizeChars cs).getLast? = some x →
      isBlank x = false := by
    intro x hx
    have hbehind : (normalizeChars cs).getLast? = some x := by
      obtain ⟨y, rest, hrest⟩ := List.exists_cons_of_ne_nil h
      rw [hrest] at hx ⊢
      exact hx
    exact isBlank_getLast?_normalizeChars hbehind
  have htrim : trimChars ('.' :: '/' :: ' ' :: normalizeChars cs) =
      '.' :: '/' :: ' ' :: normalizeChars cs :=
    trimChars_eq_self (by rintro x ⟨⟩; rfl) hlast
  have hslash : '\\' ∉ '.' :: '/' :: ' ' :: normalizeChars cs := by
    simpa using not_mem_normalizeChars cs
  rw [normalizeChars, htrim, forwardSlashes_eq_self hslash]
  rfl

/-- **Every prefix of which anything is left is compared wrongly with some path.** -/
theorem exists_path_compared_wrongly {pre : String} (h : normalizePrefix pre ≠ "") :
    ∃ path, pathWithinPrefix (normalizePrefix path) (normalizePrefix pre) ≠
      pathWithinPrefix path pre := by
  have hne : normalizeChars pre.toList ≠ [] := fun hnil =>
    h (String.toList_inj.1 ((toList_normalizePrefix pre).trans hnil))
  have hself {cs : List Char} (hcs : cs ≠ []) : matchesPrefix cs cs = true :=
    matchesPrefix_iff.2 ⟨hcs, [], (List.append_nil cs).symm, .inl rfl⟩
  by_cases hagain : normalizeChars (normalizeChars pre.toList) = []
  · -- the second pass leaves nothing of the prefix, which then does not match itself
    refine ⟨pre, ?_⟩
    rw [pathWithinPrefix, pathWithinPrefix, toList_normalizePrefix, hagain, hself hne]
    decide
  · -- a space is hidden in front of the prefix
    refine ⟨String.ofList ('.' :: '/' :: ' ' :: normalizeChars pre.toList), ?_⟩
    rw [pathWithinPrefix, pathWithinPrefix, toList_normalizePrefix, toList_normalizePrefix,
      String.toList_ofList, normalizeChars_hidden hne, normalizeChars_cons_blank (by decide),
      hself hagain]
    refine fun hmatch => ?_
    obtain ⟨-, rest, hrest, -⟩ := matchesPrefix_iff.1 hmatch.symm
    obtain ⟨x, hx⟩ := Option.ne_none_iff_exists'.1 (mt List.getLast?_eq_none_iff.1 hne)
    have hspace : x = ' ' :=
      eq_space_of_prefix_cons ⟨rest, hrest.symm⟩ x (List.mem_of_getLast? hx)
    have hblank := isBlank_getLast?_normalizeChars hx
    rw [hspace] at hblank
    cases hblank

/-- **Normal forms are stable but for hidden blanks.** A path is brought to its normal form once
for all exactly when it hides no blank, and so is a list of prefixes when none of them hides
one. What hides none is compared in normal form as it was written, and so is it by the policy.
This cannot be had for all paths at once, whatever the prefix, unless nothing is left of it and
it matches none. Source: specification, section 4.6, normalized prefixes. -/
theorem normal_forms_stable (path pre : String) (prefixes : List String) (d : Declaration)
    (diffs : List StagedDiff) :
    (normalizePrefix (normalizePrefix path) = normalizePrefix path ↔ ¬ HidesBlank path) ∧
    (normalizePrefixes (normalizePrefixes prefixes) = normalizePrefixes prefixes ↔
      ∀ pre ∈ prefixes, ¬ HidesBlank pre) ∧
    (¬ HidesBlank path → ¬ HidesBlank pre →
      pathWithinPrefix (normalizePrefix path) (normalizePrefix pre) =
        pathWithinPrefix path pre) ∧
    (∀ diff ∈ diffs, ¬ HidesBlank diff.path →
      (∀ pre ∈ d.allowedPathPrefixes, ¬ HidesBlank pre) →
        (normalizePrefix diff.path ∈ outsidePaths d (stagedPaths diffs) ↔
          ∀ pre ∈ d.allowedPathPrefixes, pathWithinPrefix diff.path pre = false)) ∧
    ((∀ path, pathWithinPrefix (normalizePrefix path) (normalizePrefix pre) =
      pathWithinPrefix path pre) ↔ normalizePrefix pre = "") := by
  refine ⟨normalizePrefix_eq_self_iff, normalizePrefixes_fixed_iff,
    pathWithinPrefix_renormalized, fun _ => mem_outsidePaths_iff, ?_⟩
  -- a prefix that is nothing matches no path in either form; any other one is compared wrongly
  -- with some path
  constructor
  · intro hall
    by_contra hne
    obtain ⟨path, hpath⟩ := exists_path_compared_wrongly hne
    exact hpath (hall path)
  · intro hnil path
    rw [pathWithinPrefix_eq path pre, hnil, pathWithinPrefix_empty]
    rfl

/-- A path and a prefix without hidden blanks, in other spellings than their normal forms. -/
theorem normal_forms_stable_src :
    let path := " .\\src/a b.ts"
    let declared : Declaration := ⟨none, none, none, ["/src/ "], []⟩
    ¬ HidesBlank path ∧ (∀ pre ∈ declared.allowedPathPrefixes, ¬ HidesBlank pre) ∧
      normalizePrefix (normalizePrefix path) = normalizePrefix path ∧
      pathWithinPrefix (normalizePrefix path) (normalizePrefix "/src/ ") =
        pathWithinPrefix path "/src/ " ∧
      normalizePrefix path ∉ outsidePaths declared (stagedPaths [⟨path, ""⟩]) := by
  intro path declared
  have hpath : ¬ HidesBlank path := by decide
  have hprefixes : ∀ pre ∈ declared.allowedPathPrefixes, ¬ HidesBlank pre := by decide
  have hpre : "/src/ " ∈ declared.allowedPathPrefixes := List.mem_singleton_self _
  have hwithin : pathWithinPrefix path "/src/ " = true := by decide
  obtain ⟨hfixed, -, hcompared, houtside, -⟩ :=
    normal_forms_stable path "/src/ " declared.allowedPathPrefixes declared [⟨path, ""⟩]
  refine ⟨hpath, hprefixes, hfixed.2 hpath, hcompared hpath (hprefixes _ hpre), fun hmem => ?_⟩
  have hmissed := (houtside _ (List.mem_singleton_self _) hpath hprefixes).1 hmem _ hpre
  rw [hwithin] at hmissed
  cases hmissed

/-- **A hidden blank comes to light one pass later.** The normal form of `./ a` is not its own
normal form; and the prefix `./ a` does not match the path `a`, but in normal form it does. -/
theorem hidden_blank_resurfaces :
    normalizePrefix "./ a" = " a" ∧ normalizePrefix (normalizePrefix "./ a") = "a" ∧
      normalizePrefixes ["./ a"] = [" a"] ∧
      normalizePrefixes (normalizePrefixes ["./ a"]) = ["a"] ∧
      pathWithinPrefix "a" "./ a" = false ∧
      pathWithinPrefix (normalizePrefix "a") (normalizePrefix "./ a") = true := by
  decide

end Correction
end Strata
