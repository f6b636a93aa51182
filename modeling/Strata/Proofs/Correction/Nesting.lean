/-
# Prefixes within prefixes

Specification, section 4.6, prefix matching.

A prefix may itself be matched by another one, and then what it matches is matched by the
other one too. There are two modes of matching, so four ways in which two matches can meet;
but what is written behind a prefix tells the modes apart only where it begins
(`matchesPrefix_iff`), so that three cases are left (`matchesPrefix_trans`):

| the inner prefix is the outer one and | so the path is the outer prefix and |
| --- | --- |
| nothing | what stood behind the inner one |
| more, behind the slash at the end of the outer one | more, behind that slash |
| a slash and more | a slash and more |

A match ends where a segment ends: the segments of the prefix are the first ones of the path
(`segments_prefix_of_matchesPrefix`), and there is at least one (`segments_ne_nil`).
-/

import Strata.Proofs.Correction.Scope

namespace Strata
namespace Correction

open Text

/-- **What matches a prefix matches every prefix that this one matches.** -/
theorem matchesPrefix_trans {path pre outer : List Char} (h : matchesPrefix path pre = true)
    (k : matchesPrefix pre outer = true) : matchesPrefix path outer = true := by
  obtain ⟨-, rest, rfl, hrest⟩ := matchesPrefix_iff.1 h
  obtain ⟨hne, more, rfl, hmore⟩ := matchesPrefix_iff.1 k
  refine matchesPrefix_iff.2 ⟨hne, more ++ rest, List.append_assoc outer more rest, ?_⟩
  rcases hmore with rfl | hend | hbegin
  · rw [List.append_nil] at hrest
    exact hrest
  · exact .inr (.inl hend)
  · obtain ⟨more, rfl⟩ := List.head?_eq_some_iff.1 hbegin
    exact .inr (.inr rfl)

/-! ### Segments -/

/-- The pieces between slashes that are not empty; a dot is a piece like others. -/
def segments (cs : List Char) : List (List Char) := (splitOn '/' cs).filter (· ≠ [])

theorem segments_append_slash (xs ys : List Char) :
    segments (xs ++ '/' :: ys) = segments xs ++ segments ys := by
  rw [segments, splitOn, splitWhere_append_cons (by simp), List.filter_append]
  rfl

/-- What begins with no slash begins with a segment. -/
theorem segments_ne_nil {cs : List Char} (hne : cs ≠ []) (hhead : cs.head? ≠ some '/') :
    segments cs ≠ [] := by
  obtain ⟨x, rest, rfl⟩ := List.exists_cons_of_ne_nil hne
  have hx : ¬ (x == '/') = true := fun heq => hhead (congrArg some (beq_iff_eq.1 heq))
  obtain ⟨piece, pieces, hsplit⟩ := List.exists_cons_of_ne_nil (splitWhere_ne_nil (· == '/') rest)
  rw [segments, splitOn, splitWhere_cons, if_neg hx, hsplit, extendFirst]
  simp

/-- **A match ends where a segment ends.** -/
theorem segments_prefix_of_matchesPrefix {path pre : List Char}
    (h : matchesPrefix path pre = true) : segments pre <+: segments path := by
  obtain ⟨-, rest, rfl, rfl | hend | hbegin⟩ := matchesPrefix_iff.1 h
  · simp
  · obtain ⟨front, rfl⟩ := List.getLast?_eq_some_iff.1 hend
    rw [List.append_assoc, List.singleton_append, segments_append_slash, segments_append_slash]
    exact (List.prefix_append_right_inj _).2 List.nil_prefix
  · obtain ⟨rest, rfl⟩ := List.head?_eq_some_iff.1 hbegin
    rw [segments_append_slash]
    exact List.prefix_append _ _

theorem head?_dropLead_ne (cs : List Char) : (dropLead cs).head? ≠ some '/' := by
  fun_induction dropLead cs with
  | case1 rest ih => exact ih
  | case2 rest ih => exact ih
  | case3 cs hdot hslash =>
    intro hhead
    obtain ⟨rest, rfl⟩ := List.head?_eq_some_iff.1 hhead
    exact hslash rest rfl

/-- **Matching goes by whole segments, and it composes.** A prefix that matches a path has a
segment; its segments are the first ones of the path, each of them whole; and whatever prefix
matches it matches the path as well. Source: specification, section 4.6, prefix matching. -/
theorem pathWithinPrefix_nested {path pre : String} (h : pathWithinPrefix path pre = true) :
    segments (normalizePrefix pre).toList ≠ [] ∧
    segments (normalizePrefix pre).toList <+: segments (normalizePrefix path).toList ∧
    ∀ outer, pathWithinPrefix pre outer = true → pathWithinPrefix path outer = true := by
  rw [normalizePrefix, normalizePrefix, String.toList_ofList, String.toList_ofList]
  refine ⟨?_, segments_prefix_of_matchesPrefix h, fun outer k => matchesPrefix_trans h k⟩
  obtain ⟨hne, -⟩ := matchesPrefix_iff.1 h
  exact segments_ne_nil hne (head?_dropLead_ne _)

/-- A file in a directory, named without a slash behind it, in another one, named with it. -/
theorem pathWithinPrefix_nested_src :
    pathWithinPrefix "src//a/b.ts" ".\\src//a " = true ∧
      [['s', 'r', 'c'], ['a']] <+: segments (normalizePrefix "src//a/b.ts").toList ∧
      pathWithinPrefix "src//a/b.ts" " /src/" = true := by
  have h : pathWithinPrefix "src//a/b.ts" ".\\src//a " = true := by decide
  have hsegments : segments (normalizePrefix ".\\src//a ").toList = [['s', 'r', 'c'], ['a']] := by
    decide
  obtain ⟨-, hbegin, hcompose⟩ := pathWithinPrefix_nested h
  exact ⟨h, hsegments ▸ hbegin, hcompose " /src/" (by decide)⟩

end Correction
end Strata
