/-
# What an accepted correction may touch

Specification, section 4.6, prefix matching, and
`correction_staged_paths_within_constraint`.

The policy compares the staged paths of a step with the declared prefixes as
texts. Here both are read as places below the project root:

| reading | what it does to a path |
| --- | --- |
| `pathSegments` | slashes cut, empty segments and dots drop |
| `readSegments` | the same, once the policy has cut padding and what leads up to the first name |
| `resolve` | every `..` takes the segment before it; one with nothing to take leaves the project |

Every staged path of an accepted step begins, segment by segment, with an
allowed prefix (`Step.staged_within_prefix`). The policy does not resolve
`..`, so this is containment only for those paths that do not climb above the
prefix again; a path that does is accepted all the same and leads out of the
scope (`staged_outside_scope`).
-/

import Strata.Proofs.Correction.Scope
import Strata.Proofs.Correction.Verdict
import Strata.Layer

namespace Strata
namespace Correction

open Text

/-! ### Places below the project root -/

/-- One segment further from a place, which is given with its innermost
segment first. -/
def enter (back : List String) (segment : String) : Option (List String) :=
  if segment = ".." then
    match back with
    | [] => none
    | _ :: outer => some outer
  else some (segment :: back)

/-- The place that segments lead to; none when they leave the project. -/
def resolve (segments : List String) : Option (List String) :=
  (segments.foldlM enter []).map List.reverse

/-- Entering a segment takes away the one before it, whatever lies further out. -/
theorem enter_below {back inner : List String} {segment : String}
    (h : enter back segment = some inner) (outer : List String) :
    enter (back ++ outer) segment = some (inner ++ outer) := by
  unfold enter at h ⊢
  split at h
  · rename_i hup
    rw [if_pos hup]
    cases back with
    | nil => simp at h
    | cons _ back => simpa using h
  · rename_i hname
    rw [if_neg hname, ← Option.some.inj h]
    rfl

/-- What does not climb above its start leads to the same place below any
other start. -/
theorem foldlM_enter_below {segments back inner : List String}
    (h : segments.foldlM enter back = some inner) (outer : List String) :
    segments.foldlM enter (back ++ outer) = some (inner ++ outer) := by
  induction segments generalizing back with
  | nil =>
    obtain rfl := Option.some.inj h
    rfl
  | cons segment rest ih =>
    rw [List.foldlM_cons] at h ⊢
    obtain ⟨next, hnext, hrest⟩ := Option.bind_eq_some_iff.1 h
    rw [enter_below hnext outer]
    exact ih hrest

/-- **Resolution composes.** A path that goes on behind a place without
climbing above it stays below that place. -/
theorem resolve_append {xs ys start inner : List String} (hx : resolve xs = some start)
    (hy : resolve ys = some inner) : resolve (xs ++ ys) = some (start ++ inner) := by
  obtain ⟨back, hback, rfl⟩ := Option.map_eq_some_iff.1 hx
  obtain ⟨place, hplace, rfl⟩ := Option.map_eq_some_iff.1 hy
  have hjoin : (xs ++ ys).foldlM enter [] = some (place ++ back) := by
    rw [List.foldlM_append, hback]
    exact foldlM_enter_below hplace back
  rw [resolve, hjoin, Option.map_some, List.reverse_append]

/-! ### Segments of normal forms -/

/-- The segments on both sides of a slash are read each for themselves. -/
theorem pathSegments_append_slash (xs ys : List Char) :
    pathSegments (String.ofList (xs ++ '/' :: ys)) =
      pathSegments (String.ofList xs) ++ pathSegments (String.ofList ys) := by
  unfold pathSegments
  simp only [String.toList_ofList, forwardSlashes_append]
  have hslash : forwardSlashes ('/' :: ys) = '/' :: forwardSlashes ys := rfl
  rw [hslash, splitOn, splitWhere_append_cons (by simp), List.filter_append, List.map_append]

theorem pathSegments_nil : pathSegments (String.ofList []) = [] := by decide

/-- A leading slash or dot is no segment. -/
theorem pathSegments_dropLead (cs : List Char) :
    pathSegments (String.ofList (dropLead cs)) = pathSegments (String.ofList cs) := by
  fun_induction dropLead cs with
  | case1 rest ih =>
    rw [ih, show '.' :: '/' :: rest = ['.'] ++ '/' :: rest from rfl, pathSegments_append_slash,
      show pathSegments (String.ofList ['.']) = [] by decide, List.nil_append]
  | case2 rest ih =>
    rw [ih, show '/' :: rest = [] ++ '/' :: rest from rfl, pathSegments_append_slash,
      pathSegments_nil, List.nil_append]
  | case3 => rfl

/-- Turning backslashes first makes no difference to the segments. -/
theorem pathSegments_forwardSlashes (cs : List Char) :
    pathSegments (String.ofList (forwardSlashes cs)) = pathSegments (String.ofList cs) := by
  unfold pathSegments
  simp only [String.toList_ofList, forwardSlashes_forwardSlashes]

/-- **The normal form has the segments of the path without its padding.** -/
theorem pathSegments_normalizePrefix (path : String) :
    pathSegments (normalizePrefix path) = pathSegments (trim path) := by
  rw [normalizePrefix, normalizeChars, pathSegments_dropLead, pathSegments_forwardSlashes, trim]

/-- The segments of a path or a prefix as the policy reads it: its normal form
is taken once when it is collected and once more when it is compared. -/
def readSegments (path : String) : List String :=
  pathSegments (normalizePrefix (normalizePrefix path))

/-- A path with no blanks at the ends of its segments. -/
def Unpadded (path : String) : Prop := ∀ segment ∈ pathSegments path, trim segment = segment

/-- A segment without padding is trimmed already. -/
theorem Unpadded.trimChars_eq {path : String} (h : Unpadded path) {piece : List Char}
    (hmem : piece ∈ splitOn '/' (forwardSlashes path.toList)) (hne : piece ≠ [])
    (hdot : piece ≠ ['.']) : trimChars piece = piece := by
  have hseg : String.ofList piece ∈ pathSegments path :=
    List.mem_map_of_mem (List.mem_filter.2 ⟨hmem, by simp [hne, hdot]⟩)
  simpa [trim] using congrArg String.toList (h _ hseg)

/-- A path whose segments have no padding has none itself. -/
theorem Unpadded.trim_eq {path : String} (h : Unpadded path) : trim path = path := by
  have hslash {c : Char} (hc : isBlank c = true) : c ≠ '/' ∧ c ≠ '\\' ∧ c ≠ '.' := by
    refine ⟨?_, ?_, ?_⟩ <;> rintro rfl <;> revert hc <;> decide
  have hpiece {c : Char} (hc : isBlank c = true) :
      forwardSlashes [c] = [c] ∧ ∀ d ∈ [c], (d == '/') = false := by
    obtain ⟨h1, h2, -⟩ := hslash hc
    simp [forwardSlashes, h1, h2]
  have hchars : trimChars path.toList = path.toList := by
    refine trimChars_eq_self (fun c hhead => ?_) fun c hlast => ?_
    · -- a blank at the front would be at the front of the first segment
      refine Bool.eq_false_iff.2 fun hc => ?_
      obtain ⟨rest, hrest⟩ := List.head?_eq_some_iff.1 hhead
      obtain ⟨piece, pieces, hsplit⟩ :=
        List.exists_cons_of_ne_nil (splitWhere_ne_nil (· == '/') (forwardSlashes rest))
      have hmem : c :: piece ∈ splitOn '/' (forwardSlashes path.toList) := by
        rw [hrest, ← List.singleton_append, forwardSlashes_append, (hpiece hc).1, splitOn,
          List.singleton_append, splitWhere_cons, (hpiece hc).2 c List.mem_cons_self, hsplit]
        exact List.mem_cons_self
      refine trimChars_cons_ne hc piece (h.trimChars_eq hmem (by simp) fun hdot => ?_)
      exact (hslash hc).2.2 (List.cons.inj hdot).1
    · -- a blank at the end would be at the end of the last segment
      refine Bool.eq_false_iff.2 fun hc => ?_
      obtain ⟨front, hfront⟩ := List.getLast?_eq_some_iff.1 hlast
      obtain ⟨pieces, last, -, hsplit⟩ :=
        exists_splitWhere_append (hpiece hc).2 (forwardSlashes front)
      have hmem : last ++ [c] ∈ splitOn '/' (forwardSlashes path.toList) := by
        rw [hfront, forwardSlashes_append, (hpiece hc).1, splitOn, hsplit]
        simp
      refine trimChars_concat_ne hc last (h.trimChars_eq hmem (by simp) fun hdot => ?_)
      have hsame := congrArg List.getLast? hdot
      rw [List.getLast?_concat] at hsame
      exact (hslash hc).2.2 (Option.some.inj hsame)
  rw [trim, hchars, String.ofList_toList]

/-- **Without padding the policy reads the path itself.** -/
theorem readSegments_of_unpadded {path : String} (h : Unpadded path) :
    readSegments path = pathSegments path := by
  have honce : pathSegments (normalizePrefix path) = pathSegments path := by
    rw [pathSegments_normalizePrefix, h.trim_eq]
  have htwice : Unpadded (normalizePrefix path) := by
    unfold Unpadded
    rwa [honce]
  rw [readSegments, pathSegments_normalizePrefix, htwice.trim_eq, honce]

/-! ### What a prefix matches -/

/-- **Matching is by segments.** A path that a prefix matches goes on behind the
segments of the prefix. -/
theorem exists_segments_of_matchesPrefix {path pre : List Char}
    (h : matchesPrefix path pre = true) :
    ∃ rest, pathSegments (String.ofList path) = pathSegments (String.ofList pre) ++ rest := by
  obtain ⟨-, rest, rfl, rfl | hend | hbegin⟩ := matchesPrefix_iff.1 h
  · exact ⟨[], by rw [List.append_nil, List.append_nil]⟩
  · obtain ⟨front, rfl⟩ := List.getLast?_eq_some_iff.1 hend
    refine ⟨pathSegments (String.ofList rest), ?_⟩
    rw [List.append_assoc, List.singleton_append, pathSegments_append_slash,
      pathSegments_append_slash, pathSegments_nil, List.append_nil]
  · obtain ⟨rest, rfl⟩ := List.head?_eq_some_iff.1 hbegin
    exact ⟨pathSegments (String.ofList rest), pathSegments_append_slash pre rest⟩

/-- A path that a prefix matches goes on behind the segments of the prefix. -/
theorem exists_segments_of_pathWithinPrefix {path pre : String}
    (h : pathWithinPrefix path pre = true) :
    ∃ rest, pathSegments (normalizePrefix path) = pathSegments (normalizePrefix pre) ++ rest :=
  exists_segments_of_matchesPrefix h

/-! ### Staged paths -/

/-- The segments lead to a place in the project, and it lies below `scope`. -/
def LeadsBelow (scope segments : List String) : Prop :=
  ∃ place, resolve segments = some place ∧ scope <+: place

instance (scope segments : List String) : Decidable (LeadsBelow scope segments) :=
  match h : resolve segments with
  | none => isFalse fun ⟨_, hplace, _⟩ => by simp [h] at hplace
  | some place => decidable_of_iff (scope <+: place) (by simp [LeadsBelow, h])

/-- Segments without `..` lead where they say. -/
theorem resolve_eq_self {segments : List String} (h : ".." ∉ segments) :
    resolve segments = some segments := by
  have hstep (back : List String) :
      segments.foldlM enter back = some (segments.reverse ++ back) := by
    induction segments generalizing back with
    | nil => rfl
    | cons segment rest ih =>
      obtain ⟨hne, hrest⟩ := List.ne_and_not_mem_of_not_mem_cons h
      have henter : enter back segment = some (segment :: back) := if_neg (Ne.symm hne)
      rw [List.foldlM_cons, henter]
      exact (ih hrest (segment :: back)).trans (by simp)
  rw [resolve, hstep, List.append_nil, Option.map_some, List.reverse_reverse]

/-- Behind a prefix that leads somewhere, segments that do not climb out lead below it. -/
theorem LeadsBelow.append {scope pre rest : List String} (hpre : resolve pre = some scope)
    (hrest : (resolve rest).isSome) : LeadsBelow scope (pre ++ rest) := by
  obtain ⟨inner, hinner⟩ := Option.isSome_iff_exists.1 hrest
  exact ⟨scope ++ inner, resolve_append hpre hinner, List.prefix_append scope inner⟩

/-- **Staged paths stay in the declared scope as far as they do not climb.** For each staged
path of an accepted step the constraint allows a prefix whose segments it goes on behind. When
what it goes on with does not climb above its start, and its segments carry no padding, the path
itself leads below the place of the prefix. Source: specification, section 4.6, prefix matching.
-/
theorem Step.staged_within_prefix {step : Step} (h : step.evaluate.ok = true) :
    ∃ m d, step.input.metadata? = some m ∧ m.constraint = some d ∧
      ∀ diff ∈ step.stagedDiffs, ∃ pre ∈ d.allowedPathPrefixes, normalizePrefix pre ≠ "" ∧
        ∃ rest, readSegments diff.path = readSegments pre ++ rest ∧
          (Unpadded diff.path → (resolve rest).isSome →
            (∀ scope, resolve (readSegments pre) = some scope →
              LeadsBelow scope (pathSegments diff.path)) ∧
            (".." ∉ readSegments pre →
              LeadsBelow (readSegments pre) (pathSegments diff.path))) := by
  obtain ⟨m, d, hm, hc, hclean⟩ := Step.exists_constraint h
  refine ⟨m, d, hm, hc, fun diff hdiff => ?_⟩
  obtain ⟨normal, hnormal, hmatch⟩ := Step.staged_matched hc hclean hdiff
  obtain ⟨hne, pre, hpre, rfl⟩ := mem_normalizePrefixes.1 hnormal
  obtain ⟨rest, hrest⟩ := exists_segments_of_pathWithinPrefix hmatch
  refine ⟨pre, hpre, hne, rest, hrest, fun hpad hinner => ?_⟩
  have hpath : pathSegments diff.path = readSegments pre ++ rest := by
    rw [← readSegments_of_unpadded hpad]
    exact hrest
  rw [hpath]
  exact ⟨fun scope hscope => .append hscope hinner,
    fun hup => .append (resolve_eq_self hup) hinner⟩

/-- A step that stages one path under the prefix `src/`. -/
def stagingUnderSrc (path : String) : Step where
  id := "boot-correction-1"
  input :=
    ⟨some <| .record
      [("phase", .ofText "runtime"), ("attempt", .ofNat 1), ("failedStepId", .ofText "boot"),
       ("classification", .record [("intent", .ofText "unknown")]),
       ("constraint", .record
         [("intent", .ofText "unknown"), ("maxFiles", .ofNat 2),
          ("maxTotalDiffBytes", .ofNat 100), ("allowedPathPrefixes", .ofTexts ["src/"])])]⟩
  status := none
  errorMessage := none
  commitHash := none
  outputPayload := some ⟨[⟨path, "+"⟩]⟩
  resolvedConstraint := none
  maxFilesPerStep := none
  maxTotalDiffBytes := none

/-- A path that goes down and up again below `src` stays there. -/
theorem Step.staged_within_prefix_src :
    (stagingUnderSrc "./src\\a/../b.ts").evaluate.ok = true ∧
      ∃ m d, (stagingUnderSrc "./src\\a/../b.ts").input.metadata? = some m ∧
        m.constraint = some d ∧
        ∀ diff ∈ (stagingUnderSrc "./src\\a/../b.ts").stagedDiffs,
          ∃ pre ∈ d.allowedPathPrefixes, normalizePrefix pre ≠ "" ∧
            ∃ rest, readSegments diff.path = readSegments pre ++ rest ∧
              (Unpadded diff.path → (resolve rest).isSome →
                (∀ scope, resolve (readSegments pre) = some scope →
                  LeadsBelow scope (pathSegments diff.path)) ∧
                (".." ∉ readSegments pre →
                  LeadsBelow (readSegments pre) (pathSegments diff.path))) :=
  have h : (stagingUnderSrc "./src\\a/../b.ts").evaluate.ok = true := by decide +kernel
  ⟨h, Step.staged_within_prefix h⟩

/-- The staged paths with some property lead below the prefixes that are
allowed, in every accepted step. -/
def KeepsScope (property : String → Prop) : Prop :=
  ∀ (step : Step) (m : Metadata) (d : Declaration), step.evaluate.ok = true →
    step.input.metadata? = some m → m.constraint = some d → ∀ diff ∈ step.stagedDiffs,
      property diff.path →
        ∃ pre ∈ d.allowedPathPrefixes, LeadsBelow (pathSegments pre) (pathSegments diff.path)

/-- A property of an accepted path that leads outside does not keep the scope. -/
theorem not_keepsScope {property : String → Prop} {path : String}
    (hok : (stagingUnderSrc path).evaluate.ok = true) (hprop : property path)
    (hout : ¬ LeadsBelow (pathSegments "src/") (pathSegments path)) : ¬ KeepsScope property := by
  intro h
  obtain ⟨m, d, hm, hc, -⟩ := Step.exists_constraint hok
  have hprefixes : ((stagingUnderSrc path).input.metadata?.bind Metadata.constraint).map
      Declaration.allowedPathPrefixes = some ["src/"] := by
    change ((stagingUnderSrc "").input.metadata?.bind Metadata.constraint).map
      Declaration.allowedPathPrefixes = some ["src/"]
    decide +kernel
  rw [hm, Option.bind_some, hc, Option.map_some, Option.some.injEq] at hprefixes
  obtain ⟨pre, hpre, hbelow⟩ := h _ m d hok hm hc ⟨path, "+"⟩ List.mem_cons_self hprop
  rw [hprefixes, List.mem_singleton] at hpre
  exact hout (hpre ▸ hbelow)

/-- **Not every accepted path leads into the scope.** Under the prefix `src/`
the policy accepts `src/../.env`, which lies beside `src`, and, with a blank in
front, ` src/a.ts`, which lies in another directory. So neither a path without
padding nor one without `..` needs to stay in the scope. -/
theorem staged_outside_scope :
    ¬ KeepsScope (fun _ => True) ∧ ¬ KeepsScope Unpadded ∧
      ¬ KeepsScope (fun path => ".." ∉ pathSegments path) := by
  have hclimb : (stagingUnderSrc "src/../.env").evaluate.ok = true := by decide +kernel
  have henv : ¬ LeadsBelow (pathSegments "src/") (pathSegments "src/../.env") := by
    decide +kernel
  have hpadded : (stagingUnderSrc " src/a.ts").evaluate.ok = true := by decide +kernel
  have hblank : ¬ LeadsBelow (pathSegments "src/") (pathSegments " src/a.ts") := by
    decide +kernel
  have hunpadded : Unpadded "src/../.env" := by unfold Unpadded; decide +kernel
  exact ⟨not_keepsScope hclimb trivial henv, not_keepsScope hclimb hunpadded henv,
    not_keepsScope hpadded (by decide +kernel) hblank⟩

end Correction
end Strata
