/-
# Tokens pass the two automata unchanged

Comments and trailing commas are dropped by two automata that follow strings and escapes each
for itself. They agree with the lexer on what is a string: the region of a text in which they
stand is that of the lexer's phase (`Lexer.region_after`).

| phase of the lexer | region |
| --- | --- |
| in a string, behind a backslash | an escaped literal |
| in a string | a literal |
| idle, in a number, in a word | code |

So neither of them changes a character that the lexer reads (`dropComments_run`,
`dropTrailingCommas_run`), unless it is a comma in code, which is a token of its own; and a
token passes both as it is written (`dropComments_token`, `dropTrailingCommas_token`).
-/

import Strata.Json.Relaxed
import Strata.Proofs.Json.Lexed

namespace Strata
namespace Json

/-! ### Regions -/

/-- The region behind one more character that belongs to no comment. -/
def Region.after : Region → Char → Region
  | .literal true, _ => .literal false
  | .literal false, c => if c = '"' then .code else .literal (c == '\\')
  | region, c => if c = '"' then .literal false else region

/-- In code, a quote opens a literal and every other character stays in code. -/
theorem Region.after_code (c : Char) :
    Region.code.after c = if c = '"' then .literal false else .code := rfl

/-- The region in which the lexer stands. -/
def Phase.region : Phase → Region
  | .inString state => .literal (state == .escape)
  | .idle | .inNumber _ | .inWord => .code

namespace Lexer

variable {l next : Lexer} {c : Char} {done : List Token}

/-- A token that needs no quote in front of it stands in code. -/
theorem region_of_opening {phase : Phase} (h : opening phase = []) : phase.region = .code := by
  cases phase with
  | inString => cases h
  | idle | inNumber | inWord => rfl

/-- A token that can end here stands in code: an open string cannot. -/
theorem region_of_finish? (h : l.finish? = some done) : l.phase.region = .code := by
  obtain ⟨tokens, pending, phase⟩ := l
  cases phase with
  | inString => cases h
  | idle | inNumber | inWord => rfl

/-- Between tokens, a character that is read leads to the region behind it, and it is no slash. -/
theorem region_of_stepIdle (h : stepIdle done c = some next) :
    next.phase.region = Region.code.after c ∧ c ≠ '/' := by
  refine ⟨?_, by rintro rfl; cases h⟩
  by_cases hquote : c = '"'
  · subst hquote
    obtain rfl := Option.some.inj h
    rfl
  · rw [Region.after_code, if_neg hquote]
    rcases stepIdle_cases h with hblank | ⟨t, -, -, hemit⟩ | rfl | ⟨-, phase, hopening, -, hread⟩
    · obtain rfl := Option.some.inj ((stepIdle_blank hblank done).symm.trans h)
      rfl
    · obtain rfl := Option.some.inj ((hemit done).symm.trans h)
      rfl
    · exact absurd rfl hquote
    · obtain rfl := Option.some.inj ((hread done).symm.trans h)
      exact region_of_opening hopening

/-- **The lexer knows the region**, and reads no slash in code. -/
theorem region_after (h : l.step c = some next) :
    next.phase.region = l.phase.region.after c ∧ (l.phase.region = .code → c ≠ '/') := by
  rcases step_cases h with ⟨done, hfinish, hidle⟩ | ⟨-, hopening, ⟨hquote, hslash, -⟩, after, -,
    hafter, hmore⟩ | ⟨state, after, hstate, hmore, hquote, hescape⟩ | ⟨hstate, rfl, rfl⟩
  · obtain ⟨hregion, hslash⟩ := region_of_stepIdle hidle
    rw [region_of_finish? hfinish]
    exact ⟨hregion, fun _ => hslash⟩
  · obtain rfl := Option.some.inj ((hmore l.tokens).symm.trans h)
    rw [region_of_opening hopening, region_of_opening hafter, Region.after_code, if_neg hquote]
    exact ⟨rfl, fun _ => hslash⟩
  · obtain rfl := Option.some.inj ((hmore l.tokens).symm.trans h)
    rw [hstate]
    refine ⟨?_, by simp [Phase.region]⟩
    by_cases hs : state = .escape
    · subst hs
      have hplain : (after == .escape) = false := by simpa using hescape
      exact congrArg Region.literal hplain
    · have hliteral : (Phase.inString state).region = .literal false :=
        congrArg Region.literal (by simpa using hs)
      rw [hliteral, Region.after, if_neg fun h => hs (hquote h)]
      refine congrArg Region.literal (Bool.eq_iff_iff.2 ?_)
      rw [beq_iff_eq, beq_iff_eq, hescape, and_iff_right hs]
  · rw [hstate]
    exact ⟨rfl, by simp [Phase.region]⟩

/-! ### Finished tokens stay -/

/-- Finishing the open token keeps the tokens before it. -/
theorem subset_of_finish? (h : l.finish? = some done) : l.tokens ⊆ done := by
  obtain ⟨tokens, pending, phase⟩ := l
  cases phase with
  | idle => exact Option.some.inj h ▸ List.Subset.refl _
  | inString state => cases h
  | inNumber state =>
    simp only [finish?] at h
    split at h
    · exact Option.some.inj h ▸ List.subset_cons_self _ _
    · cases h
  | inWord =>
    obtain ⟨t, -, rfl⟩ := Option.map_eq_some_iff.1 h
    exact List.subset_cons_self t tokens

/-- A character read between tokens keeps the tokens before it. -/
theorem subset_of_stepIdle (h : stepIdle done c = some next) : done ⊆ next.tokens := by
  rcases stepIdle_cases h with hblank | ⟨t, -, -, hemit⟩ | rfl | ⟨-, phase, -, -, hread⟩
  · obtain rfl := Option.some.inj ((stepIdle_blank hblank done).symm.trans h)
    exact List.Subset.refl done
  · obtain rfl := Option.some.inj ((hemit done).symm.trans h)
    exact List.subset_cons_self t done
  · obtain rfl := Option.some.inj h
    exact List.Subset.refl done
  · obtain rfl := Option.some.inj ((hread done).symm.trans h)
    exact List.Subset.refl done

/-- One character keeps the finished tokens. -/
theorem subset_of_step (h : l.step c = some next) : l.tokens ⊆ next.tokens := by
  rcases step_cases h with ⟨done, hfinish, hidle⟩ | ⟨-, -, -, after, -, -, hmore⟩ |
    ⟨state, after, -, hmore, -⟩ | ⟨-, -, rfl⟩
  · exact List.Subset.trans (subset_of_finish? hfinish) (subset_of_stepIdle hidle)
  · obtain rfl := Option.some.inj ((hmore l.tokens).symm.trans h)
    exact List.Subset.refl l.tokens
  · obtain rfl := Option.some.inj ((hmore l.tokens).symm.trans h)
    exact List.Subset.refl l.tokens
  · exact List.subset_cons_self _ _

/-- A whole text keeps the finished tokens. -/
theorem subset_of_run {cs : List Char} (h : l.run cs = some next) : l.tokens ⊆ next.tokens := by
  induction cs generalizing l with
  | nil => exact Option.some.inj h ▸ List.Subset.refl _
  | cons c cs ih =>
    rw [run] at h
    split at h
    · rename_i mid hstep
      exact List.Subset.trans (subset_of_step hstep) (ih h)
    · cases h

/-- A comma in code is a token. -/
theorem comma_mem_of_step (h : l.step ',' = some next) (hcode : l.phase.region = .code) :
    .comma ∈ next.tokens := by
  rcases step_cases h with ⟨done, -, hidle⟩ | ⟨-, -, ⟨-, -, hcomma⟩, -⟩ | ⟨state, -, hstate, -⟩ |
    ⟨-, hquote, -⟩
  · obtain rfl := Option.some.inj hidle
    exact List.mem_cons_self
  · exact absurd rfl hcomma
  · rw [hstate] at hcode
    cases hcode
  · exact absurd hquote (by decide)

/-! ### What the lexer reads stays -/

/-- A character that opens no comment is kept, and the region behind it is the one the lexer
knows. -/
theorem dropComments_ink {phase : Phase} (hslash : phase.region = .code → c ≠ '/')
    (cs : List Char) :
    dropComments phase.region (c :: cs) = c :: dropComments (phase.region.after c) cs := by
  cases phase with
  | inString state =>
    simp only [Phase.region]
    cases state == .escape <;> rw [dropComments, Region.after]
  | idle | inNumber | inWord =>
    have hc := hslash rfl
    simp [Phase.region, dropComments, Region.after_code, hc]

/-- A character that is no comma in code is kept, with the same region behind it. -/
theorem dropTrailingCommas_ink {phase : Phase} (hcomma : phase.region = .code → c ≠ ',')
    (cs : List Char) :
    dropTrailingCommas phase.region (c :: cs) =
      c :: dropTrailingCommas (phase.region.after c) cs := by
  cases phase with
  | inString state =>
    simp only [Phase.region]
    cases state == .escape <;> rw [dropTrailingCommas, Region.after]
  | idle | inNumber | inWord =>
    have hc := hcomma rfl
    simp [Phase.region, dropTrailingCommas, Region.after_code, hc]

/-- What the lexer reads is no comment. -/
theorem dropComments_run {cs : List Char} (h : l.run cs = some next) (ds : List Char) :
    dropComments l.phase.region (cs ++ ds) = cs ++ dropComments next.phase.region ds := by
  induction cs generalizing l with
  | nil => exact Option.some.inj h ▸ rfl
  | cons c cs ih =>
    rw [run] at h
    split at h
    · rename_i mid hstep
      obtain ⟨hregion, hslash⟩ := region_after hstep
      rw [List.cons_append, dropComments_ink hslash, ← hregion, ih h]
      rfl
    · cases h

/-- What the lexer reads without reading the token of a comma is no trailing comma. -/
theorem dropTrailingCommas_run {cs : List Char} (h : l.run cs = some next)
    (hcomma : .comma ∉ next.tokens) (ds : List Char) :
    dropTrailingCommas l.phase.region (cs ++ ds) =
      cs ++ dropTrailingCommas next.phase.region ds := by
  induction cs generalizing l with
  | nil => exact Option.some.inj h ▸ rfl
  | cons c cs ih =>
    rw [run] at h
    split at h
    · rename_i mid hstep
      have hink : l.phase.region = .code → c ≠ ',' := by
        rintro hcode rfl
        exact hcomma (subset_of_run h (comma_mem_of_step hstep hcode))
      rw [List.cons_append, dropTrailingCommas_ink hink, ← (region_after hstep).1, ih h]
      rfl
    · cases h

end Lexer

/-! ### Tokens and blanks -/

variable {t : Token} {c : Char}

/-- **A token is no comment.** -/
theorem dropComments_token (h : t.WellSpelled) (cs : List Char) :
    dropComments .code (t.text.toList ++ cs) = t.text.toList ++ dropComments .code cs := by
  obtain ⟨l, hrun, hfinish⟩ := h []
  have hpass := Lexer.dropComments_run hrun cs
  rwa [Lexer.region_of_finish? hfinish] at hpass

/-- **A token other than a comma is no trailing comma.** -/
theorem dropTrailingCommas_token (h : t.WellSpelled) (hcomma : t ≠ .comma) (cs : List Char) :
    dropTrailingCommas .code (t.text.toList ++ cs) =
      t.text.toList ++ dropTrailingCommas .code cs := by
  obtain ⟨l, hrun, hfinish⟩ := h []
  have hnone : .comma ∉ l.tokens := fun hmem =>
    hcomma (List.mem_singleton.1 (Lexer.subset_of_finish? hfinish hmem)).symm
  have hpass := Lexer.dropTrailingCommas_run hrun hnone cs
  rwa [Lexer.region_of_finish? hfinish] at hpass

/-- Blanks in code are kept when comments are dropped. -/
theorem dropComments_blank (h : c ∈ blanks) (cs : List Char) :
    dropComments .code (c :: cs) = c :: dropComments .code cs := by
  rcases mem_blanks.1 h with rfl | rfl | rfl | rfl <;> simp [dropComments]

/-- Blanks in code are kept when trailing commas are dropped. -/
theorem dropTrailingCommas_blank (h : c ∈ blanks) (cs : List Char) :
    dropTrailingCommas .code (c :: cs) = c :: dropTrailingCommas .code cs := by
  rcases mem_blanks.1 h with rfl | rfl | rfl | rfl <;> simp [dropTrailingCommas]

/-- A text of tokens holds no comment. -/
theorem dropComments_of_lex? {cs : List Char} {ts : List Token} (h : lex? cs = some ts) :
    dropComments .code cs = cs := by
  rw [lex?] at h
  split at h
  · rename_i l hrun
    have hpass := Lexer.dropComments_run hrun []
    rwa [List.append_nil, dropComments, List.append_nil] at hpass
  · cases h

end Json
end Strata
