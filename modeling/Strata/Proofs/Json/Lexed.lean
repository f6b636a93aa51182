/-
# What the lexer reads is spelled by the rules

A text from which the lexer reads tokens writes these tokens in order, with nothing but blanks
before, between and behind them, and each of the tokens is well spelled and begins with a
character that tells whether it closes a container (`spaced_of_lex?`).

The proof follows the lexer character by character. The lexer stands behind a text that writes
the finished tokens (`Lexer.Whole`) and behind the part of one token that has begun
(`Lexer.Begun`). What one character does there is said once (`Lexer.step_cases`):

| character | then |
| --- | --- |
| ends what has begun, or nothing has begun | read behind finished tokens (`Whole.stepIdle`) |
| of a number, a word or a string | the part goes on (`Reached.more`) |
| the quote that ends a string | the part is a token (`Reached.close`) |
-/

import Strata.Proofs.Json.Tokens
import Strata.Text.Basic

namespace Strata
namespace Json

open Text

/-! ### Tokens by their first characters -/

/-- True for a character that closes a container. -/
def closes (c : Char) : Bool := c == '}' || c == ']'

/-- True for a token that closes a container. -/
def Token.isCloser : Token → Bool
  | closeBrace | closeBracket => true
  | openBrace | openBracket | comma | colon | null | bool _ | number _ | string _ => false

/-- A token that the lexer reads from its text, whose first character is no blank and tells
whether the token closes a container. -/
structure Token.Spelled (t : Token) : Prop where
  read : t.WellSpelled
  first : ∃ c cs, t.text.toList = c :: cs ∧ isBlank c = false ∧ closes c = t.isCloser

theorem Token.spelled_of_punctuation {t : Token} (h : t.isPunctuation = true) : t.Spelled := by
  refine ⟨wellSpelled_of_punctuation h, ?_⟩
  cases t with
  | openBrace | closeBrace | openBracket | closeBracket | comma | colon =>
    exact ⟨_, _, rfl, by decide, by decide⟩
  | null | bool | number | string => cases h

theorem Token.spelled_bool (b : Bool) : (bool b).Spelled := by
  refine ⟨wellSpelled_bool b, ?_⟩
  cases b <;> exact ⟨_, _, rfl, by decide, by decide⟩

theorem Token.spelled_null : null.Spelled :=
  ⟨wellSpelled_null, _, _, rfl, by decide, by decide⟩

/-- A word is the text of its token. -/
theorem spelled_of_wordToken? {word : List Char} {t : Token}
    (h : Lexer.wordToken? word = some t) : t.text.toList = word ∧ t.Spelled := by
  unfold Lexer.wordToken? at h
  split at h
  · rename_i hword
    obtain rfl := Option.some.inj h
    exact ⟨hword.symm, Token.spelled_null⟩
  · split at h
    · rename_i hword
      obtain rfl := Option.some.inj h
      exact ⟨hword.symm, Token.spelled_bool true⟩
    · split at h
      · rename_i hword
        obtain rfl := Option.some.inj h
        exact ⟨hword.symm, Token.spelled_bool false⟩
      · cases h

theorem isBlank_of_mem_blanks {c : Char} (h : c ∈ blanks) : isBlank c = true := by
  rcases mem_blanks.1 h with rfl | rfl | rfl | rfl <;> rfl

/-- A printable character of ASCII is no blank, and only two of them close a container. -/
theorem ink_of_printable {c : Char} (h : 0x20 < c.toNat) (k : c.toNat < 0x7f)
    (hcloser : c ≠ '}' ∧ c ≠ ']') : isBlank c = false ∧ closes c = false := by
  refine ⟨?_, by simpa [closes] using hcloser⟩
  simp only [isBlank, Bool.or_eq_false_iff, Bool.and_eq_false_iff, decide_eq_false_iff_not,
    beq_eq_false_iff_ne]
  omega

/-- A digit neither is a blank nor closes a container. -/
theorem ink_of_isDigit {c : Char} (h : isDigit c = true) :
    isBlank c = false ∧ closes c = false := by
  have hcloser : c ≠ '}' ∧ c ≠ ']' := by
    constructor <;> rintro rfl <;> exact absurd h (by decide)
  simp only [isDigit, Bool.and_eq_true, decide_eq_true_eq, Char.le_def, UInt32.le_iff_toNat_le] at h
  exact ink_of_printable (Nat.lt_of_lt_of_le (by decide) h.1)
    (Nat.lt_of_le_of_lt h.2 (by decide)) hcloser

/-- A letter neither is a blank nor closes a container. -/
theorem ink_of_letter {c : Char} (h : 'a' ≤ c ∧ c ≤ 'z') :
    isBlank c = false ∧ closes c = false := by
  have hcloser : c ≠ '}' ∧ c ≠ ']' := by
    constructor <;> rintro rfl <;> exact absurd h (by decide)
  simp only [Char.le_def, UInt32.le_iff_toNat_le] at h
  exact ink_of_printable (Nat.lt_of_lt_of_le (by decide) h.1)
    (Nat.lt_of_le_of_lt h.2 (by decide)) hcloser

/-! ### What the lexer has read -/

namespace Lexer

/-- Some tokens, the latest first, are all that a text writes. -/
structure Whole (done : List Token) (cs : List Char) : Prop where
  spaced : Spaced done.reverse cs
  spelled : ∀ t ∈ done, t.Spelled

variable {done : List Token} {cs : List Char} {c : Char}

theorem Whole.blank (h : Whole done cs) (hc : c ∈ blanks) : Whole done (cs ++ [c]) := by
  have hspaced := h.spaced.append (.blank hc .nil)
  rw [List.append_nil] at hspaced
  exact ⟨hspaced, h.spelled⟩

theorem Whole.token (h : Whole done cs) {t : Token} (ht : t.Spelled) :
    Whole (t :: done) (cs ++ t.text.toList) := by
  have hspaced := h.spaced.append (.token t .nil)
  rw [List.append_nil, ← List.reverse_cons] at hspaced
  exact ⟨hspaced, List.forall_mem_cons.2 ⟨ht, h.spelled⟩⟩

/-- What stands in front of the characters that the lexer keeps of a token. -/
def opening : Phase → List Char
  | .inString _ => ['"']
  | .idle | .inNumber _ | .inWord => []

/-- The part of one token that the lexer has read: none while it is idle, otherwise what it
keeps, behind the quote of a string. -/
inductive Begun : Phase → List Char → List Char → Prop
  | none : Begun .idle [] []
  | some {phase : Phase} {pending part : List Char} {first : Char} (hphase : phase ≠ .idle)
    (htext : first :: part = opening phase ++ pending.reverse)
    (hread : ∀ done, run ⟨done, [], .idle⟩ (first :: part) = some ⟨done, pending, phase⟩)
    (hfirst : isBlank first = false ∧ closes first = false) : Begun phase pending (first :: part)

/-- The lexer stands behind a text: it writes the finished tokens, and the part of one token. -/
inductive Reached : Lexer → List Char → Prop
  | intro {done : List Token} {before part pending : List Char} {phase : Phase}
    (hbefore : Whole done before) (hpart : Begun phase pending part) :
    Reached ⟨done, pending, phase⟩ (before ++ part)

theorem Whole.reached (h : Whole done cs) : Reached ⟨done, [], .idle⟩ cs := by
  have hreached := Reached.intro h .none
  rwa [List.append_nil] at hreached

/-- The text may end behind the token that has begun. -/
theorem Reached.finish {l : Lexer} (h : l.Reached cs) (hfinish : l.finish? = some done) :
    Whole done cs := by
  obtain @⟨_, before, _, pending, phase, hbefore, hpart⟩ := h
  -- the token under way, if there is one, is a whole number or one of the three words
  cases hpart with
  | none =>
    obtain rfl := Option.some.inj hfinish
    rwa [List.append_nil]
  | @some _ _ part first hphase htext hread hfirst =>
    cases phase with
    | idle => exact absurd rfl hphase
    | inString state => cases hfinish
    | inNumber state =>
      simp only [finish?] at hfinish
      split at hfinish
      · rename_i hcomplete
        obtain rfl := Option.some.inj hfinish
        have hnumber : (Token.number (String.ofList pending.reverse)).text.toList =
            first :: part := by
          rw [htext]
          simp [Token.text, opening]
        have hspelled : (Token.number (String.ofList pending.reverse)).Spelled := by
          refine ⟨fun done => ⟨_, hnumber ▸ hread done, ?_⟩, first, part, hnumber, hfirst⟩
          simp only [finish?, if_pos hcomplete]
        rw [← hnumber]
        exact hbefore.token hspelled
      · cases hfinish
    | inWord =>
      obtain ⟨t, ht, rfl⟩ := Option.map_eq_some_iff.1 hfinish
      obtain ⟨hword, hspelled⟩ := spelled_of_wordToken? ht
      have hpart : first :: part = t.text.toList := by rw [htext, hword]; rfl
      rw [hpart]
      exact hbefore.token hspelled

/-- A token begins. -/
theorem Whole.begin (h : Whole done cs) {phase : Phase} {pending : List Char}
    (hphase : phase ≠ .idle) (htext : [c] = opening phase ++ pending.reverse)
    (hread : ∀ done, stepIdle done c = some ⟨done, pending, phase⟩)
    (hfirst : isBlank c = false ∧ closes c = false) :
    Reached ⟨done, pending, phase⟩ (cs ++ [c]) := by
  refine .intro h (.some hphase htext (fun done => ?_) hfirst)
  rw [run, step, hread]
  rfl

/-- What may stand between two tokens: a blank, a token of one character or the first character
of a longer one. -/
theorem stepIdle_cases {next : Lexer} (h : stepIdle done c = some next) :
    c ∈ blanks ∨ (∃ t : Token, t.isPunctuation = true ∧ t.text.toList = [c] ∧
        ∀ done, stepIdle done c = some (emit done t)) ∨ c = '"' ∨
      (isBlank c = false ∧ closes c = false) ∧ ∃ phase, opening phase = [] ∧ phase ≠ .idle ∧
        ∀ done, stepIdle done c = some ⟨done, [c], phase⟩ := by
  -- one case for each branch: blank, punctuation, quote, the starts of a number, a letter, and
  -- nothing else
  fun_cases stepIdle done c with
  | case1 hc => exact .inl (mem_blanks.2 hc)
  | case2 => subst c; exact .inr (.inl ⟨.openBrace, rfl, rfl, fun _ => rfl⟩)
  | case3 => subst c; exact .inr (.inl ⟨.closeBrace, rfl, rfl, fun _ => rfl⟩)
  | case4 => subst c; exact .inr (.inl ⟨.openBracket, rfl, rfl, fun _ => rfl⟩)
  | case5 => subst c; exact .inr (.inl ⟨.closeBracket, rfl, rfl, fun _ => rfl⟩)
  | case6 => subst c; exact .inr (.inl ⟨.comma, rfl, rfl, fun _ => rfl⟩)
  | case7 => subst c; exact .inr (.inl ⟨.colon, rfl, rfl, fun _ => rfl⟩)
  | case8 _ _ _ _ _ _ _ hc => exact .inr (.inr (.inl hc))
  | case9 =>
    subst c
    exact .inr (.inr (.inr ⟨by decide, .inNumber .sign, rfl, by simp, fun _ => rfl⟩))
  | case10 =>
    subst c
    exact .inr (.inr (.inr ⟨by decide, .inNumber .zero, rfl, by simp, fun _ => rfl⟩))
  | case11 h₁ h₂ h₃ h₄ h₅ h₆ h₇ h₈ h₉ h₁₀ hdigit =>
    refine .inr (.inr (.inr ⟨ink_of_isDigit hdigit, .inNumber .whole, rfl, by simp, ?_⟩))
    intro done
    rw [stepIdle, if_neg h₁, if_neg h₂, if_neg h₃, if_neg h₄, if_neg h₅, if_neg h₆, if_neg h₇,
      if_neg h₈, if_neg h₉, if_neg h₁₀, if_pos hdigit]
  | case12 h₁ h₂ h₃ h₄ h₅ h₆ h₇ h₈ h₉ h₁₀ h₁₁ hletter =>
    refine .inr (.inr (.inr ⟨ink_of_letter hletter, .inWord, rfl, by simp, fun done => ?_⟩))
    rw [stepIdle, if_neg h₁, if_neg h₂, if_neg h₃, if_neg h₄, if_neg h₅, if_neg h₆, if_neg h₇,
      if_neg h₈, if_neg h₉, if_neg h₁₀, if_neg h₁₁, if_pos hletter]
  | case13 h₁ h₂ h₃ h₄ h₅ h₆ h₇ h₈ h₉ h₁₀ h₁₁ h₁₂ =>
    rw [stepIdle, if_neg h₁, if_neg h₂, if_neg h₃, if_neg h₄, if_neg h₅, if_neg h₆, if_neg h₇,
      if_neg h₈, if_neg h₉, if_neg h₁₀, if_neg h₁₁, if_neg h₁₂] at h
    cases h

/-- One more character has been read behind the tokens. -/
theorem Whole.stepIdle {next : Lexer} (h : Whole done cs) (hstep : stepIdle done c = some next) :
    Reached next (cs ++ [c]) := by
  rcases stepIdle_cases hstep with hblank | ⟨t, hpunctuation, htext, hemit⟩ | rfl |
    ⟨hfirst, phase, hopening, hphase, hread⟩
  · obtain rfl := Option.some.inj ((stepIdle_blank hblank done).symm.trans hstep)
    exact (h.blank hblank).reached
  · obtain rfl := Option.some.inj ((hemit done).symm.trans hstep)
    rw [← htext]
    exact (h.token (Token.spelled_of_punctuation hpunctuation)).reached
  · obtain rfl := Option.some.inj hstep
    exact h.begin (by simp) rfl (fun _ => rfl) (by decide)
  · obtain rfl := Option.some.inj ((hread done).symm.trans hstep)
    exact h.begin hphase (by rw [hopening]; rfl) hread hfirst

/-- The token that has begun goes on. -/
theorem Reached.more {pending : List Char} {phase next : Phase}
    (h : Reached ⟨done, pending, phase⟩ cs) (hphase : phase ≠ .idle) (hnext : next ≠ .idle)
    (hopening : opening next = opening phase)
    (hstep : ∀ done, Lexer.step ⟨done, pending, phase⟩ c = some ⟨done, c :: pending, next⟩) :
    Reached ⟨done, c :: pending, next⟩ (cs ++ [c]) := by
  obtain ⟨hbefore, hpart⟩ := h
  cases hpart with
  | none => exact absurd rfl hphase
  | @some _ _ part first _ htext hread hfirst =>
    rw [List.append_assoc]
    refine .intro hbefore (.some hnext ?_ (fun done => ?_) hfirst)
    · rw [hopening, List.reverse_cons, ← List.append_assoc, ← htext]
      rfl
    · change run _ ((first :: part) ++ [c]) = _
      rw [run_append, hread, Option.bind_some, run, hstep]
      rfl

/-- The quote that ends a string. -/
theorem Reached.close {pending : List Char} (h : Reached ⟨done, pending, .inString .plain⟩ cs) :
    Reached (emit done (.string (String.ofList pending.reverse))) (cs ++ ['"']) := by
  obtain ⟨hbefore, hpart⟩ := h
  cases hpart with
  | @some _ _ part first _ htext hread hfirst =>
    have hstring : (Token.string (String.ofList pending.reverse)).text.toList =
        first :: part ++ ['"'] := by
      rw [htext]
      simp [Token.text, opening]
    have hspelled : (Token.string (String.ofList pending.reverse)).Spelled := by
      refine ⟨fun done => ⟨emit done (.string (String.ofList pending.reverse)), ?_, rfl⟩, first, _,
        hstring, hfirst⟩
      rw [hstring, run_append, hread]
      rfl
    rw [List.append_assoc, ← hstring]
    exact (hbefore.token hspelled).reached

/-- A hexadecimal digit neither ends a string nor begins an escape. -/
theorem ne_of_isHexDigit (h : isHexDigit c = true) : c ≠ '"' ∧ c ≠ '\\' := by
  constructor <;> rintro rfl <;> exact absurd h (by decide)

/-- What may stand in a string: its end, or a character that is kept. Only an escape lets a
quote be kept, and only a backslash outside an escape begins one. -/
theorem stepString_cases {pending : List Char} {state : StringState} {next : Lexer}
    (h : stepString done pending c state = some next) :
    (state = .plain ∧ c = '"' ∧ next = emit done (.string (String.ofList pending.reverse))) ∨
      ∃ after, (∀ done, stepString done pending c state =
          some ⟨done, c :: pending, .inString after⟩) ∧
        (c = '"' → state = .escape) ∧ (after = .escape ↔ state ≠ .escape ∧ c = '\\') := by
  -- one case for each branch of the automaton; where it reads nothing there is nothing to show
  fun_cases stepString done pending c state with
  | case1 =>
    subst c
    exact .inl ⟨rfl, rfl, (Option.some.inj h).symm⟩
  | case2 =>
    subst c
    exact .inr ⟨.escape, fun _ => rfl, by simp, by simp⟩
  | case3 hquote hescape hcontrol =>
    rw [stepString, if_neg hquote, if_neg hescape, if_pos hcontrol] at h
    cases h
  | case4 hquote hescape hcontrol =>
    refine .inr ⟨.plain, fun done => ?_, (absurd · hquote), by simp [hescape]⟩
    rw [stepString, if_neg hquote, if_neg hescape, if_neg hcontrol]
  | case5 hu => exact .inr ⟨.hex 3, fun done => if_pos hu, fun _ => rfl, by simp⟩
  | case6 hu hshort =>
    refine .inr ⟨.plain, fun done => ?_, fun _ => rfl, by simp⟩
    rw [stepString, if_neg hu, if_pos hshort]
  | case7 hu hshort =>
    rw [stepString, if_neg hu, if_neg hshort] at h
    cases h
  | case8 hdigit =>
    obtain ⟨hquote, hescape⟩ := ne_of_isHexDigit hdigit
    exact .inr ⟨.plain, fun done => if_pos hdigit, (absurd · hquote), by simp [hescape]⟩
  | case9 hdigit =>
    rw [stepString, if_neg hdigit] at h
    cases h
  | case10 missing hdigit =>
    obtain ⟨hquote, hescape⟩ := ne_of_isHexDigit hdigit
    exact .inr ⟨.hex missing, fun done => if_pos hdigit, (absurd · hquote), by simp [hescape]⟩
  | case11 missing hdigit =>
    rw [stepString, if_neg hdigit] at h
    cases h

/-- A character that a number or a word goes on with is none of those that the reader of a text
with comments looks for. -/
theorem not_mark_of_next? {state after : NumberState} (h : state.next? c = some after) :
    c ≠ '"' ∧ c ≠ '/' ∧ c ≠ ',' := by
  refine ⟨?_, ?_, ?_⟩ <;> rintro rfl <;> cases state <;> cases h

theorem not_mark_of_letter (h : 'a' ≤ c ∧ c ≤ 'z') : c ≠ '"' ∧ c ≠ '/' ∧ c ≠ ',' := by
  refine ⟨?_, ?_, ?_⟩ <;> rintro rfl <;> exact absurd h (by decide)

/-- **What one character does**: it is read as if the text had ended in front of it, a number or
a word goes on, a string goes on, or a string ends. -/
theorem step_cases {l next : Lexer} (h : l.step c = some next) :
    (∃ done, l.finish? = some done ∧ stepIdle done c = some next) ∨
      (l.phase ≠ .idle ∧ opening l.phase = [] ∧ (c ≠ '"' ∧ c ≠ '/' ∧ c ≠ ',') ∧
        ∃ after, after ≠ .idle ∧ opening after = [] ∧
          ∀ done, step ⟨done, l.pending, l.phase⟩ c = some ⟨done, c :: l.pending, after⟩) ∨
      (∃ state after, l.phase = .inString state ∧
        (∀ done, step ⟨done, l.pending, l.phase⟩ c =
          some ⟨done, c :: l.pending, .inString after⟩) ∧
        (c = '"' → state = .escape) ∧ (after = .escape ↔ state ≠ .escape ∧ c = '\\')) ∨
      (l.phase = .inString .plain ∧ c = '"' ∧
        next = emit l.tokens (.string (String.ofList l.pending.reverse))) := by
  obtain ⟨done, pending, phase⟩ := l
  -- a number or a word goes on, or ends in front of the character as at the end of a text
  cases phase with
  | idle => exact .inl ⟨done, rfl, h⟩
  | inString state =>
    rcases stepString_cases h with ⟨rfl, hquote, hnext⟩ | ⟨after, hstep, hkept⟩
    · exact .inr (.inr (.inr ⟨rfl, hquote, hnext⟩))
    · exact .inr (.inr (.inl ⟨state, after, rfl, hstep, hkept⟩))
  | inNumber state =>
    simp only [step] at h
    split at h
    · rename_i after hafter
      exact .inr (.inl ⟨by simp, rfl, not_mark_of_next? hafter, .inNumber after, by simp, rfl,
        fun done => by simp only [step, hafter]⟩)
    · split at h
      · rename_i hcomplete
        exact .inl ⟨_, by simp only [finish?, if_pos hcomplete], h⟩
      · cases h
  | inWord =>
    simp only [step] at h
    split at h
    · rename_i hletter
      exact .inr (.inl ⟨by simp, rfl, not_mark_of_letter hletter, .inWord, by simp, rfl,
        fun done => by simp only [step, if_pos hletter]⟩)
    · split at h
      · rename_i t ht
        exact .inl ⟨_, by simp only [finish?, ht, Option.map_some], h⟩
      · cases h

/-- One more character has been read. -/
theorem Reached.step {l next : Lexer} (h : l.Reached cs) (hstep : l.step c = some next) :
    next.Reached (cs ++ [c]) := by
  rcases step_cases hstep with ⟨done, hfinish, hidle⟩ | ⟨hphase, hopening, -, after, hnext, hafter,
    hmore⟩ | ⟨state, after, hstate, hmore, -⟩ | ⟨hstate, rfl, rfl⟩
  · exact (h.finish hfinish).stepIdle hidle
  · obtain rfl := Option.some.inj ((hmore l.tokens).symm.trans hstep)
    exact h.more hphase hnext (hafter.trans hopening.symm) hmore
  · obtain rfl := Option.some.inj ((hmore l.tokens).symm.trans hstep)
    exact h.more (by simp [hstate]) (by simp) (by rw [hstate]; rfl) hmore
  · obtain ⟨done, pending, phase⟩ := l
    obtain rfl : phase = .inString .plain := hstate
    exact h.close

/-- A text has been read. -/
theorem Reached.run {l last : Lexer} {ds : List Char} (h : l.Reached cs)
    (hrun : l.run ds = some last) : last.Reached (cs ++ ds) := by
  induction ds generalizing l cs with
  | nil =>
    obtain rfl := Option.some.inj hrun
    rwa [List.append_nil]
  | cons c ds ih =>
    rw [Lexer.run] at hrun
    split at hrun
    · rename_i next hstep
      rw [List.append_cons]
      exact ih (h.step hstep) hrun
    · cases hrun

end Lexer

/-- **The lexer reads tokens that are spelled by the rules**, with nothing but blanks before,
between and behind them. -/
theorem spaced_of_lex? {cs : List Char} {ts : List Token} (h : lex? cs = some ts) :
    Spaced ts cs ∧ ∀ t ∈ ts, t.Spelled := by
  rw [lex?] at h
  split at h
  · rename_i l hrun
    obtain ⟨done, hfinish, rfl⟩ := Option.map_eq_some_iff.1 h
    have hstart : Lexer.start.Reached [] := Lexer.Whole.reached ⟨.nil, by simp⟩
    obtain ⟨hspaced, hspelled⟩ := (hstart.run hrun).finish hfinish
    exact ⟨hspaced, fun t ht => hspelled t (List.mem_reverse.1 ht)⟩
  · cases h

end Json
end Strata
