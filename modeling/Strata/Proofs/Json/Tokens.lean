/-
# Tokens are read from their texts

Tokens that are written one after the other, with blanks before, between and behind them or
with nothing between them, are read again as they were (`lex?_spaced`, `lex?_texts`), when
each of them is spelled as the lexer expects it and no two of them run together:

| token | well spelled |
| --- | --- |
| punctuation, `null`, `true`, `false` | always |
| a string | when its spelling is that of a text (`wellSpelled_escape`) |
| a number | when its spelling is that of an integer (`wellSpelled_integer`) |

The lexer ends a number or a word only when it sees what follows. Behind such a token it is
not idle, but a blank or a delimiter finds it as if it were (`Lexer.step_ends`).
-/

import Strata.Json.Lexer
import Strata.Json.Spelling
import Mathlib.Data.List.Chain
import Mathlib.Tactic.IntervalCases
import Mathlib.Tactic.SplitIfs

namespace Strata
namespace Json

/-! ### Tokens side by side -/

namespace Token

/-- True for a token that opens, closes or divides. -/
def isPunctuation : Token → Bool
  | openBrace | closeBrace | openBracket | closeBracket | comma | colon => true
  | null | bool _ | number _ | string _ => false

/-- True for a token that also ends what stands before it. -/
def isDelimiter : Token → Bool
  | closeBrace | closeBracket | comma | colon => true
  | openBrace | openBracket | null | bool _ | number _ | string _ => false

/-- Two tokens that do not run together when they are written side by side. -/
def Apart (t u : Token) : Prop := t.isPunctuation = true ∨ u.isDelimiter = true

/-- A token that the lexer reads from its text wherever a token may begin. -/
def WellSpelled (t : Token) : Prop :=
  ∀ done, ∃ l, Lexer.run ⟨done, [], .idle⟩ t.text.toList = some l ∧ l.finish? = some (t :: done)

/-- Punctuation is one character and one token. -/
theorem run_punctuation {t : Token} (h : t.isPunctuation = true) (done : List Token) :
    Lexer.run ⟨done, [], .idle⟩ t.text.toList = some ⟨t :: done, [], .idle⟩ := by
  cases t with
  | openBrace | closeBrace | openBracket | closeBracket | comma | colon => rfl
  | null | bool | number | string => cases h

/-- The characters of delimiters. -/
def delimiters : List Char := [',', ':', ']', '}']

/-- A delimiter is punctuation of one character. -/
theorem exists_delimiter {t : Token} (h : t.isDelimiter = true) :
    t.isPunctuation = true ∧ ∃ c ∈ delimiters, t.text.toList = [c] := by
  cases t with
  | closeBrace | closeBracket | comma | colon => exact ⟨rfl, _, by decide, rfl⟩
  | openBrace | openBracket | null | bool | number | string => cases h

/-- Punctuation is always spelled well. -/
theorem wellSpelled_of_punctuation {t : Token} (h : t.isPunctuation = true) : t.WellSpelled :=
  fun done => ⟨_, run_punctuation h done, rfl⟩

/-- The word `null` is read letter by letter. -/
theorem wellSpelled_null : null.WellSpelled := fun _ => ⟨_, rfl, rfl⟩

/-- The words `true` and `false` are read letter by letter. -/
theorem wellSpelled_bool (b : Bool) : (bool b).WellSpelled := by
  cases b <;> exact fun _ => ⟨_, rfl, rfl⟩

end Token

/-! ### Blanks between tokens -/

/-- The blanks that may stand between tokens. -/
def blanks : List Char := [' ', '\t', '\n', '\r']

/-- The four characters that may stand between tokens. -/
theorem mem_blanks {c : Char} : c ∈ blanks ↔ c = ' ' ∨ c = '\t' ∨ c = '\n' ∨ c = '\r' := by
  simp [blanks]

/-- A text that writes some tokens in order, with blanks before, between and behind them. -/
inductive Spaced : List Token → List Char → Prop
  | nil : Spaced [] []
  | blank {ts : List Token} {cs : List Char} {c : Char} (hc : c ∈ blanks) (h : Spaced ts cs) :
    Spaced ts (c :: cs)
  | token (t : Token) {ts : List Token} {cs : List Char} (h : Spaced ts cs) :
    Spaced (t :: ts) (t.text.toList ++ cs)

/-- Two spaced texts, one behind the other. -/
theorem Spaced.append {ts us : List Token} {cs ds : List Char} (h : Spaced ts cs)
    (k : Spaced us ds) : Spaced (ts ++ us) (cs ++ ds) := by
  induction h with
  | nil => exact k
  | blank hc _ ih => exact .blank hc ih
  | token t _ ih =>
    rw [List.cons_append, List.append_assoc]
    exact .token t ih

/-- Nothing at all may stand between tokens. -/
theorem spaced_texts (ts : List Token) : Spaced ts (ts.flatMap fun t => t.text.toList) := by
  induction ts with
  | nil => exact .nil
  | cons t ts ih => exact .token t ih

/-! ### Reading on -/

namespace Lexer

/-- The lexer goes on where it stopped. -/
theorem run_append (l : Lexer) (cs ds : List Char) :
    l.run (cs ++ ds) = (l.run cs).bind fun next => next.run ds := by
  induction cs generalizing l with
  | nil => rfl
  | cons c cs ih =>
    rw [List.cons_append, run, run]
    cases l.step c with
    | none => rfl
    | some next => exact ih next

/-- The character belongs to no token that has begun outside a string. -/
def Ends (c : Char) : Prop := (∀ state : NumberState, state.next? c = none) ∧ ¬ ('a' ≤ c ∧ c ≤ 'z')

/-- A delimiter ends a number and a word. -/
theorem ends_delimiter {c : Char} (hc : c ∈ Token.delimiters) : Ends c := by
  simp only [Token.delimiters, List.mem_cons, List.not_mem_nil, or_false] at hc
  rcases hc with rfl | rfl | rfl | rfl <;> exact ⟨fun state => by cases state <;> rfl, by decide⟩

/-- A blank ends a number and a word. -/
theorem ends_blank {c : Char} (hc : c ∈ blanks) : Ends c := by
  rcases mem_blanks.1 hc with rfl | rfl | rfl | rfl <;>
    exact ⟨fun state => by cases state <;> rfl, by decide⟩

/-- A blank between tokens changes nothing. -/
theorem stepIdle_blank {c : Char} (hc : c ∈ blanks) (done : List Token) :
    stepIdle done c = some ⟨done, [], .idle⟩ :=
  if_pos (mem_blanks.1 hc)

/-- **What ends a token ends what the end of the text would end.** -/
theorem step_ends {l : Lexer} {done : List Token} (h : l.finish? = some done) {c : Char}
    (hc : Ends c) : l.step c = stepIdle done c := by
  obtain ⟨tokens, pending, phase⟩ := l
  cases phase with
  | idle => exact congrArg (stepIdle · c) (Option.some.inj h)
  | inString state => cases h
  | inNumber state =>
    simp only [finish?] at h
    simp only [step, hc.1]
    split at h
    · rename_i hcomplete
      rw [if_pos hcomplete, Option.some.inj h]
    · cases h
  | inWord =>
    simp only [finish?] at h
    obtain ⟨t, ht, rfl⟩ := Option.map_eq_some_iff.1 h
    simp only [step, if_neg hc.2, ht]

/-- The lexer stands behind some tokens, the latest first: a text that ends here consists of
them. Unless the latest one may still go on, the lexer is idle. -/
structure Behind (l : Lexer) (done : List Token) : Prop where
  finish : l.finish? = some done
  idle : (∀ t ∈ done.head?, t.isPunctuation = true) → l = ⟨done, [], .idle⟩

/-- In the beginning the lexer is behind no token. -/
theorem behind_start : start.Behind [] := ⟨rfl, fun _ => rfl⟩

variable {l : Lexer} {done : List Token}

/-- The lexer reads one more token. -/
theorem Behind.token (h : l.Behind done) {t : Token} (ht : t.WellSpelled)
    (hapart : ∀ u ∈ done.head?, u.Apart t) :
    ∃ next, l.run t.text.toList = some next ∧ next.Behind (t :: done) := by
  by_cases hlatest : ∀ u ∈ done.head?, u.isPunctuation = true
  · obtain rfl := h.idle hlatest
    obtain ⟨next, hrun, hfinish⟩ := ht done
    refine ⟨next, hrun, hfinish, fun hhead => ?_⟩
    exact Option.some.inj (hrun.symm.trans (Token.run_punctuation (hhead t rfl) done))
  · -- the latest token may still go on, so a delimiter has to follow
    simp only [not_forall] at hlatest
    obtain ⟨u, hu, hscalar⟩ := hlatest
    obtain ⟨hpunctuation, c, hc, htext⟩ :=
      Token.exists_delimiter ((hapart u hu).resolve_left hscalar)
    have hrun : l.run t.text.toList = Lexer.run ⟨done, [], .idle⟩ t.text.toList := by
      rw [htext, run, run, step_ends h.finish (ends_delimiter hc)]
      rfl
    exact ⟨_, hrun.trans (Token.run_punctuation hpunctuation done), rfl, fun _ => rfl⟩

/-- The lexer reads one more blank. -/
theorem Behind.blank (h : l.Behind done) {c : Char} (hc : c ∈ blanks) :
    ∃ next, l.step c = some next ∧ next.Behind done :=
  ⟨_, (step_ends h.finish (ends_blank hc)).trans (stepIdle_blank hc done), rfl, fun _ => rfl⟩

/-- The lexer reads a list of tokens with blanks between them. -/
theorem Behind.spaced (h : l.Behind done) {ts : List Token} {cs : List Char} (hcs : Spaced ts cs)
    (hspelled : ∀ t ∈ ts, t.WellSpelled) (hfirst : ∀ u ∈ done.head?, ∀ t ∈ ts.head?, u.Apart t)
    (hapart : ts.IsChain Token.Apart) :
    ∃ next, l.run cs = some next ∧ next.Behind (ts.reverse ++ done) := by
  induction hcs generalizing l done with
  | nil => exact ⟨l, rfl, h⟩
  | blank hc _ ih =>
    obtain ⟨next, hstep, hnext⟩ := h.blank hc
    rw [run, hstep]
    exact ih hnext hspelled hfirst hapart
  | @token t ts cs _ ih =>
    obtain ⟨ht, hts⟩ := List.forall_mem_cons.1 hspelled
    obtain ⟨hsecond, htail⟩ := List.isChain_cons.1 hapart
    obtain ⟨next, hrun, hnext⟩ := h.token ht fun u hu => hfirst u hu t rfl
    obtain ⟨last, hlast, hbehind⟩ := ih hnext hts (by rintro _ ⟨⟩; exact hsecond) htail
    refine ⟨last, ?_, by simpa using hbehind⟩
    rw [run_append, hrun]
    exact hlast

end Lexer

/-- **Tokens are read with blanks between them**, when they are well spelled and stand
apart. -/
theorem lex?_spaced {ts : List Token} {cs : List Char} (hcs : Spaced ts cs)
    (hspelled : ∀ t ∈ ts, t.WellSpelled) (hapart : ts.IsChain Token.Apart) : lex? cs = some ts := by
  obtain ⟨l, hrun, hbehind⟩ :=
    Lexer.behind_start.spaced hcs hspelled (by rintro _ ⟨⟩) hapart
  rw [lex?, hrun]
  simp only [hbehind.finish, Option.map_some, List.append_nil, List.reverse_reverse]

/-- **Tokens are read from their texts**, when they are well spelled and stand apart. -/
theorem lex?_texts {ts : List Token} (hspelled : ∀ t ∈ ts, t.WellSpelled)
    (hapart : ts.IsChain Token.Apart) : lex? (ts.flatMap fun t => t.text.toList) = some ts :=
  lex?_spaced (spaced_texts ts) hspelled hapart

/-! ### Strings -/

/-- One character as it is escaped keeps the lexer in the string. -/
theorem run_escapeChar (done : List Token) (pending : List Char) (c : Char) :
    Lexer.run ⟨done, pending, .inString .plain⟩ (escapeChar c) =
      some ⟨done, (escapeChar c).reverse ++ pending, .inString .plain⟩ := by
  unfold escapeChar
  split
  · rename_i h
    rcases h with rfl | rfl <;> rfl
  · rename_i hplain
    split_ifs with hb hf hn hr ht hcode
    · rfl
    · rfl
    · rfl
    · rfl
    · rfl
    · have hzero : isHexDigit '0' = true := rfl
      have hdigits : ∀ n : Fin 0x20, isHexDigit (Nat.digitChar (n / 16 % 16)) = true ∧
          isHexDigit (Nat.digitChar (n % 16)) = true := by
        decide
      obtain ⟨hhigh, hlow⟩ := hdigits ⟨c.toNat, hcode⟩
      simp [escapeCode, Lexer.run, Lexer.step, Lexer.stepString, hzero, hhigh, hlow]
    · rw [not_or] at hplain
      simp [Lexer.run, Lexer.step, Lexer.stepString, hplain, hcode]

/-- What is escaped is read as a part of the string: no quote among it ends the string. -/
theorem run_escape (done : List Token) (cs pending : List Char) :
    Lexer.run ⟨done, pending, .inString .plain⟩ (cs.flatMap escapeChar) =
      some ⟨done, (cs.flatMap escapeChar).reverse ++ pending, .inString .plain⟩ := by
  induction cs generalizing pending with
  | nil => rfl
  | cons c cs ih =>
    rw [List.flatMap_cons, Lexer.run_append, run_escapeChar, Option.bind_some, ih,
      List.reverse_append, List.append_assoc]

/-- **A text is spelled as a string.** -/
theorem wellSpelled_escape (s : String) : (Token.string (escape s)).WellSpelled := by
  intro done
  have htext : (Token.string (escape s)).text.toList =
      '"' :: (s.toList.flatMap escapeChar ++ ['"']) := by
    simp [Token.text, escape]
  have hopen : Lexer.run ⟨done, [], .idle⟩ ('"' :: (s.toList.flatMap escapeChar ++ ['"'])) =
      Lexer.run ⟨done, [], .inString .plain⟩ (s.toList.flatMap escapeChar ++ ['"']) := rfl
  refine ⟨⟨.string (escape s) :: done, [], .idle⟩, ?_, rfl⟩
  rw [htext, hopen, Lexer.run_append, run_escape]
  simp [Lexer.run, Lexer.step, Lexer.stepString, Lexer.emit, escape]

/-! ### Numbers -/

/-- A digit is written as a digit. -/
theorem isDigit_digitChar {d : Nat} (h : d < 10) : isDigit (Nat.digitChar d) = true := by
  have hall : ∀ d : Fin 10, isDigit (Nat.digitChar d) = true := by decide
  exact hall ⟨d, h⟩

/-- Where the first digit of a positive number may stand, all its digits may. -/
theorem run_toDigits {done : List Token} {pending : List Char} {phase : Phase}
    (hfirst : ∀ d, 0 < d → d < 10 → Lexer.step ⟨done, pending, phase⟩ (Nat.digitChar d) =
      some ⟨done, Nat.digitChar d :: pending, .inNumber .whole⟩) {n : Nat} (hn : 0 < n) :
    Lexer.run ⟨done, pending, phase⟩ (Nat.toDigits 10 n) =
      some ⟨done, (Nat.toDigits 10 n).reverse ++ pending, .inNumber .whole⟩ := by
  induction n using Nat.strongRecOn with
  | ind n ih =>
    by_cases hsmall : n < 10
    · rw [Nat.toDigits_of_lt_base hsmall, Lexer.run, hfirst n hn hsmall]
      rfl
    · have hdigit : isDigit (Nat.digitChar (n % 10)) = true :=
        isDigit_digitChar (Nat.mod_lt n (by decide))
      rw [Nat.toDigits_of_base_le (by decide) (Nat.le_of_not_lt hsmall), Lexer.run_append,
        ih (n / 10) (by omega) (by omega)]
      simp [Lexer.run, Lexer.step, NumberState.next?, hdigit]

/-- A natural number is written by its digits. -/
theorem ofList_toDigits (n : Nat) : String.ofList (Nat.toDigits 10 n) = n.repr := by
  rw [← Nat.toList_repr, String.ofList_toList]

/-- A number below zero is written with a minus in front. -/
theorem toList_negSucc (n : Nat) :
    (toString (Int.negSucc n)).toList = '-' :: Nat.toDigits 10 (n + 1) := by
  have hspelling : toString (Int.negSucc n) = "-" ++ toString (n + 1) := rfl
  rw [hspelling, String.toList_append]
  exact congrArg ('-' :: ·) Nat.toList_repr

/-- **A natural number is spelled in digits.** -/
theorem wellSpelled_natural (n : Nat) : (Token.number (toString n)).WellSpelled := by
  intro done
  rcases Nat.eq_zero_or_pos n with rfl | hn
  · exact ⟨_, rfl, rfl⟩
  · have hfirst : ∀ d, 0 < d → d < 10 → Lexer.step ⟨done, [], .idle⟩ (Nat.digitChar d) =
        some ⟨done, [Nat.digitChar d], .inNumber .whole⟩ := by
      intro d hd hlt
      interval_cases d <;> rfl
    have htext : (Token.number (toString n)).text.toList = Nat.toDigits 10 n := Nat.toList_repr
    refine ⟨_, (congrArg (Lexer.run _) htext).trans (run_toDigits hfirst hn), ?_⟩
    simp [Lexer.finish?, NumberState.isComplete, ofList_toDigits]

/-- **An integer is spelled in digits**, behind a sign when it is negative. -/
theorem wellSpelled_integer (n : Int) : (Token.number (toString n)).WellSpelled := by
  intro done
  cases n with
  | ofNat n => exact wellSpelled_natural n done
  | negSucc n =>
    have hfirst : ∀ d, 0 < d → d < 10 →
        Lexer.step ⟨done, ['-'], .inNumber .sign⟩ (Nat.digitChar d) =
          some ⟨done, [Nat.digitChar d, '-'], .inNumber .whole⟩ := by
      intro d hd hlt
      interval_cases d <;> rfl
    have hspelling : String.ofList ('-' :: Nat.toDigits 10 (n + 1)) = toString (Int.negSucc n) := by
      rw [← toList_negSucc, String.ofList_toList]
    refine ⟨_, (congrArg (Lexer.run _) (toList_negSucc n)).trans
      (run_toDigits hfirst n.succ_pos), ?_⟩
    simp [Lexer.finish?, NumberState.isComplete, hspelling]

end Json
end Strata
