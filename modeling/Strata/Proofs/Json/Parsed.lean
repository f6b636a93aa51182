/-
# A document has the tokens it was read from

What the parser has read it still holds: `Parser.before` gives back the tokens of the open
containers up to the place where the next value belongs, and `Parser.Behind` says for each
expectation how far beyond that place, or short of it, the parser stands.

| expecting | behind |
| --- | --- |
| `value` | all of `before` |
| `firstItem`, `firstKey` | the bracket that opened the container |
| `key`, `colon` | the members with their commas; a key |
| `next` | the latest element or member, without a comma |

One token moves the parser from one row to another (`Parser.Behind.step`). So a list of tokens
that is read as a document consists of the tokens of this document (`tokens_of_ofTokens?`).
-/

import Strata.Json.Parser

namespace Strata
namespace Json

/-! ### Elements and members with their commas -/

/-- The tokens of some elements, a comma behind each of them. -/
def itemsBefore (seen : List Json) : List Token := seen.flatMap fun item => item.tokens ++ [.comma]

/-- The tokens of some members, a comma behind each of them. -/
def membersBefore (seen : List (String × Json)) : List Token :=
  seen.flatMap fun m => .string m.1 :: .colon :: m.2.tokens ++ [.comma]

/-- One more element and its comma stand behind the ones before. -/
theorem itemsBefore_append (seen : List Json) (item : Json) :
    itemsBefore (seen ++ [item]) = itemsBefore seen ++ item.tokens ++ [.comma] := by
  simp [itemsBefore]

/-- One more member and its comma stand behind the ones before. -/
theorem membersBefore_append (seen : List (String × Json)) (m : String × Json) :
    membersBefore (seen ++ [m]) =
      membersBefore seen ++ .string m.1 :: .colon :: m.2.tokens ++ [.comma] := by
  simp [membersBefore]

/-- An element with others behind it is followed by a comma. -/
theorem itemTokens_cons (item : Json) {items : List Json} (h : items ≠ []) :
    itemTokens (item :: items) = item.tokens ++ .comma :: itemTokens items := by
  obtain ⟨next, rest, rfl⟩ := List.exists_cons_of_ne_nil h
  rw [itemTokens]

/-- A member with others behind it is followed by a comma. -/
theorem memberTokens_cons (m : String × Json) {members : List (String × Json)} (h : members ≠ []) :
    memberTokens (m :: members) =
      .string m.1 :: .colon :: m.2.tokens ++ .comma :: memberTokens members := by
  obtain ⟨next, rest, rfl⟩ := List.exists_cons_of_ne_nil h
  rw [memberTokens]

/-- The last element is closed without a comma. -/
theorem itemTokens_append (seen : List Json) (item : Json) :
    itemTokens (seen ++ [item]) = itemsBefore seen ++ item.tokens ++ [.closeBracket] := by
  induction seen with
  | nil => rw [List.nil_append, itemTokens]; rfl
  | cons first seen ih =>
    rw [List.cons_append, itemTokens_cons first (by simp), ih]
    simp [itemsBefore]

/-- The last member is closed without a comma. -/
theorem memberTokens_append (seen : List (String × Json)) (m : String × Json) :
    memberTokens (seen ++ [m]) =
      membersBefore seen ++ .string m.1 :: .colon :: m.2.tokens ++ [.closeBrace] := by
  induction seen with
  | nil => rw [List.nil_append, memberTokens]; rfl
  | cons first seen ih =>
    rw [List.cons_append, memberTokens_cons first (by simp), ih]
    simp [membersBefore]

/-! ### What the parser has read -/

namespace Parser

/-- The tokens of the open containers, up to the place where the next value belongs. -/
def before : List Opened → List Token
  | [] => []
  | .array items :: outer => before outer ++ .openBracket :: itemsBefore items.reverse
  | .object members key :: outer =>
    before outer ++ .openBrace :: membersBefore members.reverse ++ [.string key, .colon]

/-- The parser stands behind a list of tokens. -/
inductive Behind : Parser → List Token → Prop
  | value (opened : List Opened) : Behind (.reading opened .value) (before opened)
  | firstItem (outer : List Opened) :
    Behind (.reading (.array [] :: outer) .firstItem) (before outer ++ [.openBracket])
  | firstKey (outer : List Opened) (last : String) :
    Behind (.reading (.object [] last :: outer) .firstKey) (before outer ++ [.openBrace])
  | key (outer : List Opened) (members : List (String × Json)) (last : String) :
    Behind (.reading (.object members last :: outer) .key)
      (before outer ++ .openBrace :: membersBefore members.reverse)
  | colon (outer : List Opened) (members : List (String × Json)) (key : String) :
    Behind (.reading (.object members key :: outer) .colon)
      (before outer ++ .openBrace :: membersBefore members.reverse ++ [.string key])
  | nextItem (outer : List Opened) (items : List Json) (item : Json) :
    Behind (.reading (.array (item :: items) :: outer) .next)
      (before (.array items :: outer) ++ item.tokens)
  | nextMember (outer : List Opened) (members : List (String × Json)) (key : String)
      (value : Json) :
    Behind (.reading (.object ((key, value) :: members) key :: outer) .next)
      (before (.object members key :: outer) ++ value.tokens)
  | done (json : Json) : Behind (.done json) json.tokens

/-- A finished value stands where a value belongs. -/
theorem behind_deliver (value : Json) (opened : List Opened) :
    Behind (deliver value opened) (before opened ++ value.tokens) := by
  cases opened with
  | nil => exact .done value
  | cons innermost outer =>
    cases innermost with
    | array items => exact .nextItem outer items value
    | object members key => exact .nextMember outer members key value

/-- A token that a value may begin with is read. -/
theorem behind_stepValue {opened : List Opened} {t : Token} {next : Parser}
    (h : stepValue opened t = some next) : Behind next (before opened ++ [t]) := by
  cases t with
  | null => exact Option.some.inj h ▸ behind_deliver .null opened
  | bool b => exact Option.some.inj h ▸ behind_deliver (.bool b) opened
  | number spelling => exact Option.some.inj h ▸ behind_deliver (.number spelling) opened
  | string spelling => exact Option.some.inj h ▸ behind_deliver (.string spelling) opened
  | openBracket => exact Option.some.inj h ▸ .firstItem opened
  | openBrace => exact Option.some.inj h ▸ .firstKey opened ""
  | closeBrace | closeBracket | comma | colon => cases h

/-- The end of an array that holds some elements. -/
theorem behind_closeBracket (outer : List Opened) (items : List Json) (item : Json) :
    Behind (deliver (.array (item :: items).reverse) outer)
      (before (.array items :: outer) ++ item.tokens ++ [.closeBracket]) := by
  have hdeliver := behind_deliver (.array (item :: items).reverse) outer
  rw [tokens, List.reverse_cons, itemTokens_append] at hdeliver
  simpa [before] using hdeliver

/-- The end of an object that holds some members. -/
theorem behind_closeBrace (outer : List Opened) (members : List (String × Json)) (key : String)
    (value : Json) :
    Behind (deliver (.object ((key, value) :: members).reverse) outer)
      (before (.object members key :: outer) ++ value.tokens ++ [.closeBrace]) := by
  have hdeliver := behind_deliver (.object ((key, value) :: members).reverse) outer
  rw [tokens, List.reverse_cons, memberTokens_append] at hdeliver
  simpa [before] using hdeliver

/-- One more token has been read. -/
theorem Behind.step {p next : Parser} {ts : List Token} (h : Behind p ts) {t : Token}
    (hstep : p.step t = some next) : Behind next (ts ++ [t]) := by
  -- one case for each expectation, and in it one for each token that is allowed there
  cases h with
  | value opened => exact behind_stepValue hstep
  | firstItem outer =>
    -- an array may end at once; otherwise its first element begins
    by_cases ht : t = .closeBracket
    · subst ht
      have hclosed := behind_deliver (.array []) outer
      rw [← Option.some.inj hstep]
      simpa [tokens, itemTokens] using hclosed
    · have hvalue : stepValue (.array [] :: outer) t = some next := by
        rw [← hstep]
        cases t <;> first | rfl | exact absurd rfl ht
      exact behind_stepValue hvalue
  | firstKey outer last =>
    cases t with
    | closeBrace =>
      have hclosed := behind_deliver (.object []) outer
      rw [← Option.some.inj hstep]
      simpa [tokens, memberTokens] using hclosed
    | string spelling => exact Option.some.inj hstep ▸ .colon outer [] spelling
    | openBrace | openBracket | closeBracket | comma | colon | null | bool | number => cases hstep
  | key outer members last =>
    cases t with
    | string spelling => exact Option.some.inj hstep ▸ .colon outer members spelling
    | openBrace | closeBrace | openBracket | closeBracket | comma | colon | null | bool | number =>
      cases hstep
  | colon outer members key =>
    cases t with
    | colon =>
      have hvalue := Behind.value (.object members key :: outer)
      rw [← Option.some.inj hstep]
      simpa [before] using hvalue
    | openBrace | closeBrace | openBracket | closeBracket | comma | null | bool | number | string =>
      cases hstep
  | nextItem outer items item =>
    cases t with
    | comma =>
      have hvalue := Behind.value (.array (item :: items) :: outer)
      rw [before, List.reverse_cons, itemsBefore_append] at hvalue
      rw [← Option.some.inj hstep]
      simpa [before] using hvalue
    | closeBracket => exact Option.some.inj hstep ▸ behind_closeBracket outer items item
    | openBrace | closeBrace | openBracket | colon | null | bool | number | string => cases hstep
  | nextMember outer members key value =>
    cases t with
    | comma =>
      have hkey := Behind.key outer ((key, value) :: members) key
      rw [List.reverse_cons, membersBefore_append] at hkey
      rw [← Option.some.inj hstep]
      simpa [before] using hkey
    | closeBrace => exact Option.some.inj hstep ▸ behind_closeBrace outer members key value
    | openBrace | openBracket | closeBracket | colon | null | bool | number | string => cases hstep
  | done json => cases hstep

/-- A list of tokens has been read. -/
theorem Behind.run {p last : Parser} {ts us : List Token} (h : Behind p ts)
    (hrun : p.run us = some last) : Behind last (ts ++ us) := by
  induction us generalizing p ts with
  | nil =>
    obtain rfl := Option.some.inj hrun
    rwa [List.append_nil]
  | cons t us ih =>
    rw [Parser.run] at hrun
    split at hrun
    · rename_i next hstep
      rw [List.append_cons]
      exact ih (h.step hstep) hrun
    · cases hrun

end Parser

/-- **A document has the tokens it was read from.** -/
theorem tokens_of_ofTokens? {ts : List Token} {json : Json} (h : ofTokens? ts = some json) :
    json.tokens = ts := by
  rw [ofTokens?] at h
  split at h
  · rename_i p hrun
    have hbehind := (Parser.Behind.value []).run hrun
    cases p with
    | reading => cases h
    | done result =>
      obtain rfl := Option.some.inj h
      cases hbehind
      rfl
  · cases h

end Json
end Strata
