/-
# Documents with comments and trailing commas are read as they are meant

Specification, section 4.3: JSON with comments, where comments and trailing commas are
stripped.

A document may be written with comments wherever a blank may stand (`Commented`), and with one
more comma behind the last element or member of a container (`Loose`). Made strict, such a text
writes exactly the tokens of the document, and a text that is a JSON text already stays as it is
(`strict_recovers`).

| step | before | behind | shown by |
| --- | --- | --- | --- |
| `dropComments` | comments and blanks | blanks | `Commented.dropComments` |
| `dropTrailingCommas` | loose tokens | tight ones | `Spaced.dropTrailingCommas` |
| `lex?`, `ofTokens?` | the tokens | the document | `lex?_spaced`, `ofTokens?_tokens` |

Which commas are trailing is decided on tokens: a comma that a closer follows (`dropCommas`). In
the tokens of a document there is none, so of a loose list of them just the additional commas
are dropped (`Loose.tightens`).
-/

import Strata.Proofs.Json.Compact
import Strata.Proofs.Json.Parsed
import Strata.Proofs.Json.Regions

namespace Strata
namespace Json

/-! ### Texts with comments -/

/-- A text that writes some tokens in order, with blanks and comments before, between and behind
them. A line comment ends with its line or with the text, a block comment with the first star
that a slash follows. -/
inductive Commented : List Token → List Char → Prop
  | nil : Commented [] []
  | blank {ts : List Token} {cs : List Char} {c : Char} (hc : c ∈ blanks) (h : Commented ts cs) :
    Commented ts (c :: cs)
  | lineComment {ts : List Token} {cs : List Char} (text : List Char) (htext : '\n' ∉ text)
    (h : Commented ts cs) : Commented ts ('/' :: '/' :: (text ++ '\n' :: cs))
  | lastLine (text : List Char) (htext : '\n' ∉ text) : Commented [] ('/' :: '/' :: text)
  | blockComment {ts : List Token} {cs : List Char} (text : List Char)
    (htext : ¬ ['*', '/'] <:+: text) (h : Commented ts cs) :
    Commented ts ('/' :: '*' :: (text ++ '*' :: '/' :: cs))
  | token (t : Token) {ts : List Token} {cs : List Char} (h : Commented ts cs) :
    Commented (t :: ts) (t.text.toList ++ cs)

/-- A line comment is dropped up to its line feed, which stays. -/
theorem dropComments_line {text : List Char} (h : '\n' ∉ text) (cs : List Char) :
    dropComments .lineComment (text ++ '\n' :: cs) = '\n' :: dropComments .code cs := by
  induction text with
  | nil => simp [dropComments]
  | cons c text ih =>
    rw [List.mem_cons, not_or] at h
    rw [List.cons_append, dropComments, if_neg (Ne.symm h.1), ih h.2]

/-- A line comment may end with the text. -/
theorem dropComments_lastLine {text : List Char} (h : '\n' ∉ text) :
    dropComments .lineComment text = [] := by
  induction text with
  | nil => rw [dropComments]
  | cons c text ih =>
    rw [List.mem_cons, not_or] at h
    rw [dropComments, if_neg (Ne.symm h.1), ih h.2]

/-- A block comment is dropped, when the slash behind a star in front of it does not end it. -/
theorem dropComments_block {star : Bool} {text : List Char} (h : ¬ ['*', '/'] <:+: text)
    (hstar : star = true → text.head? ≠ some '/') (cs : List Char) :
    dropComments (.blockComment star) (text ++ '*' :: '/' :: cs) = dropComments .code cs := by
  induction text generalizing star with
  | nil => simp [dropComments]
  | cons c text ih =>
    have hopen : ¬ (star = true ∧ c = '/') := by
      rintro ⟨hs, rfl⟩
      exact hstar hs rfl
    have hrest : ¬ ['*', '/'] <:+: text := fun hend =>
      h (hend.trans (List.suffix_cons c text).isInfix)
    have hnext : (c == '*') = true → text.head? ≠ some '/' := by
      intro hc hslash
      obtain ⟨rest, rfl⟩ := List.head?_eq_some_iff.1 hslash
      rw [beq_iff_eq] at hc
      exact h (hc ▸ (List.prefix_append ['*', '/'] rest).isInfix)
    rw [List.cons_append, dropComments, if_neg hopen]
    exact ih hrest hnext

/-- **Without its comments**, a text writes the same tokens with blanks between them. -/
theorem Commented.dropComments {ts : List Token} {cs : List Char} (h : Commented ts cs)
    (hspelled : ∀ t ∈ ts, t.WellSpelled) : Spaced ts (Json.dropComments .code cs) := by
  induction h with
  | nil =>
    rw [Json.dropComments]
    exact .nil
  | blank hc _ ih =>
    rw [dropComments_blank hc]
    exact .blank hc (ih hspelled)
  | lineComment text htext _ ih =>
    rw [Json.dropComments, dropComments_line htext]
    exact .blank (by decide) (ih hspelled)
  | lastLine text htext =>
    rw [Json.dropComments, dropComments_lastLine htext]
    exact .nil
  | blockComment text htext _ ih =>
    rw [Json.dropComments, dropComments_block htext (by simp)]
    exact ih hspelled
  | token t _ ih =>
    obtain ⟨ht, hts⟩ := List.forall_mem_cons.1 hspelled
    rw [dropComments_token ht]
    exact .token t (ih hts)

/-! ### Trailing commas -/

/-- True when the first of some tokens closes a container. -/
def closesFirst (ts : List Token) : Bool := ts.head?.any Token.isCloser

/-- The tokens without each comma that a closer follows. -/
def dropCommas : List Token → List Token
  | [] => []
  | t :: ts => if t = .comma ∧ closesFirst ts = true then dropCommas ts else t :: dropCommas ts

/-- Dropping commas adds no token and moves none. -/
theorem dropCommas_sublist (ts : List Token) : (dropCommas ts).Sublist ts := by
  induction ts with
  | nil => exact .slnil
  | cons t ts ih =>
    rw [dropCommas]
    split
    · exact ih.cons t
    · exact ih.cons_cons t

/-- Only commas are dropped. -/
theorem mem_dropCommas {t : Token} {ts : List Token} (h : t ∈ ts) (ht : t ≠ .comma) :
    t ∈ dropCommas ts := by
  induction ts with
  | nil => cases h
  | cons u ts ih =>
    rw [dropCommas]
    rcases List.mem_cons.1 h with rfl | h
    · rw [if_neg fun hcomma => ht hcomma.1]
      exact List.mem_cons_self
    · split
      · exact ih h
      · exact List.mem_cons_of_mem u (ih h)

/-- The next character that is no blank tells whether the next token is a closer. -/
theorem Spaced.closesNext {ts : List Token} {cs : List Char} (h : Spaced ts cs)
    (hspelled : ∀ t ∈ ts, t.Spelled) : Json.closesNext cs = closesFirst ts := by
  induction h with
  | nil => rfl
  | blank hc _ ih =>
    rw [← ih hspelled, Json.closesNext, Json.closesNext,
      List.dropWhile_cons_of_pos (isBlank_of_mem_blanks hc)]
  | token t _ _ =>
    obtain ⟨c, rest, htext, hblank, hcloser⟩ := (hspelled t List.mem_cons_self).first
    rw [htext, Json.closesNext, List.cons_append, List.dropWhile_cons_of_neg (by simp [hblank])]
    exact hcloser

/-- A comma in code is dropped exactly when the next character that is no blank closes a
container. -/
theorem dropTrailingCommas_comma (cs : List Char) :
    dropTrailingCommas .code (',' :: cs) =
      if closesNext cs = true then dropTrailingCommas .code cs
      else ',' :: dropTrailingCommas .code cs := by
  rw [dropTrailingCommas] <;> simp

/-- **Without its trailing commas**, a text writes the tokens that are left. -/
theorem Spaced.dropTrailingCommas {ts : List Token} {cs : List Char} (h : Spaced ts cs)
    (hspelled : ∀ t ∈ ts, t.Spelled) :
    Spaced (dropCommas ts) (Json.dropTrailingCommas .code cs) := by
  induction h with
  | nil =>
    rw [Json.dropTrailingCommas]
    exact .nil
  | blank hc _ ih =>
    rw [dropTrailingCommas_blank hc]
    exact .blank hc (ih hspelled)
  | @token t ts cs hcs ih =>
    obtain ⟨ht, hts⟩ := List.forall_mem_cons.1 hspelled
    by_cases hcomma : t = .comma
    · subst hcomma
      change Spaced _ (Json.dropTrailingCommas .code (',' :: cs))
      rw [dropTrailingCommas_comma, hcs.closesNext hts, dropCommas]
      by_cases hcloses : closesFirst ts = true
      · rw [if_pos hcloses, if_pos ⟨rfl, hcloses⟩]
        exact ih hts
      · rw [if_neg hcloses, if_neg fun h => hcloses h.2]
        exact .token .comma (ih hts)
    · rw [dropTrailingCommas_token ht.read hcomma, dropCommas, if_neg fun h => hcomma h.1]
      exact .token t (ih hts)

/-- A text stays as it is when its tokens do. -/
theorem Spaced.dropTrailingCommas_eq_self {ts : List Token} {cs : List Char} (h : Spaced ts cs)
    (hspelled : ∀ t ∈ ts, t.Spelled) (htight : dropCommas ts = ts) :
    Json.dropTrailingCommas .code cs = cs := by
  induction h with
  | nil => rw [Json.dropTrailingCommas]
  | blank hc _ ih => rw [dropTrailingCommas_blank hc, ih hspelled htight]
  | @token t ts cs hcs ih =>
    obtain ⟨ht, hts⟩ := List.forall_mem_cons.1 hspelled
    rw [dropCommas] at htight
    split at htight
    · -- a comma that is dropped leaves fewer tokens
      have hlength := (dropCommas_sublist ts).length_le
      rw [htight, List.length_cons] at hlength
      omega
    · rename_i hkept
      have hrest := ih hts (List.cons.inj htight).2
      by_cases hcomma : t = .comma
      · subst hcomma
        change Json.dropTrailingCommas .code (',' :: cs) = ',' :: cs
        rw [dropTrailingCommas_comma, hcs.closesNext hts, if_neg fun h => hkept ⟨rfl, h⟩, hrest]
      · rw [dropTrailingCommas_token ht.read hcomma, hrest]

/-! ### Loose documents -/

mutual

/-- The tokens of a document, with or without one more comma behind the last element or member
of each container that is not empty. -/
inductive Loose : Json → List Token → Prop
  | null : Loose null [.null]
  | bool (b : Bool) : Loose (bool b) [.bool b]
  | number (spelling : String) : Loose (number spelling) [.number spelling]
  | string (spelling : String) : Loose (string spelling) [.string spelling]
  | array {items : List Json} {ts : List Token} (h : LooseItems items ts) :
    Loose (array items) (.openBracket :: ts)
  | object {members : List (String × Json)} {ts : List Token} (h : LooseMembers members ts) :
    Loose (object members) (.openBrace :: ts)

/-- The tokens of the elements of an array, up to its end. -/
inductive LooseItems : List Json → List Token → Prop
  | nil : LooseItems [] [.closeBracket]
  | last {item : Json} {ts : List Token} (h : Loose item ts) :
    LooseItems [item] (ts ++ [.closeBracket])
  | trailing {item : Json} {ts : List Token} (h : Loose item ts) :
    LooseItems [item] (ts ++ [.comma, .closeBracket])
  | cons {item next : Json} {rest : List Json} {ts us : List Token} (h : Loose item ts)
    (k : LooseItems (next :: rest) us) : LooseItems (item :: next :: rest) (ts ++ .comma :: us)

/-- The tokens of the members of an object, up to its end. -/
inductive LooseMembers : List (String × Json) → List Token → Prop
  | nil : LooseMembers [] [.closeBrace]
  | last {key : String} {value : Json} {ts : List Token} (h : Loose value ts) :
    LooseMembers [(key, value)] (.string key :: .colon :: ts ++ [.closeBrace])
  | trailing {key : String} {value : Json} {ts : List Token} (h : Loose value ts) :
    LooseMembers [(key, value)] (.string key :: .colon :: ts ++ [.comma, .closeBrace])
  | cons {key : String} {value : Json} {next : String × Json} {rest : List (String × Json)}
    {ts us : List Token} (h : Loose value ts) (k : LooseMembers (next :: rest) us) :
    LooseMembers ((key, value) :: next :: rest) (.string key :: .colon :: ts ++ .comma :: us)

end

/-- No document begins with a closer. -/
theorem Loose.closesFirst {json : Json} {ts : List Token} (h : Loose json ts) (us : List Token) :
    Json.closesFirst (ts ++ us) = false := by
  cases h <;> rfl

/-- No first element begins with a closer. -/
theorem LooseItems.closesFirst {item : Json} {items : List Json} {ts : List Token}
    (h : LooseItems (item :: items) ts) (us : List Token) :
    Json.closesFirst (ts ++ us) = false := by
  cases h with
  | last h | trailing h | cons h =>
    rw [List.append_assoc]
    exact h.closesFirst _

/-- No first member begins with a closer. -/
theorem LooseMembers.closesFirst {m : String × Json} {members : List (String × Json)}
    {ts : List Token} (h : LooseMembers (m :: members) ts) (us : List Token) :
    Json.closesFirst (ts ++ us) = false := by
  cases h <;> rfl

/-- Without trailing commas some tokens are others, whatever follows them. -/
def Tightens (us ts : List Token) : Prop :=
  ∀ rest, dropCommas (us ++ rest) = ts ++ dropCommas rest

section

variable {t : Token} {ts us vs ws : List Token}

/-- Every token but a comma stays. -/
theorem tightens_singleton (h : t ≠ .comma) : Tightens [t] [t] := by
  intro rest
  rw [List.singleton_append, dropCommas, if_neg fun hcomma => h hcomma.1]
  rfl

/-- Runs of tokens are tightened one after the other. -/
theorem Tightens.append (h : Tightens us ts) (k : Tightens vs ws) :
    Tightens (us ++ vs) (ts ++ ws) := by
  intro rest
  rw [List.append_assoc, h, k, List.append_assoc]

/-- A token that is no comma may stand in front. -/
theorem Tightens.cons (h : t ≠ .comma) (k : Tightens us ts) : Tightens (t :: us) (t :: ts) :=
  (tightens_singleton h).append k

/-- A trailing comma is dropped. -/
theorem tightens_trailing (h : t.isCloser = true) : Tightens [.comma, t] [t] := by
  intro rest
  have hclosed : t ≠ .comma := by
    rintro rfl
    cases h
  have hcloses : closesFirst (t :: rest) = true := h
  change dropCommas (.comma :: t :: rest) = _
  rw [dropCommas, if_pos ⟨rfl, hcloses⟩]
  exact tightens_singleton hclosed rest

/-- A comma between two elements or members is kept. -/
theorem Tightens.comma (h : Tightens us ts) (hfirst : ∀ rest, closesFirst (us ++ rest) = false) :
    Tightens (.comma :: us) (.comma :: ts) := by
  intro rest
  have hkept : ¬ (Token.comma = .comma ∧ closesFirst (us ++ rest) = true) := by simp [hfirst rest]
  rw [List.cons_append, dropCommas, if_neg hkept, h]
  rfl

end

/-- **Just the additional commas are dropped.** -/
theorem Loose.tightens {json : Json} {us : List Token} (h : Loose json us) :
    Tightens us json.tokens := by
  refine Loose.rec (motive_1 := fun json us _ => Tightens us json.tokens)
    (motive_2 := fun items us _ => Tightens us (itemTokens items))
    (motive_3 := fun members us _ => Tightens us (memberTokens members))
    ?null ?bool ?number ?string ?array ?object ?noItem ?lastItem ?trailingItem ?items
    ?noMember ?lastMember ?trailingMember ?members h
  case null => exact tightens_singleton (by simp)
  case bool => exact fun b => tightens_singleton (by simp)
  case number => exact fun spelling => tightens_singleton (by simp)
  case string => exact fun spelling => tightens_singleton (by simp)
  case array => exact fun _ hitems => hitems.cons (by simp)
  case object => exact fun _ hmembers => hmembers.cons (by simp)
  case noItem => exact tightens_singleton (by simp)
  case lastItem => exact fun _ hitem => hitem.append (tightens_singleton (by simp))
  case trailingItem => exact fun _ hitem => hitem.append (tightens_trailing rfl)
  case items => exact fun _ hrest hitem hitems => hitem.append (hitems.comma hrest.closesFirst)
  case noMember => exact tightens_singleton (by simp)
  case lastMember =>
    exact fun _ hvalue =>
      ((hvalue.cons (by simp)).cons (by simp)).append (tightens_singleton (by simp))
  case trailingMember =>
    exact fun _ hvalue => ((hvalue.cons (by simp)).cons (by simp)).append (tightens_trailing rfl)
  case members =>
    exact fun _ hrest hvalue hmembers =>
      ((hvalue.cons (by simp)).cons (by simp)).append (hmembers.comma hrest.closesFirst)

/-- The tokens of a document are loose, with no comma more. -/
theorem loose_tokens (json : Json) : Loose json json.tokens := by
  induction json using Json.induction with
  | null => exact .null
  | bool b => exact .bool b
  | number spelling => exact .number spelling
  | string spelling => exact .string spelling
  | array items hitems =>
    have hall : LooseItems items (itemTokens items) := by
      induction items with
      | nil => exact .nil
      | cons item items ih =>
        obtain ⟨hitem, hrest⟩ := List.forall_mem_cons.1 hitems
        cases items with
        | nil => exact .last hitem
        | cons next items => exact .cons hitem (ih hrest)
    exact .array hall
  | object members hmembers =>
    have hall : LooseMembers members (memberTokens members) := by
      induction members with
      | nil => exact .nil
      | cons m members ih =>
        obtain ⟨hvalue, hrest⟩ := List.forall_mem_cons.1 hmembers
        cases members with
        | nil => exact .last hvalue
        | cons next members => exact .cons hvalue (ih hrest)
    exact .object hall

/-- Without trailing commas, the tokens of a loose document are those of the document. -/
theorem Loose.dropCommas {json : Json} {us : List Token} (h : Loose json us) :
    Json.dropCommas us = json.tokens := by
  have hnothing := h.tightens []
  rwa [List.append_nil, Json.dropCommas, List.append_nil] at hnothing

/-! ### Relaxed documents -/

/-- What is read is the text of the tokens of the document. -/
theorem lex?_of_parse? {text : String} {json : Json} (h : parse? text = some json) :
    lex? text.toList = some json.tokens := by
  rw [parse?] at h
  split at h
  · rename_i ts hts
    rw [hts, tokens_of_ofTokens? h]
  · cases h

/-- **A document is recovered** from every text that writes its tokens in order, with any blanks
and comments before, between and behind them and with one more comma behind the last element or
member of any container: made strict, the text writes exactly the tokens of the document. The
text of the document itself stays as it is. Source: specification, section 4.3, JSON with
comments. -/
theorem strict_recovers {document : String} {json : Json} (h : parse? document = some json) :
    lex? document.toList = some json.tokens ∧ strict document = document ∧
      ∀ us text, Loose json us → Commented us text.toList →
        lex? (strict text).toList = some json.tokens ∧ parse? (strict text) = some json := by
  have hlex := lex?_of_parse? h
  obtain ⟨hspaced, hspelled⟩ := spaced_of_lex? hlex
  refine ⟨hlex, ?_, fun us text hloose hcommented => ?_⟩
  · rw [strict, dropComments_of_lex? hlex,
      hspaced.dropTrailingCommas_eq_self hspelled (loose_tokens json).dropCommas,
      String.ofList_toList]
  · have husSpelled : ∀ t ∈ us, t.Spelled := by
      intro t ht
      by_cases hcomma : t = .comma
      · exact hcomma ▸ Token.spelled_of_punctuation rfl
      · exact hspelled t (hloose.dropCommas ▸ mem_dropCommas ht hcomma)
    have hstrict : Spaced json.tokens (strict text).toList := by
      have hblanks := hcommented.dropComments fun t ht => (husSpelled t ht).read
      rw [strict, String.toList_ofList, ← hloose.dropCommas]
      exact hblanks.dropTrailingCommas husSpelled
    have hread := lex?_spaced hstrict (fun t ht => (hspelled t ht).read) (isChain_tokens json)
    refine ⟨hread, ?_⟩
    rw [parse?, hread]
    exact ofTokens?_tokens json

/-- A comma and a comment in front of each closer, and a comment that the text ends in. -/
theorem strict_recovers_nested :
    parse? r#"{"a":[1]}"# = some (object [("a", array [number "1"])]) ∧
      Loose (object [("a", array [number "1"])])
        [.openBrace, .string "a", .colon, .openBracket, .number "1", .comma, .closeBracket, .comma,
          .closeBrace] ∧
      parse? (strict "\x7b\"a\": [1,/*,]*/],// \"\n\x7d//") =
        some (object [("a", array [number "1"])]) := by
  have hdocument : parse? r#"{"a":[1]}"# = some (object [("a", array [number "1"])]) := by
    rfl
  have hloose : Loose (object [("a", array [number "1"])])
      [.openBrace, .string "a", .colon, .openBracket, .number "1", .comma, .closeBracket, .comma,
        .closeBrace] :=
    .object (.trailing (.array (.trailing (.number "1"))))
  have hcommented : Commented
      [.openBrace, .string "a", .colon, .openBracket, .number "1", .comma, .closeBracket, .comma,
        .closeBrace] "\x7b\"a\": [1,/*,]*/],// \"\n\x7d//".toList := by
    have hafter : Commented [.closeBracket, .comma, .closeBrace]
        ("],// \"\n\x7d//".toList) :=
      .token .closeBracket (.token .comma (.lineComment [' ', '"'] (by decide)
        (.token .closeBrace (.lastLine [] (by decide)))))
    exact .token .openBrace (.token (.string "a") (.token .colon (.blank (by decide)
      (.token .openBracket (.token (.number "1") (.token .comma
        (.blockComment [',', ']'] (by decide) hafter)))))))
  exact ⟨hdocument, hloose, ((strict_recovers hdocument).2.2 _ _ hloose hcommented).2⟩

end Json
end Strata
