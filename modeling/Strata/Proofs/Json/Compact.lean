/-
# A document is read from its compact text

The parser delivers each document to the container it stands in as soon as it has the tokens
of it (`Parser.reads_document`), so it reads every list of tokens that a document is written
as (`ofTokens?_tokens`). No two of these tokens run together (`isChain_tokens`). So a document
whose strings and numbers are well spelled is read from its compact text (`parse?_compact`).

| document | well spelled |
| --- | --- |
| of a text, of an integer | always |
| an array, a record | when its elements or the values of its members are |
-/

import Strata.Json.Parser
import Strata.Proofs.Json.Tokens

namespace Strata
namespace Json

/-- Induction over the elements and members of documents. -/
@[elab_as_elim]
theorem induction {P : Json → Prop} (null : P null) (bool : ∀ b, P (bool b))
    (number : ∀ spelling, P (number spelling)) (string : ∀ spelling, P (string spelling))
    (array : ∀ items, (∀ item ∈ items, P item) → P (array items))
    (object : ∀ members, (∀ m ∈ members, P m.2) → P (object members)) (json : Json) : P json :=
  Json.rec (motive_1 := P) (motive_2 := fun items => ∀ item ∈ items, P item)
    (motive_3 := fun members => ∀ m ∈ members, P m.2) (motive_4 := fun m => P m.2)
    null bool number string array object (fun _ h => absurd h List.not_mem_nil)
    (fun _ _ hhead htail => List.forall_mem_cons.2 ⟨hhead, htail⟩)
    (fun _ h => absurd h List.not_mem_nil)
    (fun _ _ hhead htail => List.forall_mem_cons.2 ⟨hhead, htail⟩) (fun _ _ h => h) json

/-! ### The parser -/

namespace Parser

/-- A value may come next. -/
def TakesValue (e : Expecting) : Prop := e = .value ∨ e = .firstItem

/-- The key of a member may come next. -/
def TakesKey (e : Expecting) : Prop := e = .key ∨ e = .firstKey

variable {e : Expecting}

/-- Where a value may stand, every token but a closing bracket begins or ends one. -/
theorem step_eq_stepValue (he : TakesValue e) (opened : List Opened) {t : Token}
    (ht : t ≠ .closeBracket) : step (.reading opened e) t = stepValue opened t := by
  rcases he with rfl | rfl
  · rfl
  · rcases opened with - | ⟨items | ⟨members, key⟩, outer⟩ <;> cases t <;>
      first | rfl | exact absurd rfl ht

/-- The key of a member is kept until its value comes. -/
theorem run_key (he : TakesKey e) (members : List (String × Json)) (last spelling : String)
    (outer : List Opened) (ts : List Token) :
    run (.reading (.object members last :: outer) e) (.string spelling :: .colon :: ts) =
      run (.reading (.object members spelling :: outer) .value) ts := by
  rcases he with rfl | rfl <;> rfl

/-- A document that is handed to the innermost container when its tokens are read. -/
def Reads (json : Json) : Prop :=
  ∀ e, TakesValue e → ∀ opened rest,
    run (.reading opened e) (json.tokens ++ rest) = run (deliver json opened) rest

/-- The elements of an array are read behind those seen before. -/
theorem run_itemTokens {item : Json} {items : List Json}
    (hitems : ∀ i ∈ item :: items, Reads i) (he : TakesValue e) (seen : List Json)
    (outer : List Opened) (rest : List Token) :
    run (.reading (.array seen :: outer) e) (itemTokens (item :: items) ++ rest) =
      run (deliver (.array (seen.reverse ++ item :: items)) outer) rest := by
  induction items generalizing item seen e with
  | nil =>
    rw [itemTokens, List.append_assoc, hitems item List.mem_cons_self e he]
    simp [deliver, run, step]
  | cons next items ih =>
    obtain ⟨hitem, hitems⟩ := List.forall_mem_cons.1 hitems
    have hrest := ih hitems (.inl rfl) (item :: seen)
    rw [itemTokens, List.append_assoc, hitem e he]
    simpa [deliver, run, step] using hrest

/-- The members of an object are read behind those seen before. -/
theorem run_memberTokens {m : String × Json} {members : List (String × Json)}
    (hmembers : ∀ n ∈ m :: members, Reads n.2) (he : TakesKey e) (seen : List (String × Json))
    (last : String) (outer : List Opened) (rest : List Token) :
    run (.reading (.object seen last :: outer) e) (memberTokens (m :: members) ++ rest) =
      run (deliver (.object (seen.reverse ++ m :: members)) outer) rest := by
  obtain ⟨key, value⟩ := m
  induction members generalizing key value seen last e with
  | nil =>
    have hvalue : Reads value := hmembers (key, value) List.mem_cons_self
    simp only [memberTokens, List.cons_append, List.append_assoc]
    rw [run_key he, hvalue .value (.inl rfl)]
    simp [deliver, run, step]
  | cons next members ih =>
    obtain ⟨hvalue, hmembers⟩ := List.forall_mem_cons.1 hmembers
    have hrest := ih (.inl rfl) ((key, value) :: seen) key next.1 next.2 hmembers
    simp only [memberTokens, List.cons_append, List.append_assoc]
    rw [run_key he, hvalue .value (.inl rfl)]
    simpa [deliver, run, step] using hrest

/-- **The parser reads a document from its tokens.** -/
theorem reads_document (json : Json) : Reads json := by
  induction json using Json.induction with
  | null | bool | number | string =>
    intro e he opened rest
    rw [tokens, List.singleton_append, run, step_eq_stepValue he opened (by simp)]
    rfl
  | array items hitems =>
    intro e he opened rest
    rw [tokens, List.cons_append, run, step_eq_stepValue he opened (by simp)]
    cases items with
    | nil => rfl
    | cons item items => exact run_itemTokens hitems (.inr rfl) [] opened rest
  | object members hmembers =>
    intro e he opened rest
    rw [tokens, List.cons_append, run, step_eq_stepValue he opened (by simp)]
    cases members with
    | nil => rfl
    | cons m members => exact run_memberTokens hmembers (.inr rfl) [] "" opened rest

end Parser

/-- **A document is read from its tokens.** -/
theorem ofTokens?_tokens (json : Json) : ofTokens? json.tokens = some json := by
  have hreads := Parser.reads_document json .value (.inl rfl) [] []
  rw [List.append_nil] at hreads
  rw [ofTokens?, Parser.start, hreads]
  rfl

/-! ### The tokens of a document -/

section

variable {item : Json} {items : List Json} {members : List (String × Json)}

/-- Tokens stay apart around a delimiter. -/
theorem isChain_append_delimiter {ts us : List Token} {u : Token} (hts : ts.IsChain Token.Apart)
    (hu : u.isDelimiter = true) (hus : (u :: us).IsChain Token.Apart) :
    (ts ++ u :: us).IsChain Token.Apart :=
  List.isChain_append.2 ⟨hts, hus, by rintro t - _ ⟨⟩; exact .inr hu⟩

/-- Tokens stay apart behind punctuation. -/
theorem isChain_cons_punctuation {t : Token} {ts : List Token} (ht : t.isPunctuation = true)
    (hts : ts.IsChain Token.Apart) : (t :: ts).IsChain Token.Apart :=
  List.isChain_cons.2 ⟨fun _ _ => .inl ht, hts⟩

/-- The tokens of an array are apart when those of its elements are. -/
theorem isChain_itemTokens (h : ∀ item ∈ items, item.tokens.IsChain Token.Apart) :
    (itemTokens items).IsChain Token.Apart := by
  induction items with
  | nil => exact .singleton _
  | cons item items ih =>
    obtain ⟨hitem, hitems⟩ := List.forall_mem_cons.1 h
    cases items with
    | nil => exact isChain_append_delimiter hitem rfl (.singleton _)
    | cons next items =>
      exact isChain_append_delimiter hitem rfl (isChain_cons_punctuation rfl (ih hitems))

/-- The tokens of an object are apart when those of its values are. -/
theorem isChain_memberTokens (h : ∀ m ∈ members, m.2.tokens.IsChain Token.Apart) :
    (memberTokens members).IsChain Token.Apart := by
  induction members with
  | nil => exact .singleton _
  | cons m members ih =>
    obtain ⟨hvalue, hmembers⟩ := List.forall_mem_cons.1 h
    have hkey : ∀ ts : List Token, ts.IsChain Token.Apart →
        (.string m.1 :: .colon :: ts).IsChain Token.Apart := fun ts hts =>
      isChain_append_delimiter (.singleton (Token.string m.1)) rfl
        (isChain_cons_punctuation rfl hts)
    cases members with
    | nil => exact hkey _ (isChain_append_delimiter hvalue rfl (.singleton _))
    | cons next members =>
      exact hkey _ (isChain_append_delimiter hvalue rfl
        (isChain_cons_punctuation rfl (ih hmembers)))

/-- **No two tokens of a document run together.** -/
theorem isChain_tokens (json : Json) : json.tokens.IsChain Token.Apart := by
  induction json using Json.induction with
  | null | bool | number | string => exact .singleton _
  | array items hitems => exact isChain_cons_punctuation rfl (isChain_itemTokens hitems)
  | object members hmembers => exact isChain_cons_punctuation rfl (isChain_memberTokens hmembers)

/-- A document whose tokens are well spelled. -/
def WellSpelled (json : Json) : Prop := ∀ t ∈ json.tokens, t.WellSpelled

/-- **A document is read from its compact text**, when it is well spelled. -/
theorem parse?_compact {json : Json} (h : json.WellSpelled) : parse? json.compact = some json := by
  have htext : json.compact.toList = json.tokens.flatMap fun t => t.text.toList := by
    rw [compact, String.toList_join, List.flatMap_map]
  rw [parse?, htext, lex?_texts h (isChain_tokens json)]
  exact ofTokens?_tokens json

/-! ### Documents that are well spelled -/

theorem wellSpelled_null : null.WellSpelled :=
  List.forall_mem_singleton.2 Token.wellSpelled_null

theorem wellSpelled_bool (b : Bool) : (bool b).WellSpelled :=
  List.forall_mem_singleton.2 (Token.wellSpelled_bool b)

/-- A text is escaped when it is written. -/
theorem wellSpelled_ofText (s : String) : (ofText s).WellSpelled :=
  List.forall_mem_singleton.2 (wellSpelled_escape s)

/-- A natural number is written by its digits. -/
theorem wellSpelled_ofNat (n : Nat) : (ofNat n).WellSpelled :=
  List.forall_mem_singleton.2 (wellSpelled_natural n)

/-- An integer has at most a sign in front of its digits. -/
theorem wellSpelled_ofInt (n : Int) : (ofInt n).WellSpelled :=
  List.forall_mem_singleton.2 (wellSpelled_integer n)

/-- The tokens of elements that are well spelled are well spelled. -/
theorem wellSpelled_itemTokens (h : ∀ item ∈ items, item.WellSpelled) :
    ∀ t ∈ itemTokens items, t.WellSpelled := by
  induction items with
  | nil => exact List.forall_mem_singleton.2 (Token.wellSpelled_of_punctuation rfl)
  | cons item items ih =>
    obtain ⟨hitem, hitems⟩ := List.forall_mem_cons.1 h
    cases items with
    | nil =>
      exact List.forall_mem_append.2
        ⟨hitem, List.forall_mem_singleton.2 (Token.wellSpelled_of_punctuation rfl)⟩
    | cons next items =>
      exact List.forall_mem_append.2
        ⟨hitem, List.forall_mem_cons.2 ⟨Token.wellSpelled_of_punctuation rfl, ih hitems⟩⟩

/-- An array is well spelled when its elements are. -/
theorem wellSpelled_array (h : ∀ item ∈ items, item.WellSpelled) : (array items).WellSpelled :=
  List.forall_mem_cons.2 ⟨Token.wellSpelled_of_punctuation rfl, wellSpelled_itemTokens h⟩

/-- The tokens of members are well spelled when the keys and the values are. -/
theorem wellSpelled_memberTokens
    (h : ∀ m ∈ members, (Token.string m.1).WellSpelled ∧ m.2.WellSpelled) :
    ∀ t ∈ memberTokens members, t.WellSpelled := by
  induction members with
  | nil => exact List.forall_mem_singleton.2 (Token.wellSpelled_of_punctuation rfl)
  | cons m members ih =>
    obtain ⟨⟨hkey, hvalue⟩, hmembers⟩ := List.forall_mem_cons.1 h
    have hmember : ∀ t ∈ .string m.1 :: .colon :: m.2.tokens, t.WellSpelled :=
      List.forall_mem_cons.2
        ⟨hkey, List.forall_mem_cons.2 ⟨Token.wellSpelled_of_punctuation rfl, hvalue⟩⟩
    cases members with
    | nil =>
      exact List.forall_mem_append.2
        ⟨hmember, List.forall_mem_singleton.2 (Token.wellSpelled_of_punctuation rfl)⟩
    | cons next members =>
      exact List.forall_mem_append.2
        ⟨hmember, List.forall_mem_cons.2 ⟨Token.wellSpelled_of_punctuation rfl, ih hmembers⟩⟩

/-- **A record is well spelled** when the values of its members are. -/
theorem wellSpelled_record (h : ∀ m ∈ members, m.2.WellSpelled) : (record members).WellSpelled := by
  refine List.forall_mem_cons.2 ⟨Token.wellSpelled_of_punctuation rfl, ?_⟩
  exact wellSpelled_memberTokens
    (List.forall_mem_map.2 fun m hm => ⟨wellSpelled_escape m.1, h m hm⟩)

/-- A list of texts is well spelled. -/
theorem wellSpelled_ofTexts (xs : List String) : (ofTexts xs).WellSpelled :=
  wellSpelled_array (List.forall_mem_map.2 fun x _ => wellSpelled_ofText x)

end

end Json
end Strata
