/-
# What is written can be read

A text, a number or a record that is written as a document is read back as it was:

| written | read |
| --- | --- |
| `ofText s` | `text?` (`text?_ofText`) |
| `array (xs.map write)` | `list?` (`list?_array`), `texts?` (`texts?_ofTexts`) |
| `ofNat n` | `natural?` (`natural?_ofNat`), below its bound `integer?` (`integer?_ofNat`) |
| `ofInt n` | `integer?` (`integer?_ofInt`) |
| `record members` | `members?` (`members?_record`), `fields?` (`fields?_record`) |
| `record (present entries)` | `fields?` (`fields?_present`) |

What one member holds matters for its own field only (`exists_fields?_replace`). Kept as
free values, texts and numbers stay as they are, and records stay the same but for the
order of their members (`exists_perm_of_free?`); members in order keep it
(`sortMembers_eq_self`).
-/

import Strata.Json.Record
import Strata.Proofs.Json.Tokens
import Strata.Proofs.Lists
import Mathlib.Data.List.TakeWhile
import Mathlib.Tactic.SplitIfs

namespace Strata
namespace Json

open Text

/-! ### Strings -/

/-- A backslash and a letter stand for one character. -/
theorem unescapeFrom_short {c x : Char} (hc : c ≠ 'u') (h : shortEscape? c = some x)
    (read rest : List Char) :
    unescapeFrom read none ('\\' :: c :: rest) = unescapeFrom (x :: read) none rest := by
  rw [unescapeFrom.eq_6 _ _ _ fun _ _ _ _ _ hu _ => hc hu, h]

/-- Any other character stands for itself. -/
theorem unescapeFrom_plain {c : Char} (hc : c ≠ '\\') (read rest : List Char) :
    unescapeFrom read none (c :: rest) = unescapeFrom (c :: read) none rest :=
  unescapeFrom.eq_8 _ _ _ (fun _ _ _ _ _ h _ => hc h) (fun _ _ h _ => hc h) fun h _ => hc h

/-- A control is written with four digits, of which the first two are zeros. -/
theorem unescapeFrom_escapeCode {c : Char} (hc : c.toNat < 0x20) (read rest : List Char) :
    unescapeFrom read none (escapeCode c ++ rest) = unescapeFrom (c :: read) none rest := by
  have hunits : ∀ n : Fin 0x20,
      hexUnit? '0' '0' (Nat.digitChar (n / 16 % 16)) (Nat.digitChar (n % 16)) = some n.val := by
    decide
  have hunit := hunits ⟨c.toNat, hc⟩
  have hlow : ¬ (0xd800 ≤ c.toNat ∧ c.toNat < 0xdc00) := by omega
  have hhigh : ¬ (0xdc00 ≤ c.toNat ∧ c.toNat < 0xe000) := by omega
  have hchar : Char.ofNat c.toNat = c := Char.ofNat_toNat c
  rw [escapeCode]
  simp only [List.cons_append, List.nil_append]
  rw [unescapeFrom.eq_def]
  simp [hunit, hlow, hhigh, hchar]

/-- A character that was written as an escape or as itself is read again. -/
theorem unescapeFrom_escapeChar (c : Char) (read rest : List Char) :
    unescapeFrom read none (escapeChar c ++ rest) = unescapeFrom (c :: read) none rest := by
  unfold escapeChar
  split
  · rename_i h
    rcases h with rfl | rfl <;> exact unescapeFrom_short (by decide) rfl read rest
  · rename_i hplain
    split_ifs with hb hf hn hr ht hcode
    · exact hb ▸ unescapeFrom_short (by decide) rfl read rest
    · exact hf ▸ unescapeFrom_short (by decide) rfl read rest
    · exact hn ▸ unescapeFrom_short (by decide) rfl read rest
    · exact hr ▸ unescapeFrom_short (by decide) rfl read rest
    · exact ht ▸ unescapeFrom_short (by decide) rfl read rest
    · exact unescapeFrom_escapeCode hcode read rest
    · exact unescapeFrom_plain (fun h => hplain (.inr h)) read rest

/-- **A text is read from its spelling.** -/
theorem unescape?_escape (s : String) : unescape? (escape s) = some s := by
  have hall : ∀ cs read : List Char,
      unescapeFrom read none (cs.flatMap escapeChar) = some (read.reverse ++ cs) := by
    intro cs
    induction cs with
    | nil => intro read; rw [List.flatMap_nil, unescapeFrom, List.append_nil]
    | cons c cs ih =>
      intro read
      rw [List.flatMap_cons, unescapeFrom_escapeChar, ih, List.reverse_cons, List.append_assoc]
      rfl
  rw [unescape?, escape, String.toList_ofList, hall, Option.map_some, List.reverse_nil,
    List.nil_append, String.ofList_toList]

/-- **A text is read from its document.** -/
@[simp] theorem text?_ofText (s : String) : text? (ofText s) = some s := unescape?_escape s

/-- A list is read when its elements are. -/
theorem list?_array {α : Type} {write : α → Json} {read : Json → Option α}
    (h : ∀ a, read (write a) = some a) (xs : List α) :
    list? read (array (xs.map write)) = some xs :=
  mapM_map_eq_some h xs

/-- **A list of texts is read from its document.** -/
@[simp] theorem texts?_ofTexts (xs : List String) : texts? (ofTexts xs) = some xs :=
  list?_array text?_ofText xs

/-! ### Numbers -/

/-- The digits of a number are decimal. -/
theorem isDecimal_of_mem_toDigits {n : Nat} {c : Char} (h : c ∈ Nat.toDigits 10 n) :
    isDecimal c = true := by
  have hdigit := Nat.isDigit_of_mem_toDigits (by decide) (by decide) h
  simpa [Char.isDigit, isDecimal, Char.le_def] using hdigit

/-- The digits of a number are all taken for its integer part. -/
theorem takeWhile_toDigits (n : Nat) :
    (Nat.toDigits 10 n).takeWhile isDecimal = Nat.toDigits 10 n :=
  List.takeWhile_eq_self_iff.2 fun _ => isDecimal_of_mem_toDigits

/-- Nothing is left behind the digits of a number. -/
theorem dropWhile_toDigits (n : Nat) : (Nat.toDigits 10 n).dropWhile isDecimal = [] :=
  List.dropWhile_eq_nil_iff.2 fun _ => isDecimal_of_mem_toDigits

/-- A natural number is spelled without sign, fraction and exponent. -/
theorem ofSpelling_toString (n : Nat) :
    Numeral.ofSpelling (toString n) = ⟨false, Nat.toDigits 10 n, none, none⟩ := by
  have htext : (toString n).toList = Nat.toDigits 10 n := Nat.toList_repr
  unfold Numeral.ofSpelling
  rw [htext]
  split
  rename_i isNegative unsigned hsign
  split at hsign
  · rename_i rest hminus
    exact absurd (isDecimal_of_mem_toDigits (hminus ▸ List.mem_cons_self)) (by decide)
  · obtain ⟨rfl, rfl⟩ := Prod.mk.inj hsign
    dsimp only
    rw [takeWhile_toDigits, dropWhile_toDigits]
    rfl

/-- A number below zero has a sign in front. -/
theorem ofSpelling_negSucc (n : Nat) :
    Numeral.ofSpelling (toString (Int.negSucc n)) =
      ⟨true, Nat.toDigits 10 (n + 1), none, none⟩ := by
  unfold Numeral.ofSpelling
  rw [toList_negSucc]
  simp only [takeWhile_toDigits, dropWhile_toDigits]
  rfl

/-- The value of the digits of a number is the number. -/
theorem decimalValue_toDigits (n : Nat) : decimalValue (Nat.toDigits 10 n) = n :=
  Nat.ofDigitChars_toDigits (by decide) (by decide)

/-- A number is read from its digits. -/
theorem number?_toString {n : Nat} (h : n ≤ maxNatural) :
    number? (toString n) = some (.natural n) := by
  rw [number?, ofSpelling_toString]
  simp [decimalValue_toDigits, h]

/-- A negative number is read from its sign and its digits. -/
theorem number?_negSucc {n : Nat} (h : n + 1 ≤ integerBound) :
    number? (toString (Int.negSucc n)) = some (.negative (Int.negSucc n)) := by
  rw [number?, ofSpelling_negSucc]
  simp [decimalValue_toDigits, h, Int.negSucc_eq]

/-- A natural number is read as a signed one when it has 63 bits. -/
theorem integer?_ofNat {n : Nat} (h : n < integerBound) :
    integer? (ofNat n) = some (Int64.ofInt n) := by
  have hle : n ≤ maxNatural := Nat.le_of_lt (Nat.lt_trans h (by decide))
  rw [ofNat, integer?, number?_toString hle]
  simp [h]

/-- **Every 64-bit natural number is read again.** -/
@[simp] theorem natural?_ofNat (n : UInt64) : natural? (ofNat n.toNat) = some n := by
  have hle : n.toNat ≤ maxNatural := Nat.le_of_lt_succ n.toNat_lt
  rw [ofNat, natural?, number?_toString hle]
  simp

/-- **Every 64-bit integer is read again.** -/
@[simp] theorem integer?_ofInt (n : Int64) : integer? (ofInt n.toInt) = some n := by
  have hlow : -(integerBound : Int) ≤ n.toInt := n.le_toInt
  have hhigh : n.toInt < (integerBound : Int) := n.toInt_lt
  have hvalue : Int64.ofInt n.toInt = n := Int64.ofInt_toInt n
  cases hn : n.toInt with
  | ofNat m =>
    rw [hn] at hhigh hvalue
    have hread : integer? (ofNat m) = some (Int64.ofInt m) := integer?_ofNat (Int.ofNat_lt.1 hhigh)
    exact hread.trans (congrArg some hvalue)
  | negSucc m =>
    rw [hn] at hlow hvalue
    have hbound : m + 1 ≤ integerBound := by omega
    rw [ofInt, integer?, number?_negSucc hbound]
    exact congrArg some hvalue

/-! ### Records -/

/-- **A record has the members it was written with.** -/
theorem members?_record (members : List (String × Json)) :
    (record members).members? = some members := by
  refine mapM_map_eq_some (fun m => ?_) members
  rw [unescape?_escape]
  rfl

/-- Keys are repeated unless they are all distinct. -/
theorem hasRepeated_eq_false_iff {keys : List String} : hasRepeated keys = false ↔ keys.Nodup := by
  induction keys with
  | nil => simp [hasRepeated]
  | cons key keys ih =>
    rw [hasRepeated, Bool.or_eq_false_iff, ih, List.nodup_cons, List.contains_eq_mem,
      decide_eq_false_iff_not]

/-- **A record with distinct known keys has these fields.** -/
theorem fields?_record {names : List String} {members : List (String × Json)}
    (hnames : ∀ m ∈ members, m.1 ∈ names) (hkeys : (members.map Prod.fst).Nodup) :
    fields? names (record members) = some ⟨members, false⟩ := by
  have hknown : members.filter (fun m => names.contains m.1) = members :=
    List.filter_eq_self.2 fun m hm => List.contains_iff_mem.2 (hnames m hm)
  have hmembers : (object (members.map fun m => (escape m.1, m.2))).members? = some members :=
    members?_record members
  rw [record, fields?, hmembers]
  simp only [hknown, hasRepeated_eq_false_iff.2 hkeys]
  rfl

/-- A member with another key is passed over. -/
theorem fields?_record_cons {names : List String} {key : String} (h : key ∉ names) (value : Json)
    (members : List (String × Json)) :
    fields? names (record ((key, value) :: members)) = fields? names (record members) := by
  have hmembers (ms : List (String × Json)) :
      (object (ms.map fun m => (escape m.1, m.2))).members? = some ms := members?_record ms
  have hunknown : ¬ names.contains key = true := mt List.contains_iff_mem.1 h
  rw [record, record, fields?, fields?, hmembers, hmembers]
  simp only [List.filter_cons, hunknown]
  rfl

/-- Members around one that is known by its name are read whatever that one holds. -/
theorem exists_members?_around {front back : List (String × Json)} {key name : String}
    {json : Json} {read : List (String × Json)} (hkey : unescape? key = some name)
    (h : (object (front ++ (key, json) :: back)).members? = some read) :
    ∃ before behind, ∀ value,
      (object (front ++ (key, value) :: back)).members? =
        some (before ++ (name, value) :: behind) := by
  have hsplit (value : Json) : (object (front ++ (key, value) :: back)).members? =
      (object front).members?.bind fun before =>
        (object back).members?.bind fun behind => some (before ++ (name, value) :: behind) := by
    simp only [members?, List.mapM_append, List.mapM_cons, hkey, Option.map_some,
      Option.bind_eq_bind, Option.bind_some, Option.bind_assoc, Option.pure_def]
  rw [hsplit] at h
  obtain ⟨before, hbefore, h⟩ := Option.bind_eq_some_iff.1 h
  obtain ⟨behind, hbehind, -⟩ := Option.bind_eq_some_iff.1 h
  exact ⟨before, behind, fun value => by rw [hsplit, hbefore, hbehind]; rfl⟩

/-- **The value of one member matters for no other field.** -/
theorem exists_fields?_replace {names : List String} {front back : List (String × Json)}
    {key name : String} {json json' : Json} {f : Fields} (hkey : unescape? key = some name)
    (hname : name ∈ names)
    (h : fields? names (object (front ++ (key, json) :: back)) = some f) :
    ∃ f', fields? names (object (front ++ (key, json') :: back)) = some f' ∧
      f'.present.lookup name = some json' ∧
      ∀ other, other ≠ name → f'.present.lookup other = f.present.lookup other := by
  -- the members around the one that is replaced are read in the same way for every value
  obtain ⟨reads, others, hmembers⟩ : ∃ reads others, ∀ value,
      (object (front ++ (key, value) :: back)).members? =
        some (reads ++ (name, value) :: others) := by
    rw [fields?] at h
    split at h
    · rename_i hread
      exact exists_members?_around hkey hread
    · cases h
  have hknown (value : Json) :
      (reads ++ (name, value) :: others).filter (fun m => names.contains m.1) =
        reads.filter (fun m => names.contains m.1) ++
          (name, value) :: others.filter (fun m => names.contains m.1) := by
    rw [List.filter_append, List.filter_cons, if_pos (List.contains_iff_mem.2 hname)]
  generalize reads.filter (fun m => names.contains m.1) = before at hknown
  generalize others.filter (fun m => names.contains m.1) = behind at hknown
  have hfields (value : Json) : fields? names (object (front ++ (key, value) :: back)) =
      if hasRepeated ((before ++ (name, value) :: behind).map Prod.fst) then none
      else some ⟨before ++ (name, value) :: behind, false⟩ := by
    rw [fields?, hmembers]
    simp only [hknown]
  have hkeys (value : Json) : (before ++ (name, value) :: behind).map Prod.fst =
      before.map Prod.fst ++ name :: behind.map Prod.fst := by
    rw [List.map_append, List.map_cons]
  simp only [hfields, hkeys] at h ⊢
  -- whether a key is repeated does not depend on the value
  split at h
  · cases h
  · rename_i hdistinct
    obtain rfl := Option.some.inj h
    have hnodup : ((before ++ (name, json') :: behind).map Prod.fst).Nodup := by
      rw [hkeys]
      exact hasRepeated_eq_false_iff.1 (Bool.eq_false_iff.2 hdistinct)
    refine ⟨_, if_neg hdistinct, ?_, fun other hother => ?_⟩
    · exact (lookup_eq_some_iff_mem hnodup).2 (by simp)
    · simp [List.lookup_append, List.lookup_cons, beq_eq_false_iff_ne.2 hother]

/-- An optional field is read when it is there and not `null`. -/
theorem optional_eq_map {α : Type} {f : Fields} {name : String} {read : Json → Option α}
    {json : Json} (h : f.present.lookup name = some json) (hnull : json ≠ null) :
    f.optional name read = (read json).map some := by
  rw [Fields.optional, h]
  cases json with
  | null => exact absurd rfl hnull
  | _ => rfl

/-- A field with a default is read when it is there. -/
theorem withDefault_eq {α : Type} {f : Fields} {name : String} {read : Json → Option α}
    {fallback : α} {json : Json} (h : f.present.lookup name = some json) :
    f.withDefault name fallback read = read json := by
  rw [Fields.withDefault, h]

/-! ### Members that may be left out -/

/-- The members of a record of which some may be left out. -/
def present (entries : List (String × Option Json)) : List (String × Json) :=
  entries.filterMap fun e => e.2.map fun json => (e.1, json)

/-- An entry is one member or none. -/
theorem present_cons (name : String) (o : Option Json) (entries : List (String × Option Json)) :
    present ((name, o) :: entries) =
      (o.toList.map fun json => (name, json)) ++ present entries := by
  cases o <;> rfl

section

variable {α : Type} {entries : List (String × Option Json)} {name : String}
  {read : Json → Option α}

/-- Leaving out entries keeps the order of the others. -/
theorem keys_present (entries : List (String × Option Json)) :
    ((present entries).map Prod.fst).Sublist (entries.map Prod.fst) := by
  induction entries with
  | nil => exact .refl _
  | cons e entries ih =>
    obtain ⟨key, o⟩ := e
    rw [present_cons]
    cases o with
    | none => exact ih.cons key
    | some json => exact ih.cons_cons key

/-- What is left out is not looked up. -/
theorem lookup_present (h : (entries.map Prod.fst).Nodup) :
    (present entries).lookup name = (entries.lookup name).join := by
  induction entries with
  | nil => rfl
  | cons e entries ih =>
    obtain ⟨key, o⟩ := e
    obtain ⟨hkey, hkeys⟩ := List.nodup_cons.1 h
    rw [present_cons, List.lookup_append, ih hkeys, List.lookup_cons]
    by_cases heq : name = key
    · subst heq
      have hrest : entries.lookup name = none := by
        rw [List.lookup_eq_none_iff]
        intro e he
        have hne : e.1 ≠ name := fun heq => hkey (List.mem_map.2 ⟨e, he, heq⟩)
        simpa using hne.symm
      cases o <;> simp [hrest]
    · have hne : (name == key) = false := beq_eq_false_iff_ne.2 heq
      cases o <;> simp [List.lookup_cons, hne]

/-- **A record has the fields that are not left out.** -/
theorem fields?_present (h : (entries.map Prod.fst).Nodup) :
    fields? (entries.map Prod.fst) (record (present entries)) = some ⟨present entries, false⟩ :=
  fields?_record (fun _ hm => (keys_present entries).subset (List.mem_map_of_mem hm))
    ((keys_present entries).nodup h)

variable (hkeys : (entries.map Prod.fst).Nodup)
include hkeys

/-- A required field is read from the entry that is always there. -/
theorem required_present {json : Json} (h : entries.lookup name = some (some json)) :
    Fields.required ⟨present entries, false⟩ name read = read json := by
  rw [Fields.required, lookup_present hkeys, h]
  rfl

/-- A field that is left out when it is missing is read again. -/
theorem optional_present {o : Option α} {write : α → Json}
    (h : entries.lookup name = some (o.map write)) (hread : ∀ a, read (write a) = some a)
    (hnull : ∀ a, write a ≠ null) :
    Fields.optional ⟨present entries, false⟩ name read = some o := by
  have hlookup : (present entries).lookup name = o.map write := by
    rw [lookup_present hkeys, h]
    rfl
  cases o with
  | none => rw [Fields.optional, hlookup, Option.map_none]
  | some a => rw [optional_eq_map hlookup (hnull a), hread, Option.map_some]

/-- A field that is left out when it is the default is read again. -/
theorem withDefault_present {a fallback : α} {o : Option Json} (h : entries.lookup name = some o)
    (hnone : o = none → a = fallback) (hsome : ∀ json ∈ o, read json = some a) :
    Fields.withDefault ⟨present entries, false⟩ name fallback read = some a := by
  have hlookup : (present entries).lookup name = o := by
    rw [lookup_present hkeys, h]
    rfl
  cases o with
  | none => rw [Fields.withDefault, hlookup, hnone rfl]
  | some json => rw [withDefault_eq hlookup, hsome json rfl]

end

/-! ### Free values -/

/-- A document that may be kept as a free value in `depth` containers. -/
def Keepable (depth : Nat) (json : Json) : Prop := (free? depth json).isSome

/-- A text is kept at any depth. -/
theorem keepable_ofText (depth : Nat) (s : String) : Keepable depth (ofText s) := by
  rw [Keepable, ofText, free?, unescape?_escape]
  rfl

/-- An array is one level deeper than its elements. -/
theorem keepable_array {depth : Nat} {items : List Json} (h : ∀ item ∈ items, Keepable depth item) :
    Keepable (depth + 1) (array items) := by
  have hall : (freeItems? depth items).isSome := by
    induction items with
    | nil => rfl
    | cons item items ih =>
      obtain ⟨hitem, hitems⟩ := List.forall_mem_cons.1 h
      obtain ⟨read, hread⟩ := Option.isSome_iff_exists.1 hitem
      obtain ⟨rest, hrest⟩ := Option.isSome_iff_exists.1 (ih hitems)
      rw [freeItems?, hread, hrest]
      rfl
  rw [Keepable, free?, Option.isSome_map]
  exact hall

/-- A record is one level deeper than its members. -/
theorem keepable_record {depth : Nat} {members : List (String × Json)}
    (h : ∀ m ∈ members, Keepable depth m.2) : Keepable (depth + 1) (record members) := by
  have hall : (freeMembers? depth (members.map fun m => (escape m.1, m.2))).isSome := by
    induction members with
    | nil => rfl
    | cons m members ih =>
      obtain ⟨hvalue, hmembers⟩ := List.forall_mem_cons.1 h
      obtain ⟨read, hread⟩ := Option.isSome_iff_exists.1 hvalue
      obtain ⟨rest, hrest⟩ := Option.isSome_iff_exists.1 (ih hmembers)
      rw [List.map_cons, freeMembers?, unescape?_escape, hread, hrest]
      rfl
  rw [Keepable, record, free?, Option.isSome_map]
  exact hall

/-- A document that keeps its spelling as a free value. -/
def Canonical (json : Json) : Prop := ∀ depth read, free? depth json = some read → read = json

/-- A text is spelled with the fewest escapes when it is written. -/
theorem canonical_ofText (s : String) : Canonical (ofText s) := by
  intro depth read h
  have hspelling : free? depth (ofText s) = some (ofText s) := by
    rw [ofText, free?, unescape?_escape]
    rfl
  exact Option.some.inj (h.symm.trans hspelling)

/-- A number is spelled by its digits when it is written. -/
theorem canonical_ofNat {n : Nat} (hn : n ≤ maxNatural) : Canonical (ofNat n) := by
  intro depth read h
  have hspelling : free? depth (ofNat n) = some (ofNat n) := by
    rw [ofNat, free?, number?_toString hn]
    rfl
  exact Option.some.inj (h.symm.trans hspelling)

/-- An array is canonical when its elements are. -/
theorem canonical_array {items : List Json} (hitems : ∀ item ∈ items, Canonical item) :
    Canonical (array items) := by
  have hall : ∀ depth read, freeItems? depth items = some read → read = items := by
    intro depth
    induction items with
    | nil => intro read h; rw [freeItems?] at h; exact (Option.some.inj h).symm
    | cons item items ih =>
      intro read h
      obtain ⟨hitem, hitems⟩ := List.forall_mem_cons.1 hitems
      simp only [freeItems?, Option.bind_eq_bind, Option.bind_eq_some_iff, Option.pure_def,
        Option.some.injEq] at h
      obtain ⟨item', hitem', items', hitems', rfl⟩ := h
      rw [hitem _ _ hitem', ih hitems _ hitems']
  intro depth read h
  cases depth with
  | zero => rw [free?] at h; cases h
  | succ depth =>
    rw [free?] at h
    obtain ⟨items', hitems', rfl⟩ := Option.map_eq_some_iff.1 h
    rw [hall depth items' hitems']

/-- Putting a member where its key belongs adds it. -/
theorem insertMember_perm {key : String} {value : Json} {members : List (String × Json)}
    (h : key ∉ members.map Prod.fst) :
    (insertMember key value members).Perm ((key, value) :: members) := by
  induction members with
  | nil => exact .refl _
  | cons m members ih =>
    obtain ⟨k, v⟩ := m
    rw [List.map_cons, List.mem_cons, not_or] at h
    rw [insertMember]
    split
    · exact .refl _
    · rw [if_neg h.1]
      exact ((ih h.2).cons (k, v)).trans (.swap ..)

/-- Sorting members with distinct keys loses none. -/
theorem sortMembers_perm {members : List (String × Json)} (h : (members.map Prod.fst).Nodup) :
    (sortMembers members).Perm members := by
  have hfrom : ∀ sorted : List (String × Json), ((sorted ++ members).map Prod.fst).Nodup →
      (members.foldl (fun sorted m => insertMember m.1 m.2 sorted) sorted).Perm
        (sorted ++ members) := by
    induction members with
    | nil => intro sorted _; rw [List.append_nil]; exact .refl _
    | cons m members ih =>
      intro sorted hkeys
      rw [List.map_append, List.map_cons] at hkeys
      have hnew : m.1 ∉ sorted.map Prod.fst := fun hmem =>
        (List.nodup_append.1 hkeys).2.2 m.1 hmem m.1 List.mem_cons_self rfl
      have hmove : (insertMember m.1 m.2 sorted ++ members).Perm (sorted ++ m :: members) :=
        ((insertMember_perm hnew).append_right members).trans List.perm_middle.symm
      have hdistinct : ((insertMember m.1 m.2 sorted ++ members).map Prod.fst).Nodup := by
        rw [(hmove.map Prod.fst).nodup_iff, List.map_append]
        exact hkeys
      exact (ih (List.nodup_cons.1 h).2 _ hdistinct).trans hmove
  exact hfrom [] h

/-- A key behind all others is added at the end. -/
theorem insertMember_of_forall_lt {α : Type} {key : String} (value : α)
    {members : List (String × α)} (h : ∀ m ∈ members, m.1 < key) :
    insertMember key value members = members ++ [(key, value)] := by
  induction members with
  | nil => rfl
  | cons m members ih =>
    obtain ⟨k, v⟩ := m
    obtain ⟨hk, hmembers⟩ := List.forall_mem_cons.1 h
    have hne : key ≠ k := by
      rintro rfl
      exact String.lt_irrefl _ hk
    rw [insertMember, if_neg (String.lt_asymm hk), if_neg hne, ih hmembers, List.cons_append]

/-- Members in order stay as they are. -/
theorem sortMembers_eq_self {α : Type} {members : List (String × α)}
    (h : members.Pairwise fun a b => a.1 < b.1) : sortMembers members = members := by
  have hfrom : ∀ sorted : List (String × α), (sorted ++ members).Pairwise (fun a b => a.1 < b.1) →
      members.foldl (fun sorted m => insertMember m.1 m.2 sorted) sorted = sorted ++ members := by
    induction members with
    | nil => intro sorted _; rw [List.append_nil]; rfl
    | cons m members ih =>
      intro sorted hsorted
      have hlast : ∀ a ∈ sorted, a.1 < m.1 := fun a ha =>
        (List.pairwise_append.1 hsorted).2.2 a ha m List.mem_cons_self
      have happend : sorted ++ m :: members = (sorted ++ [m]) ++ members := by simp
      rw [List.foldl_cons, insertMember_of_forall_lt m.2 hlast, happend]
      exact ih (List.pairwise_cons.1 h).2 _ (happend ▸ hsorted)
  exact hfrom [] h

/-- A record that is kept as a free value keeps its members, in some order. -/
theorem exists_perm_of_free? {depth : Nat} {members : List (String × Json)} {json : Json}
    (hkeys : (members.map Prod.fst).Nodup) (hvalues : ∀ m ∈ members, Canonical m.2)
    (h : free? depth (record members) = some json) :
    ∃ members', members'.Perm members ∧ json = record members' := by
  have hall : ∀ depth read,
      freeMembers? depth (members.map fun m => (escape m.1, m.2)) = some read →
        read = members := by
    intro depth
    clear h hkeys
    induction members with
    | nil => intro read h; exact (Option.some.inj h).symm
    | cons m members ih =>
      intro read h
      obtain ⟨hvalue, hvalues⟩ := List.forall_mem_cons.1 hvalues
      simp only [List.map_cons, freeMembers?, unescape?_escape, Option.bind_eq_bind,
        Option.bind_some, Option.bind_eq_some_iff, Option.pure_def, Option.some.injEq] at h
      obtain ⟨value, hread, members', hmembers', rfl⟩ := h
      rw [hvalue _ _ hread, ih hvalues _ hmembers']
  rw [record] at h
  cases depth with
  | zero => rw [free?] at h; cases h
  | succ depth =>
    rw [free?] at h
    obtain ⟨read, hread, rfl⟩ := Option.map_eq_some_iff.1 h
    obtain rfl := hall depth read hread
    exact ⟨_, sortMembers_perm hkeys, rfl⟩

end Json
end Strata
