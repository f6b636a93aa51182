/-
# Members that are set

`withMember` sets one member of an object and keeps the others. What a reader then finds
under a key is said here once, so that a document may be changed member by member:

| under | is found |
| --- | --- |
| the key that was set | its new value |
| any other key | the last member that the document had under it |

The keys of the result are distinct, so reading its fields never stops
(`exists_fields?_withMember`). A document that is kept as a free value keeps what is found
under a key as a free value (`exists_free?_withMember`).
-/

import Strata.Proofs.Json.Readable

namespace Strata
namespace Json

/-! ### Sorted members -/

/-- The last member is inserted into the others. -/
theorem sortMembers_concat {α : Type} (members : List (String × α)) (m : String × α) :
    sortMembers (members ++ [m]) = insertMember m.1 m.2 (sortMembers members) :=
  List.foldl_append

/-- The first member decides for its own key. -/
theorem lookup_cons_eq {α : Type} (name key : String) (value : α) (members : List (String × α)) :
    ((key, value) :: members).lookup name =
      if name = key then some value else members.lookup name := by
  by_cases h : name = key
  · rw [if_pos h, h, List.lookup_cons_self]
  · rw [if_neg h, List.lookup_cons, beq_eq_false_iff_ne.2 h]

/-- What is found after a member was put where its key belongs. -/
theorem lookup_insertMember {α : Type} (name key : String) (value : α)
    (members : List (String × α)) :
    (insertMember key value members).lookup name =
      if name = key then some value else members.lookup name := by
  induction members with
  | nil => exact lookup_cons_eq name key value []
  | cons m members ih =>
    obtain ⟨k, v⟩ := m
    rw [insertMember]
    split
    · exact lookup_cons_eq name key value _
    · split
      · rename_i hk
        subst hk
        rw [lookup_cons_eq, lookup_cons_eq]
        split <;> rfl
      · rename_i hk
        rw [lookup_cons_eq, lookup_cons_eq, ih]
        by_cases h : name = k
        · rw [if_pos h, if_pos h, if_neg fun h' => hk (h'.symm.trans h)]
        · rw [if_neg h, if_neg h]

/-- **Of several members with one key sorting keeps the last.** -/
theorem lookup_sortMembers {α : Type} (name : String) (members : List (String × α)) :
    (sortMembers members).lookup name = members.reverse.lookup name := by
  -- the last member is inserted last and comes first in the reversed list
  induction members using List.reverseRecOn with
  | nil => rfl
  | append_singleton members m ih =>
    rw [sortMembers_concat, lookup_insertMember, ih, List.reverse_concat, lookup_cons_eq]

/-- Sorted members have distinct keys. -/
theorem nodup_keys_sortMembers {α : Type} (members : List (String × α)) :
    ((sortMembers members).map Prod.fst).Nodup := by
  have hsorted : (sortMembers members).Pairwise fun a b => a.1 < b.1 := by
    induction members using List.reverseRecOn with
    | nil => exact .nil
    | append_singleton members m ih =>
      rw [sortMembers_concat]
      exact pairwise_insertMember m.1 m.2 ih
  exact List.pairwise_map.2 (hsorted.imp String.ne_of_lt)

/-! ### A member that is set -/

/-- The members of a document, none when it is no object. -/
def membersOf (json : Json) : List (String × Json) := json.members?.getD []

/-- The member that is set comes last, so it stays. -/
theorem withMember_eq (json : Json) (key : String) (value : Json) :
    json.withMember key value = record (sortMembers (json.membersOf ++ [(key, value)])) := by
  rw [sortMembers_concat]
  unfold withMember membersOf
  cases json.members? <;> rfl

theorem field?_eq (json : Json) (name : String) :
    json.field? name = json.membersOf.reverse.lookup name := by
  unfold field? membersOf
  cases json.members? <;> rfl

/-- Members with unknown keys are passed over, the others are found as before. -/
theorem lookup_filter_known {α : Type} {names : List String} {name : String} (h : name ∈ names)
    (members : List (String × α)) :
    (members.filter fun m => names.contains m.1).lookup name = members.lookup name := by
  induction members with
  | nil => rfl
  | cons m members ih =>
    by_cases hm : names.contains m.1 = true
    · rw [List.filter_cons, if_pos hm, lookup_cons_eq, lookup_cons_eq, ih]
    · have hne : name ≠ m.1 := by
        rintro rfl
        exact hm (List.contains_iff_mem.2 h)
      rw [List.filter_cons, if_neg hm, lookup_cons_eq, if_neg hne, ih]

/-- **A record with distinct keys can be read**, whatever else it holds. -/
theorem exists_fields?_record (names : List String) {members : List (String × Json)}
    (hkeys : (members.map Prod.fst).Nodup) :
    ∃ f, fields? names (record members) = some f ∧
      ∀ name ∈ names, f.present.lookup name = members.lookup name := by
  let known := members.filter fun m => names.contains m.1
  have hmembers : (object (members.map fun m => (escape m.1, m.2))).members? = some members :=
    members?_record members
  have hdistinct : (known.map Prod.fst).Nodup := hkeys.sublist (List.filter_sublist.map Prod.fst)
  refine ⟨⟨known, false⟩, ?_, fun name hname => lookup_filter_known hname members⟩
  rw [record, fields?, hmembers]
  exact if_neg (Bool.eq_false_iff.1 (hasRepeated_eq_false_iff.2 hdistinct))

/-- **A document with a member set can be read.** Under each name it has what the document
has there, and the new value under the key that was set. -/
theorem exists_fields?_withMember (names : List String) (json : Json) (key : String)
    (value : Json) :
    ∃ f, fields? names (json.withMember key value) = some f ∧ ∀ name ∈ names,
      f.present.lookup name = if name = key then some value else json.field? name := by
  obtain ⟨f, hf, hlookup⟩ := exists_fields?_record names
    (nodup_keys_sortMembers (json.membersOf ++ [(key, value)]))
  refine ⟨f, withMember_eq json key value ▸ hf, fun name hname => ?_⟩
  rw [hlookup name hname, lookup_sortMembers, List.reverse_concat, lookup_cons_eq, field?_eq]

/-- What is found in a record with distinct keys. -/
theorem field?_record {members : List (String × Json)} (hkeys : (members.map Prod.fst).Nodup)
    (name : String) : (record members).field? name = members.lookup name := by
  have hmembers : (record members).membersOf = members := by
    rw [membersOf, members?_record, Option.getD_some]
  rw [field?_eq, hmembers, lookup_eq_of_perm hkeys (List.reverse_perm members).symm]

/-- What is found in a document with a member set. -/
theorem field?_withMember (json : Json) (key name : String) (value : Json) :
    (json.withMember key value).field? name =
      if name = key then some value else json.field? name := by
  rw [withMember_eq, field?_record (nodup_keys_sortMembers _), lookup_sortMembers,
    List.reverse_concat, lookup_cons_eq, field?_eq]

/-- A document with a member set is an object. -/
theorem withMember_ne_null (json : Json) (key : String) (value : Json) :
    json.withMember key value ≠ null := by
  rw [withMember_eq, record]
  exact fun h => by cases h

/-! ### A document that is kept as a free value -/

/-- Members that are kept have the keys they had, and their values are kept. -/
theorem freeMembers?_eq_some {depth : Nat} {members read : List (String × Json)}
    (h : freeMembers? depth (members.map fun m => (escape m.1, m.2)) = some read) :
    read.map Prod.fst = members.map Prod.fst ∧
    ∀ name value, members.lookup name = some value →
      ∃ kept, free? depth value = some kept ∧ read.lookup name = some kept := by
  induction members generalizing read with
  | nil =>
    obtain rfl := Option.some.inj h
    exact ⟨rfl, fun _ _ h => by cases h⟩
  | cons m members ih =>
    simp only [List.map_cons, freeMembers?, unescape?_escape, Option.bind_eq_bind,
      Option.bind_some, Option.bind_eq_some_iff, Option.pure_def, Option.some.injEq] at h
    obtain ⟨kept, hkept, rest, hrest, rfl⟩ := h
    obtain ⟨hkeys, hvalues⟩ := ih hrest
    refine ⟨by rw [List.map_cons, List.map_cons, hkeys], fun name value hvalue => ?_⟩
    rw [lookup_cons_eq] at hvalue ⊢
    split at hvalue
    · obtain rfl := Option.some.inj hvalue
      exact ⟨kept, hkept, if_pos ‹_›⟩
    · obtain ⟨kept', hkept', hfound⟩ := hvalues name value hvalue
      exact ⟨kept', hkept', (if_neg ‹_›).trans hfound⟩

/-- **A document with a member set keeps what is found in it**, each as a free value. -/
theorem exists_free?_withMember {depth : Nat} {json value kept : Json} {key : String}
    (h : free? depth (json.withMember key value) = some kept) :
    ∃ members, kept = record members ∧ (members.map Prod.fst).Nodup ∧
      ∀ name found, (json.withMember key value).field? name = some found →
        ∃ depth kept, free? depth found = some kept ∧ members.lookup name = some kept := by
  let members := sortMembers (json.membersOf ++ [(key, value)])
  have hkeys : (members.map Prod.fst).Nodup := nodup_keys_sortMembers _
  rw [withMember_eq, record] at h
  cases depth with
  | zero => rw [free?] at h; cases h
  | succ depth =>
    rw [free?] at h
    obtain ⟨read, hread, rfl⟩ := Option.map_eq_some_iff.1 h
    obtain ⟨hsame, hvalues⟩ := freeMembers?_eq_some hread
    have hnodup : (read.map Prod.fst).Nodup := hsame ▸ hkeys
    refine ⟨sortMembers read, rfl, nodup_keys_sortMembers read, fun name found hfound => ?_⟩
    rw [withMember_eq, field?_record hkeys] at hfound
    obtain ⟨kept, hkept, hlookup⟩ := hvalues name found hfound
    refine ⟨depth, kept, hkept, ?_⟩
    rw [← lookup_eq_of_perm hnodup (sortMembers_perm hnodup).symm name, hlookup]

end Json
end Strata
