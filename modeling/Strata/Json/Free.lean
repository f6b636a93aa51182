/-
# Free values

A free value is kept without a type. It is respelled in one canonical way:
numbers by value, strings with the fewest escapes, the members of an object in
the order of their keys, of several members with one key the last. A free value
may not nest deeper than its reader allows, counted with the containers around
it.
-/

import Strata.Json.Spelling
import Strata.Json.Number

namespace Strata
namespace Json

/-- How many containers may stand one inside the other. -/
def maxDepth : Nat := 127

/-- Puts a member where its key belongs, in place of one with the same key. -/
def insertMember {α : Type} (key : String) (value : α) : List (String × α) → List (String × α)
  | [] => [(key, value)]
  | (k, v) :: rest =>
    if key < k then (key, value) :: (k, v) :: rest
    else if key = k then (key, value) :: rest
    else (k, v) :: insertMember key value rest

/-- **Inserting keeps a list of members in order.** Every key of the result is
the inserted one or was there before. -/
theorem mem_insertMember {α : Type} {key : String} {value : α} {m : String × α} :
    ∀ {members : List (String × α)}, m ∈ insertMember key value members →
      m = (key, value) ∨ m ∈ members
  | [], h => by simpa [insertMember] using h
  | (k, v) :: rest, h => by
    unfold insertMember at h
    split at h
    · simpa using h
    · split at h
      · rcases List.mem_cons.1 h with h | h
        · exact .inl h
        · exact .inr (List.mem_cons_of_mem _ h)
      · rcases List.mem_cons.1 h with h | h
        · exact .inr (h ▸ List.mem_cons_self)
        · exact (mem_insertMember h).imp id (List.mem_cons_of_mem _)

/-- **Inserting into sorted members leaves them sorted.** -/
theorem pairwise_insertMember {α : Type} (key : String) (value : α) :
    ∀ {members : List (String × α)}, members.Pairwise (fun a b => a.1 < b.1) →
      (insertMember key value members).Pairwise (fun a b => a.1 < b.1)
  | [], _ => by simp [insertMember]
  | (k, v) :: rest, h => by
    obtain ⟨hk, hrest⟩ := List.pairwise_cons.1 h
    unfold insertMember
    split
    · rename_i hlt
      refine List.pairwise_cons.2 ⟨fun m hm => ?_, h⟩
      rcases List.mem_cons.1 hm with rfl | hm
      · exact hlt
      · exact String.lt_trans hlt (hk m hm)
    · rename_i hnlt
      split
      · rename_i heq
        exact List.pairwise_cons.2 ⟨fun m hm => heq ▸ hk m hm, hrest⟩
      · rename_i hne
        refine List.pairwise_cons.2 ⟨fun m hm => ?_, pairwise_insertMember key value hrest⟩
        rcases mem_insertMember hm with rfl | hm
        · refine Decidable.byContradiction fun hnlt' => hne ?_
          exact String.le_antisymm (String.not_lt.1 hnlt') (String.not_lt.1 hnlt)
        · exact hk m hm

/-- Members in the order of their keys, the last of each key. -/
def sortMembers {α : Type} (members : List (String × α)) : List (String × α) :=
  members.foldl (fun sorted m => insertMember m.1 m.2 sorted) []

mutual

/-- The canonical spelling of a free value that may open `depth` containers one
inside the other; none when it is deeper, or some number or string in it has no
value. -/
def free? : (depth : Nat) → Json → Option Json
  | _, null => some null
  | _, bool b => some (bool b)
  | _, number spelling => (number? spelling).map fun n => number n.spelling
  | _, string spelling => (unescape? spelling).map ofText
  | 0, array _ | 0, object _ => none
  | depth + 1, array items => (freeItems? depth items).map array
  | depth + 1, object members =>
    (freeMembers? depth members).map fun read => record (sortMembers read)

/-- The canonical spellings of the elements of an array. -/
def freeItems? : (depth : Nat) → List Json → Option (List Json)
  | _, [] => some []
  | depth, item :: rest => do
    let item ← free? depth item
    let rest ← freeItems? depth rest
    return item :: rest

/-- The keys of an object and the canonical spellings of its values. -/
def freeMembers? : (depth : Nat) → List (String × Json) → Option (List (String × Json))
  | _, [] => some []
  | depth, (key, value) :: rest => do
    let key ← unescape? key
    let value ← free? depth value
    let rest ← freeMembers? depth rest
    return (key, value) :: rest

end

/-- The document with a member set in place of any with this key; a document
that is no object counts as an empty one. -/
def withMember (json : Json) (key : String) (value : Json) : Json :=
  match json.members? with
  | some members => record (insertMember key value (sortMembers members))
  | none => record [(key, value)]

mutual

/-- The document with the members of every object in the order of their
keys, as they are spelled. -/
def sorted : Json → Json
  | null => null
  | bool b => bool b
  | number spelling => number spelling
  | string spelling => string spelling
  | array items => array (sortedItems items)
  | object members => object (sortMembers (sortedMembers members))

/-- The elements of an array, each sorted. -/
def sortedItems : List Json → List Json
  | [] => []
  | item :: rest => item.sorted :: sortedItems rest

/-- The members of an object, each value sorted. -/
def sortedMembers : List (String × Json) → List (String × Json)
  | [] => []
  | (key, value) :: rest => (key, value.sorted) :: sortedMembers rest

end

end Json
end Strata
