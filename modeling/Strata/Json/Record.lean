/-
# Reading records

A record is written as an object or as an array.

| written as | rules |
| --- | --- |
| an object | members with unknown keys are passed over; a known key comes at most once |
| an array | the fields in their order; the last ones may be missing; no further elements |

A field is required, has a default, or is optional. `null` is the absence of an
optional field and a value of no other.
-/

import Strata.Json.Spelling
import Strata.Json.Number
import Strata.Json.Free

namespace Strata
namespace Json

/-- The fields of a record that are present. -/
structure Fields where
  present : List (String × Json)
  /-- true when the record was written as an array -/
  isPositional : Bool

/-- True when some element is equal to an earlier one. -/
def hasRepeated : List String → Bool
  | [] => false
  | x :: rest => rest.contains x || hasRepeated rest

/-- The fields of a record with the given names. -/
def fields? (names : List String) (json : Json) : Option Fields :=
  match json with
  | array items => if items.length ≤ names.length then some ⟨names.zip items, true⟩ else none
  | object _ =>
    match json.members? with
    | some members =>
      let known := members.filter fun m => names.contains m.1
      if hasRepeated (known.map Prod.fst) then none else some ⟨known, false⟩
    | none => none
  | _ => none

namespace Fields

/-- A field that has to be present. -/
def required {α : Type} (f : Fields) (name : String) (read : Json → Option α) : Option α :=
  match f.present.lookup name with
  | some json => read json
  | none => none

/-- A field that stands for `fallback` when it is missing. -/
def withDefault {α : Type} (f : Fields) (name : String) (fallback : α) (read : Json → Option α) :
    Option α :=
  match f.present.lookup name with
  | some json => read json
  | none => some fallback

/-- A field that may be missing or `null`. -/
def optional {α : Type} (f : Fields) (name : String) (read : Json → Option α) :
    Option (Option α) :=
  match f.present.lookup name with
  | none | some null => some none
  | some json => (read json).map some

/-- An optional field that an array may not leave out. -/
def nullable {α : Type} (f : Fields) (name : String) (read : Json → Option α) :
    Option (Option α) :=
  if f.isPositional ∧ (f.present.lookup name).isNone then none else f.optional name read

end Fields

/-- A list whose elements are all read. -/
def list? {α : Type} (read : Json → Option α) : Json → Option (List α)
  | array items => items.mapM read
  | _ => none

/-- A list of texts. -/
def texts? : Json → Option (List String) := list? text?

/-- One of several names: a string, or an object whose only member has the name
as its key and the value `null`. -/
def name? : Json → Option String
  | string spelling => unescape? spelling
  | object [(key, null)] => unescape? key
  | _ => none

/-- A table from texts to values: of several members with one key the last
counts. -/
def table? {α : Type} (read : Json → Option α) (json : Json) : Option (List (String × α)) :=
  match json.members? with
  | some members => (members.mapM fun m => (read m.2).map (m.1, ·)).map sortMembers
  | none => none

end Json
end Strata
