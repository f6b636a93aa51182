/-
# From TOML statements to one table

A table is made in one of four ways, and this decides what may still be added
to it:

| made by | as | may later be |
| --- | --- | --- |
| a header further in | `passing` | opened by its own header, passed through |
| its own header | `opened` | passed through by headers |
| a dotted key | `dotted` | extended by dotted keys, passed through by headers |
| braces | a finished value | nothing |

Each `[[header]]` starts a new element of an array of tables; a header that
passes through the array goes into its last element. No key is given a value
twice.
-/

import Strata.Toml.Statement

namespace Strata
namespace Toml

/-- How a table was made. -/
inductive Origin where
  | passing
  | opened
  | dotted
  deriving DecidableEq

/-- What stands under a key while a document is put together. -/
inductive Node where
  | value (json : Json)
  | table (origin : Origin) (members : List (String × Node))
  /-- an array of tables, the latest element first -/
  | elements (latest : List (String × Node)) (earlier : List (List (String × Node)))

/-- The members of a table. -/
abbrev Members := List (String × Node)

/-- Replaces what stands under a key, or adds it. -/
def Members.set (key : String) (node : Node) : Members → Members
  | [] => [(key, node)]
  | (k, n) :: rest => if k = key then (k, node) :: rest else (k, n) :: Members.set key node rest

/-- Changes the table that a dotted path leads to from a table: tables on the
way are made when they are missing, and one that was opened by a header is
refused. -/
def alongKeys (change : Members → Option Members) : KeyPath → Members → Option Members
  | [], members => change members
  | key :: rest, members => do
    match members.lookup key with
    | none =>
      let inner ← alongKeys change rest []
      return members.set key (.table .dotted inner)
    | some (.table .dotted inner) =>
      let inner ← alongKeys change rest inner
      return members.set key (.table .dotted inner)
    | some (.table .passing inner) =>
      if rest.isEmpty then none
      else
        let inner ← alongKeys change rest inner
        return members.set key (.table .passing inner)
    | some _ => none

/-- Changes the table that the path of a header leads to. -/
def alongHeader (change : Members → Option Members) : KeyPath → Members → Option Members
  | [], members => change members
  | key :: rest, members => do
    match members.lookup key with
    | none =>
      let inner ← alongHeader change rest []
      return members.set key (.table .passing inner)
    | some (.table origin inner) =>
      let inner ← alongHeader change rest inner
      return members.set key (.table origin inner)
    | some (.elements latest earlier) =>
      let latest ← alongHeader change rest latest
      return members.set key (.elements latest earlier)
    | some (.value _) => none

/-- Adds a value under a key that has none. -/
def addValue (key : String) (json : Json) (members : Members) : Option Members :=
  if (members.lookup key).isSome then none else some (members.set key (.value json))

/-- Adds a value at the end of a dotted path. -/
def addAt (path : KeyPath) (json : Json) (members : Members) : Option Members :=
  match path.getLast? with
  | some key => alongKeys (addValue key json) path.dropLast members
  | none => none

/-- Opens a table by its header. -/
def openTable (key : String) (members : Members) : Option Members :=
  match members.lookup key with
  | none => some (members.set key (.table .opened []))
  | some (.table .passing inner) => some (members.set key (.table .opened inner))
  | some _ => none

/-- Starts a new element of an array of tables. -/
def openElement (key : String) (members : Members) : Option Members :=
  match members.lookup key with
  | none => some (members.set key (.elements [] []))
  | some (.elements latest earlier) => some (members.set key (.elements [] (latest :: earlier)))
  | some _ => none

mutual

/-- The document that a node stands for. -/
def Node.toJson : Node → Json
  | .value json => json
  | .table _ members => .object (membersToJson members)
  | .elements latest earlier =>
    .array (elementsToJson earlier [.object (membersToJson latest)])

/-- The members of a table as members of an object. -/
def membersToJson : List (String × Node) → List (String × Json)
  | [] => []
  | (key, node) :: rest => (Json.escape key, node.toJson) :: membersToJson rest

/-- The earlier elements of an array of tables, the latest first, in front of
the later ones. -/
def elementsToJson : List (List (String × Node)) → List Json → List Json
  | [], later => later
  | members :: earlier, later => elementsToJson earlier (.object (membersToJson members) :: later)

end

mutual

/-- The document that a written value stands for; none when an inline table
gives a key two values. -/
def Value.toJson? : Value → Option Json
  | .scalar json => some json
  | .array items => (itemsToJson? items).map .array
  | .inlineTable pairs =>
    (pairsToMembers? pairs []).map fun members => .object (membersToJson members)

/-- The documents of the elements of an array. -/
def itemsToJson? : List Value → Option (List Json)
  | [] => some []
  | item :: rest => do
    let item ← item.toJson?
    let rest ← itemsToJson? rest
    return item :: rest

/-- The members of an inline table, in addition to the given ones. -/
def pairsToMembers? : List (KeyPath × Value) → Members → Option Members
  | [], members => some members
  | (path, value) :: rest, members => do
    let json ← value.toJson?
    let members ← addAt path json members
    pairsToMembers? rest members

end

/-- A document that is being put together: its members, and the path of the
header that the next pairs belong to. -/
structure Draft where
  members : Members
  header : KeyPath

/-- The document behind one more statement. -/
def Draft.add (d : Draft) : Statement → Option Draft
  | .table path =>
    match path.getLast? with
    | some key => (alongHeader (openTable key) path.dropLast d.members).map fun m => ⟨m, path⟩
    | none => none
  | .element path =>
    match path.getLast? with
    | some key => (alongHeader (openElement key) path.dropLast d.members).map fun m => ⟨m, path⟩
    | none => none
  | .pair path value => do
    let json ← value.toJson?
    let members ← alongHeader (addAt path json) d.header d.members
    return ⟨members, d.header⟩

/-- The document that a text writes, as a JSON object; none when the text is no
TOML document. -/
def parse? (s : String) : Option Json := do
  let statements ← statements? s
  let draft ← statements.foldlM Draft.add ⟨[], []⟩
  return .object (membersToJson draft.members)

end Toml
end Strata
