/-
# The spelling of JSON strings

`escape` writes a text as it stands between the quotes: a quote, a backslash
and the control characters below U+0020 are escaped, all else stands for
itself. `unescape?` reads every spelling the format allows, a pair of surrogate
escapes as one character, and refuses a surrogate without its partner.
-/

import Strata.Json.Basic

namespace Strata
namespace Json

/-- A control character as an escape of four hexadecimal digits. -/
def escapeCode (c : Char) : List Char :=
  ['\\', 'u', '0', '0', Nat.digitChar (c.toNat / 16 % 16), Nat.digitChar (c.toNat % 16)]

/-- One character as it stands between the quotes. -/
def escapeChar (c : Char) : List Char :=
  if c = '"' ∨ c = '\\' then ['\\', c]
  else if c = '\x08' then ['\\', 'b']
  else if c = '\x0c' then ['\\', 'f']
  else if c = '\n' then ['\\', 'n']
  else if c = '\r' then ['\\', 'r']
  else if c = '\t' then ['\\', 't']
  else if c.toNat < 0x20 then escapeCode c
  else [c]

/-- The spelling of a text. -/
def escape (s : String) : String := String.ofList (s.toList.flatMap escapeChar)

/-- The value of a hexadecimal digit of either case. -/
def hexValue? (c : Char) : Option Nat :=
  if '0' ≤ c ∧ c ≤ '9' then some (c.toNat - '0'.toNat)
  else if 'a' ≤ c ∧ c ≤ 'f' then some (c.toNat - 'a'.toNat + 10)
  else if 'A' ≤ c ∧ c ≤ 'F' then some (c.toNat - 'A'.toNat + 10)
  else none

/-- The number that four hexadecimal digits write. -/
def hexUnit? (a b c d : Char) : Option Nat := do
  let a ← hexValue? a
  let b ← hexValue? b
  let c ← hexValue? c
  let d ← hexValue? d
  return ((a * 16 + b) * 16 + c) * 16 + d

/-- The character that stands behind a backslash for another one. -/
def shortEscape? : Char → Option Char
  | '"' => some '"'
  | '\\' => some '\\'
  | '/' => some '/'
  | 'b' => some '\x08'
  | 'f' => some '\x0c'
  | 'n' => some '\n'
  | 'r' => some '\r'
  | 't' => some '\t'
  | _ => none

/-- Reads a spelling: `read` holds what was read so far, last character first,
and `high` the first half of a surrogate pair whose second half has to come
next. -/
def unescapeFrom : (read : List Char) → (high : Option Nat) → List Char → Option (List Char)
  | read, none, [] => some read.reverse
  | _, some _, [] => none
  | read, high, '\\' :: 'u' :: a :: b :: c :: d :: rest =>
    match hexUnit? a b c d, high with
    | none, _ => none
    | some unit, none =>
      if 0xd800 ≤ unit ∧ unit < 0xdc00 then unescapeFrom read (some unit) rest
      else if 0xdc00 ≤ unit ∧ unit < 0xe000 then none
      else unescapeFrom (Char.ofNat unit :: read) none rest
    | some unit, some first =>
      if 0xdc00 ≤ unit ∧ unit < 0xe000 then
        unescapeFrom (Char.ofNat (0x10000 + (first - 0xd800) * 0x400 + (unit - 0xdc00)) :: read)
          none rest
      else none
  | read, none, '\\' :: c :: rest =>
    match shortEscape? c with
    | some x => unescapeFrom (x :: read) none rest
    | none => none
  | _, none, ['\\'] => none
  | read, none, c :: rest => unescapeFrom (c :: read) none rest
  | _, some _, _ => none

/-- The text that a spelling stands for; none when a surrogate lacks its
partner. -/
def unescape? (spelling : String) : Option String :=
  (unescapeFrom [] none spelling.toList).map String.ofList

/-- The document of a text. -/
def ofText (s : String) : Json := string (escape s)

/-- The document of a natural number. -/
def ofNat (n : Nat) : Json := number (toString n)

/-- The document of an integer. -/
def ofInt (n : Int) : Json := number (toString n)

/-- The document of a list of texts. -/
def ofTexts (xs : List String) : Json := array (xs.map ofText)

/-- The document of an optional value, `null` when there is none. -/
def ofOption {α : Type} (encode : α → Json) : Option α → Json
  | none => null
  | some a => encode a

/-- An object with the given keys, in the given order. -/
def record (members : List (String × Json)) : Json :=
  object (members.map fun m => (escape m.1, m.2))

/-- The text of a document that is a string. -/
def text? : Json → Option String
  | string spelling => unescape? spelling
  | _ => none

/-- The members of an object with their keys read; none when the document is
something else or a key stands for no text. -/
def members? : Json → Option (List (String × Json))
  | object members => members.mapM fun m => (unescape? m.1).map (·, m.2)
  | _ => none

/-- The value of the last member with this key. -/
def field? (key : String) (json : Json) : Option Json :=
  match json.members? with
  | some members => members.reverse.lookup key
  | none => none

end Json
end Strata
