/-
# TOML strings

| written | escapes | newlines |
| --- | --- | --- |
| between quotes | yes | no |
| between three quotes | yes | yes |
| between apostrophes | no | no |
| between three apostrophes | no | yes |

A string of several lines loses a newline right behind its start and may end in
one or two of its own quotes before the closing three. A backslash at the end
of a line takes away the blanks and newlines behind it. Control characters
other than the tab have to be escaped.
-/

import Strata.Json.Spelling
import Strata.Text.Basic

namespace Strata
namespace Toml

open Text

/-- A control character that may not stand for itself. -/
def isControl (c : Char) : Bool := (c.toNat < 0x20 && c != '\t') || c.toNat == 0x7f

/-- The character with this number, when there is one. -/
def charOf? (n : Nat) : Option Char := if n.isValidChar then some (Char.ofNat n) else none

/-- The number that hexadecimal digits write. -/
def hexNumber? (cs : List Char) : Option Nat :=
  cs.foldlM (fun n c => (Json.hexValue? c).map (16 * n + ·)) 0

/-- How many hexadecimal digits an escape takes. -/
def hexEscapeWidth? : Char → Option Nat
  | 'x' => some 2
  | 'u' => some 4
  | 'U' => some 8
  | _ => none

/-- The character that an escape without digits stands for. -/
def shortEscape? : Char → Option Char
  | 'b' => some '\x08'
  | 't' => some '\t'
  | 'n' => some '\n'
  | 'f' => some '\x0c'
  | 'r' => some '\r'
  | 'e' => some '\x1b'
  | '"' => some '"'
  | '\\' => some '\\'
  | _ => none

/-- Drops blanks and newlines. -/
def dropSpace : List Char → List Char
  | '\r' :: '\n' :: rest => dropSpace rest
  | ' ' :: rest | '\t' :: rest | '\n' :: rest => dropSpace rest
  | cs => cs

/-- What follows a line-ending backslash: blanks, a newline, and then all
blanks and newlines are dropped. None when no newline comes. -/
def continueLine? (cs : List Char) : Option (List Char) :=
  match cs.dropWhile fun c => c == ' ' || c == '\t' with
  | '\n' :: rest | '\r' :: '\n' :: rest => some (dropSpace rest)
  | _ => none

/-- One escape behind its backslash: the character, and what follows. -/
def escape? : List Char → Option (Char × List Char)
  | [] => none
  | c :: rest =>
    match hexEscapeWidth? c with
    | some width =>
      if rest.length < width then none
      else do
        let n ← hexNumber? (rest.take width)
        let x ← charOf? n
        return (x, rest.drop width)
    | none => (shortEscape? c).map (·, rest)

/-- A string between quotes, behind the opening one: the text and what follows
the closing quote. Each unit of fuel reads one character of it. -/
def basicFrom : (fuel : Nat) → (read : List Char) → List Char → Option (String × List Char)
  | 0, _, _ => none
  | fuel + 1, read, cs =>
    match cs with
    | [] => none
    | '"' :: rest => some (String.ofList read.reverse, rest)
    | '\\' :: rest =>
      match escape? rest with
      | some (x, rest) => basicFrom fuel (x :: read) rest
      | none => none
    | c :: rest => if isControl c then none else basicFrom fuel (c :: read) rest

/-- A string between apostrophes, behind the opening one. -/
def literalFrom : (read : List Char) → List Char → Option (String × List Char)
  | _, [] => none
  | read, '\'' :: rest => some (String.ofList read.reverse, rest)
  | read, c :: rest => if isControl c then none else literalFrom (c :: read) rest

/-- Closes a string of several lines at three of its quotes; one or two more
belong to the text. -/
def closeBlock? (quote : Char) (read : List Char) (cs : List Char) :
    Option (String × List Char) :=
  let run := (cs.takeWhile (· == quote)).length
  if 3 ≤ run ∧ run ≤ 5 then
    some (String.ofList (read.reverse ++ List.replicate (run - 3) quote), cs.drop run)
  else none

/-- A string of several lines between `quote`s, behind the opening three and a
newline. Escapes are read when `escapes` holds. -/
def blockFrom (quote : Char) (escapes : Bool) :
    (fuel : Nat) → (read : List Char) → List Char → Option (String × List Char)
  | 0, _, _ => none
  | fuel + 1, read, cs =>
    match cs with
    | [] => none
    | '\r' :: '\n' :: rest => blockFrom quote escapes fuel ('\n' :: read) rest
    | '\n' :: rest => blockFrom quote escapes fuel ('\n' :: read) rest
    | c :: rest =>
      if c = quote then
        if (cs.takeWhile (· == quote)).length < 3 then blockFrom quote escapes fuel (c :: read) rest
        else closeBlock? quote read cs
      else if escapes ∧ c = '\\' then
        match continueLine? rest with
        | some rest => blockFrom quote escapes fuel read rest
        | none =>
          match escape? rest with
          | some (x, rest) => blockFrom quote escapes fuel (x :: read) rest
          | none => none
      else if isControl c then none
      else blockFrom quote escapes fuel (c :: read) rest

/-- Drops one newline. -/
def dropNewline : List Char → List Char
  | '\r' :: '\n' :: rest => rest
  | '\n' :: rest => rest
  | cs => cs

/-- A string on one line, with its quotes. -/
def lineString? : List Char → Option (String × List Char)
  | '"' :: rest => basicFrom (rest.length + 1) [] rest
  | '\'' :: rest => literalFrom [] rest
  | _ => none

/-- A string of either kind, with its quotes. -/
def string? : List Char → Option (String × List Char)
  | '"' :: '"' :: '"' :: rest => blockFrom '"' true (rest.length + 1) [] (dropNewline rest)
  | '\'' :: '\'' :: '\'' :: rest => blockFrom '\'' false (rest.length + 1) [] (dropNewline rest)
  | cs => lineString? cs

end Toml
end Strata
