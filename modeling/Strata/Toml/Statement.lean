/-
# The statements of a TOML document

A document is a list of statements, one a line:

| statement | meaning |
| --- | --- |
| `[path]` | the pairs that follow belong to this table |
| `[[path]]` | the pairs that follow belong to a new element of this array of tables |
| `path = value` | a pair |

Arrays and inline tables may run over several lines, with comments between
their elements and a comma behind the last one. They nest at most
`maxNesting` deep.
-/

import Strata.Toml.Scalar
import Strata.Toml.Text

namespace Strata
namespace Toml

open Text

/-- Keys that lead from table to table. -/
abbrev KeyPath := List String

/-- A value as it is written. -/
inductive Value where
  | scalar (json : Json)
  | array (items : List Value)
  | inlineTable (pairs : List (KeyPath × Value))

/-- A statement. -/
inductive Statement where
  | table (path : KeyPath)
  | element (path : KeyPath)
  | pair (path : KeyPath) (value : Value)

/-- How deep arrays and inline tables may nest. -/
def maxNesting : Nat := 80

/-- Drops the blanks of a line. -/
def dropBlanks (cs : List Char) : List Char := cs.dropWhile fun c => c == ' ' || c == '\t'

/-- A comment up to the end of its line; none when a control character stands
in it. Anything else is left as it is. -/
def dropComment? : List Char → Option (List Char)
  | '#' :: rest =>
    let comment := rest.takeWhile (· != '\n')
    let tail := rest.dropWhile (· != '\n')
    let shown := if tail.isEmpty then comment else dropReturn comment
    if shown.any isControl then none else some tail
  | cs => some cs

/-- What follows the end of a line, when the line ends here. -/
def endOfLine? : List Char → Option (List Char)
  | [] => some []
  | '\n' :: rest | '\r' :: '\n' :: rest => some rest
  | _ => none

/-- Drops blanks, newlines and comments. -/
def skipLines : (fuel : Nat) → List Char → Option (List Char)
  | 0, _ => none
  | fuel + 1, cs =>
    match dropBlanks cs with
    | '#' :: rest =>
      match dropComment? ('#' :: rest) with
      | some cs => skipLines fuel cs
      | none => none
    | '\n' :: rest | '\r' :: '\n' :: rest => skipLines fuel rest
    | cs => some cs

/-- A character of a bare key. -/
def isBareChar (c : Char) : Bool :=
  ('a' ≤ c && c ≤ 'z') || ('A' ≤ c && c ≤ 'Z') || isDecimal c || c == '_' || c == '-'

/-- One key: bare or quoted. -/
def key? (cs : List Char) : Option (String × List Char) :=
  match cs with
  | '"' :: _ | '\'' :: _ => lineString? cs
  | _ =>
    let bare := cs.takeWhile isBareChar
    if bare.isEmpty then none else some (String.ofList bare, cs.drop bare.length)

/-- Keys with dots between them, and what follows the blanks behind them. -/
def keyPath? : (fuel : Nat) → List Char → Option (KeyPath × List Char)
  | 0, _ => none
  | fuel + 1, cs => do
    let (key, rest) ← key? (dropBlanks cs)
    match dropBlanks rest with
    | '.' :: rest =>
      let (path, rest) ← keyPath? fuel rest
      return (key :: path, rest)
    | rest => return ([key], rest)

/-- A scalar that is no string. A date may be followed by a blank and a time of
day. -/
def bareScalar? (cs : List Char) : Option (Value × List Char) :=
  let word := cs.takeWhile isScalarChar
  let rest := cs.drop word.length
  match isDate word, rest with
  | true, ' ' :: c :: tail =>
    if isDecimal c then
      let time := (c :: tail).takeWhile isScalarChar
      (scalar? (word ++ ' ' :: time)).map fun json => (.scalar json, (c :: tail).drop time.length)
    else (scalar? word).map fun json => (.scalar json, rest)
  | _, _ => (scalar? word).map fun json => (.scalar json, rest)

mutual

/-- A value, inside containers that leave room for `depth` more. Each call
spends a unit of fuel, and a text needs no more of them than it has characters,
times three. -/
def value? : (fuel depth : Nat) → List Char → Option (Value × List Char)
  | 0, _, _ => none
  | fuel + 1, depth, cs =>
    match cs, depth with
    | '[' :: _, 0 => none
    | '{' :: _, 0 => none
    | '[' :: rest, depth + 1 =>
      (items? fuel depth rest).map fun (items, rest) => (.array items, rest)
    | '{' :: rest, depth + 1 =>
      (pairs? fuel depth rest).map fun (pairs, rest) => (.inlineTable pairs, rest)
    | '"' :: _, _ | '\'' :: _, _ => (string? cs).map fun (s, rest) => (.scalar (.ofText s), rest)
    | _, _ => bareScalar? cs

/-- The elements of an array up to its end. -/
def items? : (fuel depth : Nat) → List Char → Option (List Value × List Char)
  | 0, _, _ => none
  | fuel + 1, depth, cs => do
    match ← skipLines (cs.length + 1) cs with
    | ']' :: rest => return ([], rest)
    | cs =>
      let (item, rest) ← value? fuel depth cs
      match ← skipLines (rest.length + 1) rest with
      | ',' :: rest =>
        let (items, rest) ← items? fuel depth rest
        return (item :: items, rest)
      | ']' :: rest => return ([item], rest)
      | _ => none

/-- The pairs of an inline table up to its end. -/
def pairs? : (fuel depth : Nat) → List Char → Option (List (KeyPath × Value) × List Char)
  | 0, _, _ => none
  | fuel + 1, depth, cs => do
    match ← skipLines (cs.length + 1) cs with
    | '}' :: rest => return ([], rest)
    | cs =>
      let (pair, rest) ← pair? fuel depth cs
      match ← skipLines (rest.length + 1) rest with
      | ',' :: rest =>
        let (pairs, rest) ← pairs? fuel depth rest
        return (pair :: pairs, rest)
      | '}' :: rest => return ([pair], rest)
      | _ => none

/-- A path, an equals sign and a value. -/
def pair? : (fuel depth : Nat) → List Char → Option ((KeyPath × Value) × List Char)
  | 0, _, _ => none
  | fuel + 1, depth, cs => do
    let (path, rest) ← keyPath? (cs.length + 1) cs
    match rest with
    | '=' :: rest =>
      let (value, rest) ← value? fuel depth (dropBlanks rest)
      return ((path, value), rest)
    | _ => none

end

/-- The statement at the start of a line, and what follows it. -/
def statement? (cs : List Char) : Option (Statement × List Char) :=
  match cs with
  | '[' :: '[' :: rest => do
    let (path, rest) ← keyPath? (rest.length + 1) rest
    match rest with
    | ']' :: ']' :: rest => return (.element path, rest)
    | _ => none
  | '[' :: rest => do
    let (path, rest) ← keyPath? (rest.length + 1) rest
    match rest with
    | ']' :: rest => return (.table path, rest)
    | _ => none
  | _ => do
    let ((path, value), rest) ← pair? (3 * cs.length + 3) maxNesting cs
    return (.pair path value, rest)

/-- The statements of a document, line by line. Each line spends a unit of
fuel. -/
def statementsFrom : (fuel : Nat) → List Char → Option (List Statement)
  | 0, _ => none
  | fuel + 1, cs =>
    match dropBlanks cs with
    | [] => some []
    | '#' :: rest => do
      let rest ← dropComment? ('#' :: rest)
      statementsFrom fuel (← endOfLine? rest)
    | '\n' :: rest | '\r' :: '\n' :: rest => statementsFrom fuel rest
    | cs => do
      let (statement, rest) ← statement? cs
      let rest ← dropComment? (dropBlanks rest)
      let rest ← endOfLine? rest
      let statements ← statementsFrom fuel rest
      return statement :: statements

/-- The statements of a document; a byte order mark in front belongs to none of
them. -/
def statements? (s : String) : Option (List Statement) :=
  let cs :=
    match s.toList with
    | '\ufeff' :: rest => rest
    | cs => cs
  statementsFrom (cs.length + 1) cs

end Toml
end Strata
