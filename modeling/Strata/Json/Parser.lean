/-
# Reading a JSON text

The parser takes one token at a time and keeps the containers that are still
open in a list, the innermost first, so documents may nest to any depth. What
may come next is one of six expectations:

| expecting | allowed tokens |
| --- | --- |
| `value` | a scalar or the start of a container |
| `firstItem` | the same, or the end of the array |
| `firstKey` | a string, or the end of the object |
| `key` | a string |
| `colon` | a colon |
| `next` | a comma, or the end of the open container |
-/

import Strata.Json.Lexer

namespace Strata
namespace Json

/-- A container that is still open, with what it holds so far, latest first. -/
inductive Opened where
  | array (items : List Json)
  /-- an object, and the key whose value comes next -/
  | object (members : List (String × Json)) (key : String)
  deriving Repr

/-- What the next token may be. -/
inductive Expecting where
  | value
  | firstItem
  | firstKey
  | key
  | colon
  | next
  deriving Repr, DecidableEq

/-- The parser: reading with containers open, or done with one document. -/
inductive Parser where
  | reading (opened : List Opened) (expecting : Expecting)
  | done (json : Json)
  deriving Repr

namespace Parser

/-- The parser before the first token. -/
def start : Parser := .reading [] .value

/-- Hands a finished value to the innermost open container. -/
def deliver (value : Json) : List Opened → Parser
  | [] => .done value
  | .array items :: outer => .reading (.array (value :: items) :: outer) .next
  | .object members key :: outer => .reading (.object ((key, value) :: members) key :: outer) .next

/-- A token where a value is expected. -/
def stepValue (opened : List Opened) : Token → Option Parser
  | .null => some (deliver .null opened)
  | .bool b => some (deliver (.bool b) opened)
  | .number spelling => some (deliver (.number spelling) opened)
  | .string spelling => some (deliver (.string spelling) opened)
  | .openBracket => some (.reading (.array [] :: opened) .firstItem)
  | .openBrace => some (.reading (.object [] "" :: opened) .firstKey)
  | .closeBrace | .closeBracket | .comma | .colon => none

/-- The parser behind one more token; none when the token may not stand here. -/
def step : Parser → Token → Option Parser
  | .done _, _ => none
  | .reading opened .value, t => stepValue opened t
  | .reading (.array items :: outer) .firstItem, .closeBracket =>
    some (deliver (.array items.reverse) outer)
  | .reading opened .firstItem, t => stepValue opened t
  | .reading (.object members _ :: outer) .firstKey, .closeBrace =>
    some (deliver (.object members.reverse) outer)
  | .reading (.object members _ :: outer) .firstKey, .string spelling
  | .reading (.object members _ :: outer) .key, .string spelling =>
    some (.reading (.object members spelling :: outer) .colon)
  | .reading opened .colon, .colon => some (.reading opened .value)
  | .reading (.array items :: outer) .next, .comma => some (.reading (.array items :: outer) .value)
  | .reading (.object members key :: outer) .next, .comma =>
    some (.reading (.object members key :: outer) .key)
  | .reading (.array items :: outer) .next, .closeBracket =>
    some (deliver (.array items.reverse) outer)
  | .reading (.object members _ :: outer) .next, .closeBrace =>
    some (deliver (.object members.reverse) outer)
  | .reading _ _, _ => none

/-- The parser behind a list of tokens. -/
def run : Parser → List Token → Option Parser
  | p, [] => some p
  | p, t :: ts =>
    match p.step t with
    | some next => next.run ts
    | none => none

/-- The document, when the tokens end here. -/
def finish? : Parser → Option Json
  | .done json => some json
  | .reading _ _ => none

end Parser

/-- The document that a list of tokens writes. -/
def ofTokens? (tokens : List Token) : Option Json :=
  match Parser.start.run tokens with
  | some p => p.finish?
  | none => none

/-- The document that a text writes; none when the text is no JSON text. -/
def parse? (s : String) : Option Json :=
  match lex? s.toList with
  | some tokens => ofTokens? tokens
  | none => none

end Json
end Strata
