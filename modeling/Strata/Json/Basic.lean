/-
# JSON documents

A document keeps its numbers and strings as they were spelled, so that what a
reader passes over is checked for its form only and what it takes is read with
all the rules of its type.

A document is written as a list of tokens. `Json.compact` puts nothing between
them; `Json.pretty` gives every element and every member a line of its own,
indented by two spaces per level, and writes an empty container on one line.
-/

namespace Strata

/-- A JSON document as it is spelled: a number by its digits, a string or the
key of a member by what stands between its quotes. -/
inductive Json where
  | null
  | bool (value : Bool)
  | number (spelling : String)
  | string (spelling : String)
  | array (items : List Json)
  | object (members : List (String × Json))
  deriving Repr, BEq, Inhabited

namespace Json

/-- The smallest parts of a JSON text. -/
inductive Token where
  | openBrace
  | closeBrace
  | openBracket
  | closeBracket
  | comma
  | colon
  | null
  | bool (value : Bool)
  | number (spelling : String)
  | string (spelling : String)
  deriving Repr, DecidableEq

/-- The text of a token. -/
def Token.text : Token → String
  | .openBrace => r"{"
  | .closeBrace => r"}"
  | .openBracket => "["
  | .closeBracket => "]"
  | .comma => ","
  | .colon => ":"
  | .null => "null"
  | .bool true => "true"
  | .bool false => "false"
  | .number spelling => spelling
  | .string spelling => "\"" ++ spelling ++ "\""

mutual

/-- The tokens of a document. -/
def tokens : Json → List Token
  | null => [.null]
  | bool b => [.bool b]
  | number spelling => [.number spelling]
  | string spelling => [.string spelling]
  | array items => .openBracket :: itemTokens items
  | object members => .openBrace :: memberTokens members

/-- The tokens of the elements of an array, up to its end. -/
def itemTokens : List Json → List Token
  | [] => [.closeBracket]
  | [item] => item.tokens ++ [.closeBracket]
  | item :: next :: rest => item.tokens ++ .comma :: itemTokens (next :: rest)

/-- The tokens of the members of an object, up to its end. -/
def memberTokens : List (String × Json) → List Token
  | [] => [.closeBrace]
  | [(key, value)] => .string key :: .colon :: value.tokens ++ [.closeBrace]
  | (key, value) :: next :: rest =>
    .string key :: .colon :: value.tokens ++ .comma :: memberTokens (next :: rest)

end

/-- The document without any space. -/
def compact (json : Json) : String := String.join (json.tokens.map Token.text)

/-- A new line, indented by two spaces per level. -/
def newLine (level : Nat) : String := "\n" ++ String.ofList (List.replicate (2 * level) ' ')

mutual

/-- The document laid out on lines, inside `level` containers. -/
def prettyAt (level : Nat) : Json → String
  | null => "null"
  | bool b => (Token.bool b).text
  | number spelling => spelling
  | string spelling => (Token.string spelling).text
  | array [] => "[]"
  | array (item :: rest) =>
    "[" ++ newLine (level + 1) ++ prettyAt (level + 1) item ++ prettyItems level rest ++
      newLine level ++ "]"
  | object [] => "{}"
  | object ((key, value) :: rest) =>
    r"{" ++ newLine (level + 1) ++ (Token.string key).text ++ ": " ++
      prettyAt (level + 1) value ++ prettyMembers level rest ++ newLine level ++ r"}"

/-- The further elements of an array that stands inside `level` containers. -/
def prettyItems (level : Nat) : List Json → String
  | [] => ""
  | item :: rest =>
    "," ++ newLine (level + 1) ++ prettyAt (level + 1) item ++ prettyItems level rest

/-- The further members of an object that stands inside `level` containers. -/
def prettyMembers (level : Nat) : List (String × Json) → String
  | [] => ""
  | (key, value) :: rest =>
    "," ++ newLine (level + 1) ++ (Token.string key).text ++ ": " ++
      prettyAt (level + 1) value ++ prettyMembers level rest

end

/-- The document laid out on lines. -/
def pretty (json : Json) : String := json.prettyAt 0

end Json
end Strata
