/-
# JSON with comments and trailing commas

Specification, section 4.3: JSON with comments and trailing commas.

Compiler configurations are JSON in which comments may stand between tokens and
a comma behind the last element. Both are taken out of the text, and string
literals are left as they are:

1. a comment from two slashes to the end of its line, without the line feed;
   a comment from `/*` to the next `*/`;
2. a comma whose next character that is no blank closes a container.
-/

import Strata.Text.Basic

namespace Strata
namespace Json

/-- What a character of a text with comments belongs to. -/
inductive Region where
  | code
  /-- a string literal; `escaped` behind a backslash -/
  | literal (escaped : Bool)
  | lineComment
  /-- a block comment; `star` behind a star -/
  | blockComment (star : Bool)
  deriving Repr, DecidableEq

/-- The text without its comments, from a region on. -/
def dropComments : Region → List Char → List Char
  | _, [] => []
  | .code, '/' :: '/' :: rest => dropComments .lineComment rest
  | .code, '/' :: '*' :: rest => dropComments (.blockComment false) rest
  | .code, c :: rest => c :: dropComments (if c = '"' then .literal false else .code) rest
  | .literal true, c :: rest => c :: dropComments (.literal false) rest
  | .literal false, c :: rest =>
    c :: dropComments (if c = '"' then .code else .literal (c == '\\')) rest
  | .lineComment, c :: rest =>
    if c = '\n' then c :: dropComments .code rest else dropComments .lineComment rest
  | .blockComment star, c :: rest =>
    if star ∧ c = '/' then dropComments .code rest else dropComments (.blockComment (c == '*')) rest

/-- True when the next character that is no blank closes a container. -/
def closesNext (cs : List Char) : Bool :=
  match (cs.dropWhile Text.isBlank).head? with
  | some c => c == '}' || c == ']'
  | none => false

/-- The text without commas in front of a closing bracket, from a region on. -/
def dropTrailingCommas : Region → List Char → List Char
  | _, [] => []
  | .literal true, c :: rest => c :: dropTrailingCommas (.literal false) rest
  | .literal false, c :: rest =>
    c :: dropTrailingCommas (if c = '"' then .code else .literal (c == '\\')) rest
  | region, c :: rest =>
    if c = ',' ∧ closesNext rest then dropTrailingCommas region rest
    else c :: dropTrailingCommas (if c = '"' then .literal false else region) rest

/-- The text of a document without comments and trailing commas. -/
def strict (s : String) : String :=
  String.ofList (dropTrailingCommas .code (dropComments .code s.toList))

end Json
end Strata
