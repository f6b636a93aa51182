/-
# The tokens of a JSON text

The lexer reads one character at a time. Between two tokens it is `idle`; in a
string, a number or a word it remembers how far the token has come, so the
form of every token is decided by the automata below:

| in | states |
| --- | --- |
| a string | plain text, behind a backslash, in the four digits of a `\u` escape |
| a number | behind the sign, a first zero, digits, the point, digits, the `e`, its sign, digits |
| a word | letters, which have to spell `null`, `true` or `false` |

Blanks between tokens are the space, the tab, the line feed and the carriage
return; no other character may stand there.
-/

import Strata.Json.Basic

namespace Strata
namespace Json

/-- How far a string has come. -/
inductive StringState where
  | plain
  /-- behind a backslash -/
  | escape
  /-- in a `\u` escape that lacks `missing + 1` digits -/
  | hex (missing : Nat)
  deriving Repr, DecidableEq

/-- How far a number has come. -/
inductive NumberState where
  | sign
  | zero
  | whole
  | point
  | fraction
  | exponent
  | exponentSign
  | exponentDigits
  deriving Repr, DecidableEq

/-- True for an ASCII digit. -/
def isDigit (c : Char) : Bool := '0' ≤ c && c ≤ '9'

/-- True for a hexadecimal digit of either case. -/
def isHexDigit (c : Char) : Bool :=
  isDigit c || ('a' ≤ c && c ≤ 'f') || ('A' ≤ c && c ≤ 'F')

/-- The state behind one more character of a number; none when the character
does not belong to it. -/
def NumberState.next? : NumberState → Char → Option NumberState
  | .sign, c => if c = '0' then some .zero else if isDigit c then some .whole else none
  | .zero, c => if c = '.' then some .point else if c = 'e' ∨ c = 'E' then some .exponent else none
  | .whole, c =>
    if isDigit c then some .whole
    else if c = '.' then some .point
    else if c = 'e' ∨ c = 'E' then some .exponent
    else none
  | .point, c => if isDigit c then some .fraction else none
  | .fraction, c =>
    if isDigit c then some .fraction else if c = 'e' ∨ c = 'E' then some .exponent else none
  | .exponent, c =>
    if c = '+' ∨ c = '-' then some .exponentSign
    else if isDigit c then some .exponentDigits
    else none
  | .exponentSign, c => if isDigit c then some .exponentDigits else none
  | .exponentDigits, c => if isDigit c then some .exponentDigits else none

/-- True when a number may end here. -/
def NumberState.isComplete : NumberState → Bool
  | .zero | .whole | .fraction | .exponentDigits => true
  | .sign | .point | .exponent | .exponentSign => false

/-- What the lexer is in. -/
inductive Phase where
  | idle
  | inString (state : StringState)
  | inNumber (state : NumberState)
  | inWord
  deriving Repr, DecidableEq

/-- The lexer: the finished tokens and the characters of the unfinished one,
both with the latest first. -/
structure Lexer where
  tokens : List Token
  pending : List Char
  phase : Phase
  deriving Repr, DecidableEq

namespace Lexer

/-- The lexer before the first character. -/
def start : Lexer := ⟨[], [], .idle⟩

/-- Appends a finished token. -/
def emit (tokens : List Token) (t : Token) : Lexer := ⟨t :: tokens, [], .idle⟩

/-- One character between two tokens. -/
def stepIdle (tokens : List Token) (c : Char) : Option Lexer :=
  if c = ' ' ∨ c = '\t' ∨ c = '\n' ∨ c = '\r' then some ⟨tokens, [], .idle⟩
  else if c = '{' then some (emit tokens .openBrace)
  else if c = '}' then some (emit tokens .closeBrace)
  else if c = '[' then some (emit tokens .openBracket)
  else if c = ']' then some (emit tokens .closeBracket)
  else if c = ',' then some (emit tokens .comma)
  else if c = ':' then some (emit tokens .colon)
  else if c = '"' then some ⟨tokens, [], .inString .plain⟩
  else if c = '-' then some ⟨tokens, [c], .inNumber .sign⟩
  else if c = '0' then some ⟨tokens, [c], .inNumber .zero⟩
  else if isDigit c then some ⟨tokens, [c], .inNumber .whole⟩
  else if 'a' ≤ c ∧ c ≤ 'z' then some ⟨tokens, [c], .inWord⟩
  else none

/-- The token that a word is. -/
def wordToken? (word : List Char) : Option Token :=
  if word = ['n', 'u', 'l', 'l'] then some .null
  else if word = ['t', 'r', 'u', 'e'] then some (.bool true)
  else if word = ['f', 'a', 'l', 's', 'e'] then some (.bool false)
  else none

/-- One character in a string. -/
def stepString (tokens : List Token) (pending : List Char) (c : Char) :
    StringState → Option Lexer
  | .plain =>
    if c = '"' then some (emit tokens (.string (String.ofList pending.reverse)))
    else if c = '\\' then some ⟨tokens, c :: pending, .inString .escape⟩
    else if c.toNat < 0x20 then none
    else some ⟨tokens, c :: pending, .inString .plain⟩
  | .escape =>
    if c = 'u' then some ⟨tokens, c :: pending, .inString (.hex 3)⟩
    else if ['"', '\\', '/', 'b', 'f', 'n', 'r', 't'].contains c then
      some ⟨tokens, c :: pending, .inString .plain⟩
    else none
  | .hex 0 => if isHexDigit c then some ⟨tokens, c :: pending, .inString .plain⟩ else none
  | .hex (missing + 1) =>
    if isHexDigit c then some ⟨tokens, c :: pending, .inString (.hex missing)⟩ else none

/-- The lexer behind one more character; none when no token allows it. -/
def step (l : Lexer) (c : Char) : Option Lexer :=
  match l.phase with
  | .idle => stepIdle l.tokens c
  | .inString state => stepString l.tokens l.pending c state
  | .inNumber state =>
    match state.next? c with
    | some next => some ⟨l.tokens, c :: l.pending, .inNumber next⟩
    | none =>
      if state.isComplete then
        stepIdle (.number (String.ofList l.pending.reverse) :: l.tokens) c
      else none
  | .inWord =>
    if 'a' ≤ c ∧ c ≤ 'z' then some ⟨l.tokens, c :: l.pending, .inWord⟩
    else
      match wordToken? l.pending.reverse with
      | some t => stepIdle (t :: l.tokens) c
      | none => none

/-- The tokens, latest first, when the text ends here. -/
def finish? (l : Lexer) : Option (List Token) :=
  match l.phase with
  | .idle => some l.tokens
  | .inString _ => none
  | .inNumber state =>
    if state.isComplete then some (.number (String.ofList l.pending.reverse) :: l.tokens) else none
  | .inWord => (wordToken? l.pending.reverse).map (· :: l.tokens)

/-- The lexer behind a list of characters. -/
def run : Lexer → List Char → Option Lexer
  | l, [] => some l
  | l, c :: cs =>
    match l.step c with
    | some next => next.run cs
    | none => none

end Lexer

/-- The tokens of a text; none when some part of it is no token. -/
def lex? (cs : List Char) : Option (List Token) :=
  match Lexer.start.run cs with
  | some l => l.finish?.map List.reverse
  | none => none

end Json
end Strata
